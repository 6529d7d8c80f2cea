import CatalogueSync.Glob.Basic

/-!
# Matching with glob patterns

`matchesPieces` says what it means that pieces match a text. A run of characters can stop at any
end of the text, so that trying the ends one by one takes time exponential in the number of
runs. `matchMarks` goes through the pieces once, from the last to the first, and marks for every
end of the text whether the pieces match it; `matchMarks_eq` says that the marks are right.
-/

set_option autoImplicit false

namespace CatalogueSync.Glob

/-- The ends of a text, from the whole of it to the empty one. -/
def ends : Text → List Text
  | [] => [[]]
  | c :: s => (c :: s) :: ends s

/-- The ends of a text at which leading folders can stop: the whole text, the text after each
slash and the empty text. -/
def folderEnds (s : Text) : List Text :=
  s :: afterSlashes s ++ [[]]
where
  /-- The ends of a text that follow a slash. -/
  afterSlashes : Text → List Text
    | [] => []
    | c :: s => if c = '/' then s :: afterSlashes s else afterSlashes s

/-- Whether the pieces match a whole text. -/
def matchesPieces : List Piece → Text → Bool
  | [], s => s.isEmpty
  | .anyRun :: ps, s => (ends s).any (matchesPieces ps)
  | .anyFolders :: ps, s => (folderEnds s).any (matchesPieces ps)
  | p :: ps, s =>
    match s with
    | [] => false
    | c :: s => p.covers c && matchesPieces ps s

/-- Marks every end of a text that has a marked end. The marks of a text are one for each of its
ends, the longest end first. -/
def markRuns : List Bool → List Bool
  | [] => []
  | mark :: marks =>
    let later := markRuns marks
    (mark || later.headD false) :: later

/-- Marks every end of a text that has a marked end after a slash or a marked empty end. -/
def markFolders : Text → List Bool → List Bool
  | [], marks => marks
  | c :: s, marks =>
    let later := markFolders s marks.tail
    ((c = '/' && marks.tail.headD false) || later.headD false) :: later

/-- Marks every end of a text whose first character the piece covers and whose end after that is
marked. -/
def markChars (p : Piece) : Text → List Bool → List Bool
  | [], _ => [false]
  | c :: s, marks => (p.covers c && marks.tail.headD false) :: markChars p s marks.tail

/-- Marks every end of a text that the pieces match. -/
def matchMarks : List Piece → Text → List Bool
  | [], s => (ends s).map List.isEmpty
  | .anyRun :: ps, s => markRuns (matchMarks ps s)
  | .anyFolders :: ps, s =>
    let marks := matchMarks ps s
    List.zipWith (· || ·) marks (markFolders s marks)
  | p :: ps, s => markChars p s (matchMarks ps s)

/-- Whether a pattern matches a whole path. -/
def matchesPath (g : Glob) (path : Text) : Bool :=
  (matchMarks g.pieces path).headD false

/-- The first end of a text is the text. -/
@[simp]
theorem head?_ends (s : Text) : (ends s).head? = some s := by
  cases s <;> rfl

theorem markRuns_map_ends (f : Text → Bool) (s : Text) :
    markRuns ((ends s).map f) = (ends s).map fun t => (ends t).any f := by
  induction s with
  | nil => simp [ends, markRuns]
  | cons c s ih => simp [ends, markRuns, ih]

theorem markFolders_map_ends (f : Text → Bool) (s : Text) :
    markFolders s ((ends s).map f) =
      (ends s).map fun t => (folderEnds.afterSlashes t ++ [[]]).any f := by
  induction s with
  | nil => simp [ends, markFolders, folderEnds.afterSlashes]
  | cons c s ih =>
    by_cases hc : c = '/' <;>
      simp [ends, markFolders, folderEnds.afterSlashes, ih, hc, Bool.or_assoc]

theorem markChars_map_ends (p : Piece) (ps : List Piece) (s : Text)
    (hp : p ≠ .anyRun ∧ p ≠ .anyFolders) :
    markChars p s ((ends s).map (matchesPieces ps)) = (ends s).map (matchesPieces (p :: ps)) := by
  induction s with
  | nil => cases p <;> simp_all [ends, markChars, matchesPieces]
  | cons c s ih => cases p <;> simp_all [ends, markChars, matchesPieces]

/-- The marks are right. -/
theorem matchMarks_eq (ps : List Piece) (s : Text) :
    matchMarks ps s = (ends s).map (matchesPieces ps) := by
  induction ps with
  | nil => simp [matchMarks, matchesPieces]
  | cons p ps ih =>
    cases p with
    | anyRun => simp [matchMarks, matchesPieces, ih, markRuns_map_ends]
    | anyFolders =>
      simp [matchMarks, matchesPieces, ih, markFolders_map_ends, folderEnds]
    | _ => simp [matchMarks, ih, markChars_map_ends]

/-- A pattern matches a path when its pieces do. -/
theorem matchesPath_eq (g : Glob) (path : Text) :
    g.matchesPath path = matchesPieces g.pieces path := by
  simp [matchesPath, matchMarks_eq]

end CatalogueSync.Glob
