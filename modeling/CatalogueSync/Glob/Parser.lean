import CatalogueSync.Glob.Basic

/-!
# Reading glob patterns

A pattern is read from left to right. The first fault decides and is reported with its position.
-/

set_option autoImplicit false

namespace CatalogueSync.Glob

/-- Why a pattern is not well formed. -/
inductive Fault where
  | tooManyStars
  | foldersNotAlone
  | unclosedSet
  deriving DecidableEq

/-- The wording of a fault. -/
def Fault.message : Fault → String
  | tooManyStars => "wildcards are either regular `*` or recursive `**`"
  | foldersNotAlone => "recursive wildcards must form a single path component"
  | unclosedSet => "invalid range pattern"

/-- A fault and the number of characters before it. -/
structure Error where
  position : Nat
  fault : Fault
  deriving DecidableEq

/-- The wording of a fault at a position. -/
def Error.message (e : Error) : String :=
  let position := e.position
  let fault := e.fault.message
  s!"Pattern syntax error near position {position}: {fault}"

/-- The members that the inside of a set spells: a dash between two characters makes a range. -/
def members : Text → List Member
  | a :: b :: c :: s => if b = '-' then .range a c :: members s else .one a :: members (b :: c :: s)
  | a :: s => .one a :: members s
  | [] => []

/-- Reads a set after its opening bracket. The first character inside, after a leading `!`,
always belongs to the set, so that a closing bracket can. -/
def readSet (s : Text) : Option (Piece × Text) :=
  let negated := s.head? = some '!'
  match if negated then s.tail else s with
  | [] => none
  | first :: s =>
    match s.dropWhile fun c => c != ']' with
    | [] => none
    | _ :: rest => some (.set negated (members (first :: s.takeWhile fun c => c != ']')), rest)

/-- Reads `**` after the character `before`, from the text after it. -/
def readFolders (position : Nat) (before : Option Char) (s : Text) : Except Error Text :=
  if before = none ∨ before = some '/' then
    match s with
    | [] => .ok []
    | c :: rest => if c = '/' then .ok rest else .error ⟨position + 2, .foldersNotAlone⟩
  else .error ⟨position - 1, .foldersNotAlone⟩

theorem readSet_length_lt {s rest : Text} {p : Piece} (h : readSet s = some (p, rest)) :
    rest.length < s.length := by
  unfold readSet at h
  simp only at h
  split at h
  · simp at h
  · rename_i first t ht
    have hs : (first :: t).length ≤ s.length := by
      rw [← ht]
      split <;> simp
    split at h
    · simp at h
    · rename_i c rest' hd
      have := (List.dropWhile_sublist (p := fun c => c != ']') (l := t)).length_le
      simp only [Option.some.injEq, Prod.mk.injEq] at h
      rw [hd, h.2] at this
      simp at this hs
      omega

theorem readFolders_length_le {position : Nat} {before : Option Char} {s rest : Text}
    (h : readFolders position before s = .ok rest) : rest.length ≤ s.length := by
  unfold readFolders at h
  split at h
  · split at h
    · simp_all
    · split at h
      · simp_all
      · simp at h
  · simp at h

/-- Reads the pieces of a pattern of `total` characters from what is left of it, where `before`
is the character read last. -/
def readPieces (total : Nat) (before : Option Char) (s : Text) : Except Error (List Piece) :=
  match s with
  | [] => .ok []
  | c :: s =>
    let position := total - (s.length + 1)
    if c = '?' then (readPieces total (some c) s).map (.anyChar :: ·)
    else if c = '*' then
      match s with
      | [] => .ok [.anyRun]
      | d :: t =>
        if d = '*' then
          if t.head? = some '*' then .error ⟨position + 2, .tooManyStars⟩
          else
            match _h : readFolders position before t with
            | .error e => .error e
            | .ok rest => (readPieces total (some '/') rest).map (.anyFolders :: ·)
        else (readPieces total (some c) (d :: t)).map (.anyRun :: ·)
    else if c = '[' then
      match _h : readSet s with
      | none => .error ⟨position, .unclosedSet⟩
      | some (set, rest) => (readPieces total (some ']') rest).map (set :: ·)
    else (readPieces total (some c) s).map (.literal c :: ·)
termination_by s.length
decreasing_by
  · simp
  · have := readFolders_length_le _h
    simp
    omega
  · simp
  · have := readSet_length_lt _h
    simp
    omega
  · simp

/-- Reads a pattern. -/
def parse (s : Text) : Except Error Glob :=
  (readPieces s.length none s).map Glob.mk

end CatalogueSync.Glob
