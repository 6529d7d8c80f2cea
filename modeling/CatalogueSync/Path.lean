import CatalogueSync.Text.Basic

/-!
# Paths

A path is kept as the texts between its slashes, so that what a user wrote is shown again as it
was written. Its components leave out what does not move: empty segments and dots, except a dot
at the start, which is a component of its own.
-/

set_option autoImplicit false

namespace CatalogueSync

/-- A path, as the texts between its slashes. -/
structure Path where
  segments : List Text
  deriving DecidableEq

namespace Path

/-- The texts between the slashes of a text. -/
def splitSegments : Text → List Text
  | [] => [[]]
  | c :: s =>
    if c = '/' then [] :: splitSegments s
    else
      match splitSegments s with
      | [] => [[c]]
      | w :: ws => (c :: w) :: ws

/-- Segments with a slash between each two. -/
def joinSegments : List Text → Text
  | [] => []
  | [w] => w
  | w :: v :: ws => w ++ '/' :: joinSegments (v :: ws)

/-- The path that a text spells. -/
def ofText (s : Text) : Path :=
  ⟨splitSegments s⟩

/-- The text of a path. -/
def toText (p : Path) : Text :=
  joinSegments p.segments

/-- The path without any character. -/
def empty : Path :=
  ⟨[[]]⟩

/-- The directory that a path starts in, written as a dot. -/
def here : Path :=
  ⟨[['.']]⟩

/-- Whether a path has no character. -/
def isEmpty (p : Path) : Bool :=
  p.toText.isEmpty

/-- Whether a path starts with a slash. -/
def isAbsolute (p : Path) : Bool :=
  match p.segments with
  | [] :: _ :: _ => true
  | _ => false

/-- A path seen from another one: an absolute path stands for itself. -/
def join (base p : Path) : Path :=
  if p.isAbsolute || base.isEmpty then p
  else if base.segments.getLast? = some [] then ⟨base.segments.dropLast ++ p.segments⟩
  else ⟨base.segments ++ p.segments⟩

/-- Whether a segment is longer than names can be. -/
def isLongName (segment : Text) : Bool :=
  Text.byteLength segment > 255

/-- Whether a path is longer than paths can be. -/
def isLong (p : Path) : Bool :=
  p.toText.byteLength > 4095

/-- Whether a path has a character that no name can have. A path that was read from a text has no
slash in a segment. -/
def isImpossible (p : Path) : Bool :=
  p.segments.any fun segment => segment.any fun c => c = '\x00' || c = '/'

/-- Whether a segment after the first one leaves the directory as it is. -/
def isStill (segment : Text) : Bool :=
  segment = [] || segment = ['.']

/-- A segment that leads downward. -/
def IsName (segment : Text) : Prop :=
  isStill segment = false ∧ segment ≠ ['.', '.']

instance (segment : Text) : Decidable (IsName segment) :=
  inferInstanceAs (Decidable (_ ∧ _))

/-- A name that something in a directory can have. -/
def IsEntryName (name : Text) : Prop :=
  IsName name ∧ '/' ∉ name

instance (name : Text) : Decidable (IsEntryName name) :=
  inferInstanceAs (Decidable (_ ∧ _))

/-- Segments without the still ones at their end. -/
def trimStill (segments : List Text) : List Text :=
  (segments.reverse.dropWhile isStill).reverse

/-- The components of a path. The component of a leading slash is the empty text. -/
def components (p : Path) : List Text :=
  match p.segments with
  | [] => []
  | s :: ss => (if s = [] && ss.isEmpty then [] else [s]) ++ ss.filter fun t => !isStill t

/-- The path without its last component, if it has one that can be left. -/
def parent? (p : Path) : Option Path :=
  match p.segments with
  | [] => none
  | s :: ss =>
    match ss.reverse.dropWhile isStill with
    | [] => if s = [] then none else some empty
    | _ :: above =>
      let rest := trimStill above.reverse
      some ⟨if s = [] ∧ rest = [] then [[], []] else s :: rest⟩

/-- The segments after the first `n` components of a path whose start has been passed. -/
def dropComponents : Nat → List Text → List Text
  | 0, ss => ss
  | n + 1, ss => dropComponents n (ss.dropWhile isStill).tail

/-- The path seen from `base`, if its components start with those of `base`. -/
def within? (base p : Path) : Option Path :=
  if base.components.isPrefixOf p.components then
    match base.components.length with
    | 0 => some p
    | n + 1 => some ⟨trimStill ((dropComponents n p.segments.tail).dropWhile isStill)⟩
  else none

theorem splitSegments_ne_nil (s : Text) : splitSegments s ≠ [] := by
  cases s with
  | nil => simp [splitSegments]
  | cons c s =>
    simp only [splitSegments]
    split
    · simp
    · split <;> simp

/-- A text is its segments with slashes between them. -/
@[simp]
theorem joinSegments_splitSegments (s : Text) : joinSegments (splitSegments s) = s := by
  induction s with
  | nil => rfl
  | cons c s ih =>
    simp only [splitSegments]
    split
    · rename_i hc
      cases h : splitSegments s with
      | nil => exact absurd h (splitSegments_ne_nil s)
      | cons w ws =>
        rw [h] at ih
        simp [joinSegments, ih, hc]
    · cases h : splitSegments s with
      | nil => exact absurd h (splitSegments_ne_nil s)
      | cons w ws =>
        rw [h] at ih
        cases ws with
        | nil => simpa [joinSegments] using ih
        | cons v ws => simpa [joinSegments] using ih

@[simp]
theorem toText_ofText (s : Text) : (ofText s).toText = s :=
  joinSegments_splitSegments s

/-- A text without a slash is the only segment of its path. -/
theorem splitSegments_eq_singleton {s : Text} (h : '/' ∉ s) : splitSegments s = [s] := by
  induction s with
  | nil => rfl
  | cons c s ih =>
    simp only [List.mem_cons, not_or] at h
    simp [splitSegments, ih h.2, Ne.symm h.1]

theorem filter_dropWhile_isStill (ss : List Text) :
    (ss.dropWhile isStill).filter (fun t => !isStill t) = ss.filter fun t => !isStill t := by
  induction ss with
  | nil => rfl
  | cons t ss ih => cases h : isStill t <;> simp [h, ih]

theorem filter_trimStill (ss : List Text) :
    (trimStill ss).filter (fun t => !isStill t) = ss.filter fun t => !isStill t := by
  rw [trimStill, List.filter_reverse, filter_dropWhile_isStill, List.filter_reverse,
    List.reverse_reverse]

/-- The parent lacks exactly the last component. -/
theorem components_of_parent? {p q : Path} (h : p.parent? = some q) :
    ∃ last, p.components = q.components ++ [last] := by
  obtain ⟨segments⟩ := p
  cases segments with
  | nil => simp [parent?] at h
  | cons s ss =>
    simp only [parent?] at h
    have hf := congrArg List.reverse (filter_dropWhile_isStill ss.reverse)
    rw [List.filter_reverse, List.reverse_reverse] at hf
    split at h
    · rename_i hd
      split at h
      · simp at h
      · rename_i hs
        simp only [Option.some.injEq] at h
        subst h
        refine ⟨s, ?_⟩
        rw [hd] at hf
        simp [components, empty, hs, ← hf]
    · rename_i last above hd
      have hlast : isStill last = false := by
        have := List.head_dropWhile_not (p := isStill) (l := ss.reverse) (by simp [hd])
        simpa [hd] using this
      simp only [Option.some.injEq] at h
      subst h
      refine ⟨last, ?_⟩
      rw [hd] at hf
      have hne : ss ≠ [] := by
        rintro rfl
        simp at hd
      have ha := filter_trimStill above.reverse
      rw [List.filter_reverse] at ha
      simp only [List.filter_cons, hlast, Bool.not_false, if_true, List.reverse_cons] at hf
      by_cases hc : s = [] ∧ trimStill above.reverse = []
      · rw [if_pos hc]
        rw [hc.2] at ha
        simp only [components]
        rw [← hf, ← ha]
        simp [hc.1, hne, isStill]
      · rw [if_neg hc]
        have hc' : (s = [] && (trimStill above.reverse).isEmpty) = false := by
          simpa using hc
        simp only [components]
        rw [hc', ← hf, ha]
        simp [hne]

theorem components_length_parent?_lt {p q : Path} (h : p.parent? = some q) :
    q.components.length < p.components.length := by
  obtain ⟨last, hl⟩ := components_of_parent? h
  simp [hl]

/-- The directories that a path leads through, without the path itself. -/
def pathsAbove (p : Path) : List Path :=
  match _h : p.parent? with
  | none => []
  | some above => above :: pathsAbove above
termination_by p.components.length
decreasing_by exact components_length_parent?_lt _h

end Path

end CatalogueSync
