import CatalogueSync.ParseError
import CatalogueSync.Tag

/-!
# Blocks and translator comments

Templates and catalogues are read block by block: a block runs to the first tag with one of the
names that can end it, and everything before that tag is kept as it is written. A translator
comment may lead a block, after blank text.

Both readers return the tokens that are left, and never more than they were given.
-/

set_option autoImplicit false

namespace CatalogueSync

/-- A block: its trimmed text and the tag that ended it. -/
structure Block where
  text : Text
  close : Tag
  deriving DecidableEq

/-- The exact text before the first tag with one of the names in `closing`, that tag, and the
tokens after it. -/
def splitBlock (closing : List Text) : List Token → Option (Text × Tag × List Token)
  | [] => none
  | t :: ts =>
    match t.tag? closing with
    | some close => some ([], close, ts)
    | none => (splitBlock closing ts).map fun r => (t.raw ++ r.1, r.2)

/-- Reads the block that ends with a tag named in `closing`, where the tag that opened the block
stands on line `openedAt`. -/
def readBlock (closing : List Text) (openedAt : Nat) (ts : List Token) :
    Except ParseError (Block × List Token) :=
  match splitBlock closing ts with
  | some (raw, close, rest) => .ok (⟨Text.trim raw, close⟩, rest)
  | none => .error (.unterminatedBlock openedAt closing)

/-- Takes the comment that leads the tokens, after blank text. The comment's content is returned
unless it is empty; without a comment no token is taken. -/
def takeComment (ts : List Token) : Option Text × List Token :=
  match ts.dropWhile Token.isBlank with
  | t :: rest =>
    if t.kind = .unit .comment then (if t.body.isEmpty then none else some t.body, rest)
    else (none, ts)
  | [] => (none, ts)

theorem splitBlock_length_lt {closing : List Text} {ts : List Token} {raw : Text} {close : Tag}
    {rest : List Token} (h : splitBlock closing ts = some (raw, close, rest)) :
    rest.length < ts.length := by
  induction ts generalizing raw with
  | nil => simp [splitBlock] at h
  | cons t ts ih =>
    simp only [splitBlock] at h
    split at h
    · simp only [Option.some.injEq, Prod.mk.injEq] at h
      simp [h.2.2]
    · obtain ⟨r, hr, he⟩ := Option.map_eq_some_iff.1 h
      simp only [Prod.mk.injEq] at he
      have := @ih r.1 (by rw [hr, ← he.2])
      simp
      omega

theorem readBlock_length_lt {closing : List Text} {openedAt : Nat} {ts rest : List Token}
    {b : Block} (h : readBlock closing openedAt ts = .ok (b, rest)) : rest.length < ts.length := by
  unfold readBlock at h
  split at h
  · rename_i hs
    simp only [Except.ok.injEq, Prod.mk.injEq] at h
    rw [← h.2]
    exact splitBlock_length_lt hs
  · simp at h

theorem takeComment_length_le (ts : List Token) : (takeComment ts).2.length ≤ ts.length := by
  have hle := (List.dropWhile_sublist (p := Token.isBlank) (l := ts)).length_le
  unfold takeComment
  split
  · rename_i t rest h
    rw [h] at hle
    split
    · simp at hle ⊢
      omega
    · simp
  · simp

end CatalogueSync
