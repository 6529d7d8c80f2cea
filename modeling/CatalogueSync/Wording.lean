import CatalogueSync.Block

/-!
# Singular and plural

A translatable block holds a singular text and, after a `plural` tag, a plural text. Templates
and catalogues differ only in the tag that closes the block.
-/

set_option autoImplicit false

namespace CatalogueSync

/-- The texts of a translatable block. -/
structure Wording where
  singular : Text
  plural : Option Text
  deriving DecidableEq

/-- Reads a singular and an optional plural up to the tag `close`, for a block opened on line
`openedAt`. -/
def readWording (close : Text) (openedAt : Nat) (ts : List Token) :
    Except ParseError (Wording × List Token) :=
  match readBlock [TagName.plural, close] openedAt ts with
  | .error e => .error e
  | .ok (singular, rest) =>
    if singular.close.name = TagName.plural then
      match readBlock [close] openedAt rest with
      | .error e => .error e
      | .ok (plural, rest) => .ok (⟨singular.text, some plural.text⟩, rest)
    else .ok (⟨singular.text, none⟩, rest)

theorem readWording_length_lt {close : Text} {openedAt : Nat} {ts rest : List Token}
    {w : Wording} (h : readWording close openedAt ts = .ok (w, rest)) :
    rest.length < ts.length := by
  unfold readWording at h
  split at h
  · simp at h
  · rename_i hs
    have hlt := readBlock_length_lt hs
    split at h
    · split at h
      · simp at h
      · rename_i hp
        have := readBlock_length_lt hp
        simp only [Except.ok.injEq, Prod.mk.injEq] at h
        rw [← h.2]
        omega
    · simp only [Except.ok.injEq, Prod.mk.injEq] at h
      rw [← h.2]
      exact hlt

end CatalogueSync
