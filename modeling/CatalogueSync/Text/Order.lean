import CatalogueSync.Text.Basic
import Std.Data.TreeMap

/-!
# The order of texts

Names are ordered by their characters' code points, which is also the order of their bytes in
UTF-8. Lists of names are ordered name by name. Both orders are total and separate different
texts.
-/

set_option autoImplicit false

namespace CatalogueSync.Text

/-- Characters in the order of their code points. -/
def compareChars (a b : Char) : Ordering :=
  if a.toNat < b.toNat then .lt else if a = b then .eq else .gt

/-- Texts in the order of their characters, a text before its extensions. -/
def compare : Text → Text → Ordering :=
  List.compareLex compareChars

/-- Lists of texts, text by text, a list before its extensions. -/
def compareAll : List Text → List Text → Ordering :=
  List.compareLex compare

instance : Std.LawfulEqCmp compareChars where
  compare_self := by
    intro a
    simp [compareChars]
  eq_of_compare := by
    intro a b h
    unfold compareChars at h
    split at h <;> simp_all

instance : Std.TransCmp compareChars where
  eq_swap := by
    intro a b
    have h : a.toNat = b.toNat ↔ a = b := Char.toNat_inj
    unfold compareChars
    grind [Ordering.swap]
  isLE_trans := by
    intro a b c
    have h₁ : a.toNat = b.toNat ↔ a = b := Char.toNat_inj
    have h₂ : b.toNat = c.toNat ↔ b = c := Char.toNat_inj
    have h₃ : a.toNat = c.toNat ↔ a = c := Char.toNat_inj
    unfold compareChars
    grind [Ordering.isLE]

instance : Std.TransCmp compare :=
  inferInstanceAs (Std.TransCmp (List.compareLex compareChars))

instance : Std.LawfulEqCmp compare :=
  inferInstanceAs (Std.LawfulEqCmp (List.compareLex compareChars))

instance : Std.TransCmp compareAll :=
  inferInstanceAs (Std.TransCmp (List.compareLex compare))

instance : Std.LawfulEqCmp compareAll :=
  inferInstanceAs (Std.LawfulEqCmp (List.compareLex compare))

end CatalogueSync.Text
