import CatalogueSync.Text.Basic
import Mathlib.Data.List.DropRight
import Mathlib.Data.List.TakeWhile

/-!
# Trimming

Whitespace around a text is invisible to trimming (`trim_surround`), a text is its trimmed form
with some whitespace around it (`exists_surround`), and the texts that trimming leaves alone are
those that neither start nor end with whitespace (`trim_eq_self_iff`).
-/

set_option autoImplicit false

namespace CatalogueSync.Text

theorem isBlank_iff {s : Text} : isBlank s = true ↔ ∀ c ∈ s, isSpace c = true :=
  List.all_eq_true

/-- Trimming the start passes over leading whitespace. -/
theorem trimStart_append_of_isBlank {w : Text} (hw : isBlank w = true) (s : Text) :
    trimStart (w ++ s) = trimStart s :=
  List.dropWhile_append_of_pos (isBlank_iff.1 hw)

/-- Trimming the end passes over trailing whitespace. -/
theorem trimEnd_append_of_isBlank {w : Text} (hw : isBlank w = true) (s : Text) :
    trimEnd (s ++ w) = trimEnd s := by
  unfold trimEnd
  rw [List.reverse_append, List.dropWhile_append_of_pos]
  intro c hc
  exact isBlank_iff.1 hw c (List.mem_reverse.1 hc)

theorem trimStart_eq_nil_iff {s : Text} : trimStart s = [] ↔ isBlank s = true := by
  rw [isBlank_iff, trimStart, List.dropWhile_eq_nil_iff]

theorem trim_append_of_isBlank {w : Text} (hw : isBlank w = true) (s : Text) :
    trim (s ++ w) = trim s := by
  unfold trim
  by_cases hs : trimStart s = []
  · have hb : isBlank (s ++ w) = true := by
      simp only [isBlank, List.all_append, Bool.and_eq_true]
      exact ⟨trimStart_eq_nil_iff.1 hs, hw⟩
    rw [trimStart_eq_nil_iff.2 hb, hs]
  · have happ : trimStart (s ++ w) = trimStart s ++ w := by
      unfold trimStart at hs ⊢
      rw [List.dropWhile_append, if_neg]
      simpa using hs
    rw [happ, trimEnd_append_of_isBlank hw]

/-- Trimming does not see whitespace that stands around a text. -/
theorem trim_surround {w w' : Text} (hw : isBlank w = true) (hw' : isBlank w' = true)
    (s : Text) : trim (w ++ s ++ w') = trim s := by
  rw [trim_append_of_isBlank hw']
  unfold trim
  rw [trimStart_append_of_isBlank hw]

/-- Trimming the end stops at a text whose last character is not whitespace. -/
theorem trimEnd_append {s t : Text} (hs : trimEnd s = s) : trimEnd (s ++ t) = s ++ trimEnd t := by
  unfold trimEnd at hs ⊢
  rw [List.reverse_append, List.dropWhile_append]
  split
  · rename_i h
    rw [List.isEmpty_iff.1 h, hs]
    simp
  · rw [List.reverse_append, List.reverse_reverse]

/-- A text is its trimmed form with some whitespace around it. -/
theorem exists_surround (s : Text) :
    ∃ w w', isBlank w = true ∧ isBlank w' = true ∧ s = w ++ trim s ++ w' := by
  refine ⟨s.takeWhile isSpace, (trimStart s).rtakeWhile isSpace, ?_, ?_, ?_⟩
  · exact List.all_takeWhile
  · exact isBlank_iff.2 fun c hc => List.mem_rtakeWhile_imp hc
  · have hend : trim s ++ (trimStart s).rtakeWhile isSpace = trimStart s :=
      List.rdropWhile_append_rtakeWhile
    rw [List.append_assoc, hend]
    exact List.takeWhile_append_dropWhile.symm

@[simp]
theorem trim_trim (s : Text) : trim (trim s) = trim s := by
  obtain ⟨w, w', hw, hw', hs⟩ := exists_surround s
  have h := trim_surround hw hw' (trim s)
  rw [← hs] at h
  exact h.symm

theorem trim_eq_nil_iff {s : Text} : trim s = [] ↔ isBlank s = true := by
  constructor
  · intro h
    obtain ⟨w, w', hw, hw', hs⟩ := exists_surround s
    rw [hs, h]
    simp only [isBlank, List.append_nil, List.all_append, Bool.and_eq_true]
    exact ⟨hw, hw'⟩
  · intro h
    rw [trim, trimStart_eq_nil_iff.2 h]
    rfl

theorem trimStart_eq_self_iff {s : Text} :
    trimStart s = s ↔ ∀ c ∈ s.head?, isSpace c = false := by
  cases s with
  | nil => simp
  | cons c cs =>
    have hlen := trimStart_length_le cs
    by_cases hc : isSpace c = true
    · have hne : trimStart (c :: cs) ≠ c :: cs := by
        intro h
        have hd : trimStart (c :: cs) = trimStart cs := List.dropWhile_cons_of_pos hc
        rw [hd] at h
        rw [h, List.length_cons] at hlen
        omega
      simp [hne, hc]
    · have hd : trimStart (c :: cs) = c :: cs := List.dropWhile_cons_of_neg hc
      simpa [hd] using hc

theorem trimEnd_eq_self_iff {s : Text} :
    trimEnd s = s ↔ ∀ c ∈ s.getLast?, isSpace c = false := by
  rw [← List.head?_reverse, ← trimStart_eq_self_iff, trimEnd, List.reverse_eq_iff]
  rfl

/-- Trimming leaves a text alone when it neither starts nor ends with whitespace. -/
theorem trim_eq_self_iff {s : Text} : trim s = s ↔ trimStart s = s ∧ trimEnd s = s := by
  constructor
  · intro h
    have hle : (trim s).length ≤ (trimStart s).length :=
      (List.rdropWhile_prefix isSpace (trimStart s)).length_le
    have hlen : (trimStart s).length = s.length := by
      rw [h] at hle
      exact Nat.le_antisymm (trimStart_length_le s) hle
    have hstart : trimStart s = s := (List.dropWhile_suffix isSpace).eq_of_length hlen
    refine ⟨hstart, ?_⟩
    rwa [trim, hstart] at h
  · rintro ⟨hstart, hend⟩
    rw [trim, hstart, hend]

end CatalogueSync.Text
