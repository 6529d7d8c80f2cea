import CatalogueSync.Proofs.Reconciliation.Fixpoint
import Mathlib.Data.List.Perm.Basic

/-!
# Reconciling with one reference after the other

When the reference changes, a locale is reconciled again with what the last reference left. No key
loses its variants, however many references there are (`effective_history`), and they and the last
reference decide what is left: the references before it have no part in it
(`history_eq_reconcile`).
-/

set_option autoImplicit false

namespace CatalogueSync

theorem Catalogue.get?_eq_of_perm {ε : Type} [Keyed ε] {c d : Catalogue ε} (hc : c.Lawful)
    (hd : d.Lawful) (h : c.entries.Perm d.entries) (key : Text) : c.get? key = d.get? key := by
  apply Option.ext
  intro e
  rw [hc.get?_eq_some_iff, hd.get?_eq_some_iff, h.mem_iff]

namespace Reconciliation

/-- Reconciles a locale with references, each time with the catalogues that are left by the one
before. -/
def history (existing unused : LocaleCatalogue) (references : List ReferenceCatalogue) :
    Reconciliation :=
  references.foldl (fun r reference => reconcile reference r.locale r.unused)
    { empty with locale := existing, unused := unused }

variable {reference : ReferenceCatalogue} {existing unused : LocaleCatalogue}

theorem history_concat (references : List ReferenceCatalogue) (reference : ReferenceCatalogue) :
    history existing unused (references ++ [reference]) =
      reconcile reference (history existing unused references).locale
        (history existing unused references).unused := by
  simp [history]

theorem lawful_history (hexisting : existing.Lawful) (hunused : unused.Lawful)
    (references : List ReferenceCatalogue) :
    (history existing unused references).locale.Lawful ∧
      (history existing unused references).unused.Lawful := by
  induction references using List.reverseRecOn with
  | nil => exact ⟨hexisting, hunused⟩
  | append_singleton references reference ih =>
    rw [history_concat, reconcile_eq_outcome ih.1 ih.2]
    exact ⟨lawful_locale_outcome, lawful_unused_outcome⟩

theorem effective_history (hexisting : existing.Lawful) (hunused : unused.Lawful)
    {references : List ReferenceCatalogue} (h : ∀ reference ∈ references, reference.Lawful) :
    effective (history existing unused references).locale
        (history existing unused references).unused =
      effective existing unused := by
  induction references using List.reverseRecOn with
  | nil => rfl
  | append_singleton references reference ih =>
    obtain ⟨hlocale, hunused'⟩ := lawful_history hexisting hunused references
    have hbefore : ∀ r ∈ references, r.Lawful := by
      intro r hr
      exact h r (List.mem_append_left _ hr)
    have hreference : reference.Lawful := h reference (by simp)
    rw [history_concat, reconcile_eq_outcome hlocale hunused',
      effective_outcome hreference hlocale hunused', ih hbefore]

section last

variable {existing' unused' : LocaleCatalogue}

theorem unusedKeys_perm (hreference : reference.Lawful) (hexisting : existing.Lawful)
    (hunused : unused.Lawful) (hexisting' : existing'.Lawful) (hunused' : unused'.Lawful)
    (h : effective existing' unused' = effective existing unused) :
    (unusedKeys reference existing' unused').Perm (unusedKeys reference existing unused) := by
  apply (List.perm_ext_iff_of_nodup (nodup_unusedKeys hexisting' hunused')
    (nodup_unusedKeys hexisting hunused)).2
  intro key
  rw [mem_unusedKeys_iff hreference hexisting' hunused', mem_unusedKeys_iff hreference hexisting
    hunused, h]

/-- What is left depends on the variants that each key has, wherever they are stored, but for the
order of the unused catalogue. -/
theorem outcome_eq_of_effective (hreference : reference.Lawful) (hexisting : existing.Lawful)
    (hunused : unused.Lawful) (hexisting' : existing'.Lawful) (hunused' : unused'.Lawful)
    (h : effective existing' unused' = effective existing unused) :
    (outcome reference existing' unused').locale = (outcome reference existing unused).locale ∧
      (outcome reference existing' unused').pending =
        (outcome reference existing unused).pending ∧
      (outcome reference existing' unused').unused.entries.Perm
        (outcome reference existing unused).unused.entries := by
  have hcarried : carried existing' unused' = carried existing unused := by
    funext m
    simp only [carried, h]
  refine ⟨?_, ?_, ?_⟩
  · simp only [outcome, hcarried]
  · simp only [outcome, h]
  · rw [entries_unused_outcome hexisting' hunused', entries_unused_outcome hexisting hunused, h]
    exact (unusedKeys_perm hreference hexisting hunused hexisting' hunused' h).map _

end last

section variants

/-- A message of the reference has all its variants in the new catalogue. -/
theorem variants_get?_outcome (hreference : reference.Lawful) {key : Text}
    (hkey : key ∈ reference.keys) :
    ((outcome reference existing unused).locale.get? key).map LocaleEntry.variants =
      some (effective existing unused key) := by
  obtain ⟨m, hm, rfl⟩ := List.mem_map.1 hkey
  have he : carried existing unused m ∈ (outcome reference existing unused).locale.entries := by
    rw [entries_locale_outcome hreference]
    exact List.mem_map_of_mem hm
  have hget := lawful_locale_outcome.get?_eq_some_iff.2 ⟨he, rfl⟩
  show ((outcome reference existing unused).locale.get? (Keyed.key (carried existing unused m))).map
    _ = _
  rw [hget]
  rfl

/-- Reconciling leaves no blank variants. -/
theorem filledVariants_of_mem_locale_outcome (hreference : reference.Lawful) {e : LocaleEntry}
    (he : e ∈ (outcome reference existing unused).locale.entries) :
    e.filledVariants = e.variants := by
  rw [entries_locale_outcome hreference] at he
  obtain ⟨m, -, rfl⟩ := List.mem_map.1 he
  apply List.filter_eq_self.2
  intro v hv
  simpa using not_isBlank_of_mem_effective hv

theorem effective_of_get? (hexisting : existing.Lawful) {key : Text} {e : LocaleEntry}
    (he : existing.get? key = some e) (htranslated : e.isTranslated) :
    effective existing unused key = e.filledVariants := by
  obtain ⟨hmem, rfl⟩ := hexisting.get?_eq_some_iff.1 he
  apply effective_of_eq_some
  rw [LocaleEntry.keyed_key, LocaleCatalogue.filledVariants?_of_mem hexisting hmem,
    if_pos htranslated]

end variants

/-- The references before the last one have no part in what is left. A message that is translated
at any point of the history has its variants back when the last reference asks for it. -/
theorem history_eq_reconcile (hexisting : existing.Lawful) (hunused : unused.Lawful)
    {past : List ReferenceCatalogue} {last : ReferenceCatalogue}
    (hpast : ∀ reference ∈ past, reference.Lawful) (hlast : last.Lawful) :
    let r := history existing unused (past ++ [last])
    let once := reconcile last existing unused
    (r.locale = once.locale ∧ r.pending = once.pending ∧
        r.translatedCount = once.translatedCount) ∧
      (r.unused.entries.Perm once.unused.entries ∧
        ∀ key, r.unused.get? key = once.unused.get? key) ∧
      ∀ earlier, earlier <+: past → ∀ key ∈ last.keys, ∀ e,
        (history existing unused earlier).locale.get? key = some e → e.isTranslated →
          (r.locale.get? key).map LocaleEntry.variants = some e.filledVariants ∧
            (earlier ≠ [] → e.filledVariants = e.variants) := by
  obtain ⟨hlocale, hunused'⟩ := lawful_history hexisting hunused past
  have heffective := effective_history hexisting hunused hpast
  obtain ⟨hlocaleEq, hpendingEq, hperm⟩ :=
    outcome_eq_of_effective hlast hexisting hunused hlocale hunused' heffective
  intro r once
  have hr : r = outcome last _ _ := (history_concat past last).trans
    (reconcile_eq_outcome hlocale hunused')
  have honce : once = outcome last existing unused := reconcile_eq_outcome hexisting hunused
  rw [hr, honce]
  refine ⟨⟨hlocaleEq, hpendingEq, ?_⟩, ⟨hperm, ?_⟩, ?_⟩
  · rw [translatedCount, translatedCount, hlocaleEq, hpendingEq]
  · exact Catalogue.get?_eq_of_perm lawful_unused_outcome lawful_unused_outcome hperm
  · intro earlier hbegin key hkey e he htranslated
    have hearlier : ∀ reference ∈ earlier, reference.Lawful := by
      intro reference hmem
      exact hpast reference (hbegin.subset hmem)
    have hlawful := (lawful_history hexisting hunused earlier).1
    refine ⟨?_, ?_⟩
    · rw [variants_get?_outcome hlast hkey, heffective,
        ← effective_history hexisting hunused hearlier, effective_of_get? hlawful he htranslated]
    · intro hne
      obtain ⟨start, reference, rfl⟩ : ∃ start reference, earlier = start ++ [reference] :=
        ⟨_, _, (List.dropLast_concat_getLast hne).symm⟩
      obtain ⟨hstart, hstart'⟩ := lawful_history hexisting hunused start
      have hmem := (hlawful.get?_eq_some_iff.1 he).1
      rw [history_concat, reconcile_eq_outcome hstart hstart'] at hmem
      exact filledVariants_of_mem_locale_outcome (hearlier reference (by simp)) hmem

/-- A message that is missing from two references in a row, and translated before them. -/
theorem history_eq_reconcile_restored :
    let m : Message := ⟨"a".toList, [], none, none⟩
    let r := history (Catalogue.ofList [.bare "a".toList ["x".toList, " ".toList]]) Catalogue.empty
      ([.ofList [m], .empty, .empty] ++ [.ofList [m]])
    (r.locale.get? "a".toList).map LocaleEntry.variants = some ["x".toList] :=
  (((history_eq_reconcile (Catalogue.lawful_ofList _) Catalogue.lawful_empty
    (by simp [Catalogue.lawful_ofList, Catalogue.lawful_empty]) (Catalogue.lawful_ofList _)).2.2
    [.ofList [⟨"a".toList, [], none, none⟩]] ⟨_, rfl⟩ "a".toList (by decide +kernel)
    (LocaleEntry.bare "a".toList ["x".toList]) (by decide +kernel) (by decide +kernel)).1).trans
    (by decide +kernel)

end Reconciliation

end CatalogueSync
