import CatalogueSync.Proofs.Reconciliation.Outcome

/-!
# Reconciling again

Reconciling gives every key of the reference to the new catalogue and every other translated key
to the new unused catalogue, and no key loses its variants on the way (`effective_outcome`).
Reconciling the result with the same reference therefore changes nothing
(`reconcile_reconcile`).
-/

set_option autoImplicit false

namespace CatalogueSync.Reconciliation

open LocaleCatalogue (filledVariants?)

variable {reference : ReferenceCatalogue} {existing unused : LocaleCatalogue}

section parts

theorem lawful_locale_outcome : (outcome reference existing unused).locale.Lawful :=
  Catalogue.lawful_ofList _

theorem lawful_unused_outcome : (outcome reference existing unused).unused.Lawful :=
  Catalogue.lawful_ofList _

theorem entries_locale_outcome (hreference : reference.Lawful) :
    (outcome reference existing unused).locale.entries =
      reference.entries.map (carried existing unused) := by
  apply Catalogue.entries_ofList_of_nodup
  rw [List.map_map]
  exact hreference.nodup

/-- The new catalogue has the keys of the reference, in their order. -/
theorem keys_locale_outcome (hreference : reference.Lawful) :
    (outcome reference existing unused).locale.keys = reference.keys := by
  rw [Catalogue.keys, entries_locale_outcome hreference, List.map_map]
  rfl

/-- The new unused catalogue holds the stale keys that have variants. -/
theorem mem_unusedKeys_iff (hreference : reference.Lawful) (hexisting : existing.Lawful)
    (hunused : unused.Lawful) (key : Text) :
    key ∈ unusedKeys reference existing unused ↔
      key ∉ reference.keys ∧ effective existing unused key ≠ [] := by
  have hempty := isEmpty_effective existing unused key
  rw [← hreference.contains_iff, ← List.isEmpty_eq_false_iff, hempty, unusedKeys,
    List.mem_append, ← List.contains_iff_mem, contains_demotedKeys hexisting, keptKeys,
    List.mem_filter]
  have hmem : (filledVariants? unused key).isSome → key ∈ unused.keys :=
    LocaleCatalogue.mem_keys_of_filledVariants? hunused
  cases reference.contains key <;> cases filledVariants? existing key <;>
    cases hkey : filledVariants? unused key <;> simp_all

theorem nodup_unusedKeys (hexisting : existing.Lawful) (hunused : unused.Lawful) :
    (unusedKeys reference existing unused).Nodup := by
  rw [unusedKeys, List.nodup_append]
  refine ⟨hexisting.nodup.filter _, hunused.nodup.filter _, ?_⟩
  -- a kept key is not translated in the catalogue, and a demoted one is
  rintro key hdemoted _ hkept rfl
  have h := (List.mem_filter.1 hdemoted).2
  have h' := (List.mem_filter.1 hkept).2
  cases hkey : filledVariants? existing key <;> simp_all

theorem entries_unused_outcome (hexisting : existing.Lawful) (hunused : unused.Lawful) :
    (outcome reference existing unused).unused.entries =
      (unusedKeys reference existing unused).map fun k =>
        LocaleEntry.bare k (effective existing unused k) := by
  apply Catalogue.entries_ofList_of_nodup
  rw [List.map_map]
  exact (List.map_id _).symm ▸ nodup_unusedKeys hexisting hunused

theorem keys_unused_outcome (hexisting : existing.Lawful) (hunused : unused.Lawful) :
    (outcome reference existing unused).unused.keys = unusedKeys reference existing unused := by
  rw [Catalogue.keys, entries_unused_outcome hexisting hunused, List.map_map]
  exact List.map_id _

end parts

section filledVariants

/-- Where no variant is blank, the variants that count are all variants. -/
theorem filledVariants?_of_not_isBlank {c : LocaleCatalogue} (hc : c.Lawful) {e : LocaleEntry}
    (he : e ∈ c.entries) (hfilled : ∀ v ∈ e.variants, Text.isBlank v = false) :
    filledVariants? c e.key = if e.variants = [] then none else some e.variants := by
  have hvariants : e.filledVariants = e.variants := by
    apply List.filter_eq_self.2
    intro v hv
    simpa using hfilled v hv
  rw [LocaleCatalogue.filledVariants?_of_mem hc he, hvariants]
  by_cases hnil : e.variants = []
  · simp [LocaleEntry.isTranslated, hnil]
  · obtain ⟨v, hv⟩ := List.exists_mem_of_ne_nil _ hnil
    have htranslated : e.isTranslated = true :=
      List.any_eq_true.2 ⟨v, hv, by simpa using hfilled v hv⟩
    rw [if_pos htranslated, if_neg hnil]

theorem filledVariants?_locale_outcome (hreference : reference.Lawful) {key : Text} :
    filledVariants? (outcome reference existing unused).locale key =
      if key ∈ reference.keys ∧ effective existing unused key ≠ [] then
        some (effective existing unused key) else none := by
  by_cases hmem : key ∈ reference.keys
  · obtain ⟨m, hm, rfl⟩ := List.mem_map.1 hmem
    have he : carried existing unused m ∈ (outcome reference existing unused).locale.entries := by
      rw [entries_locale_outcome hreference]
      exact List.mem_map_of_mem hm
    have h := filledVariants?_of_not_isBlank lawful_locale_outcome he
      fun v hv => not_isBlank_of_mem_effective hv
    rw [Message.keyed_key] at hmem ⊢
    refine h.trans ?_
    by_cases hnil : effective existing unused m.key = [] <;> simp [carried, hnil, hmem]
  · rw [if_neg fun h => hmem h.1]
    apply LocaleCatalogue.filledVariants?_of_not_mem lawful_locale_outcome
    rwa [keys_locale_outcome hreference]

theorem filledVariants?_unused_outcome (hreference : reference.Lawful) (hexisting : existing.Lawful)
    (hunused : unused.Lawful) {key : Text} :
    filledVariants? (outcome reference existing unused).unused key =
      if key ∉ reference.keys ∧ effective existing unused key ≠ [] then
        some (effective existing unused key) else none := by
  have hiff := mem_unusedKeys_iff hreference hexisting hunused key
  by_cases hmem : key ∈ unusedKeys reference existing unused
  · rw [if_pos (hiff.1 hmem)]
    have he : LocaleEntry.bare key (effective existing unused key) ∈
        (outcome reference existing unused).unused.entries := by
      rw [entries_unused_outcome hexisting hunused]
      exact List.mem_map.2 ⟨key, hmem, rfl⟩
    have h := filledVariants?_of_not_isBlank lawful_unused_outcome he
      fun v hv => not_isBlank_of_mem_effective hv
    exact h.trans (if_neg (hiff.1 hmem).2)
  · rw [if_neg fun h => hmem (hiff.2 h)]
    apply LocaleCatalogue.filledVariants?_of_not_mem lawful_unused_outcome
    rwa [keys_unused_outcome hexisting hunused]

end filledVariants

/-- No key loses its variants or gets others. -/
theorem effective_outcome (hreference : reference.Lawful) (hexisting : existing.Lawful)
    (hunused : unused.Lawful) :
    effective (outcome reference existing unused).locale
        (outcome reference existing unused).unused =
      effective existing unused := by
  funext key
  rw [effective, filledVariants?_locale_outcome hreference,
    filledVariants?_unused_outcome hreference hexisting hunused]
  by_cases hmem : key ∈ reference.keys <;>
    by_cases hne : effective existing unused key = [] <;> simp [hmem, hne]

section again

/-- The catalogues and the pending keys depend on the variants that each key has and on the keys
that are kept. -/
theorem outcome_congr {existing' unused' : LocaleCatalogue}
    (heffective : effective existing' unused' = effective existing unused)
    (hkeys : unusedKeys reference existing' unused' = unusedKeys reference existing unused) :
    outcome reference existing' unused' =
      { outcome reference existing unused with
        revived := (outcome reference existing' unused').revived
        demoted := (outcome reference existing' unused').demoted
        discarded := (outcome reference existing' unused').discarded } := by
  have hcarried : carried existing' unused' = carried existing unused := by
    funext m
    rw [carried, heffective]
    rfl
  simp only [outcome, hcarried, heffective, hkeys]

theorem demotedKeys_outcome (hreference : reference.Lawful)
    (existing unused : LocaleCatalogue) :
    demotedKeys reference (outcome reference existing unused).locale = [] := by
  rw [demotedKeys, keys_locale_outcome hreference]
  apply List.filter_eq_nil_iff.2
  intro key hkey
  simp [hreference.contains_iff.2 hkey]

theorem keptKeys_outcome (hreference : reference.Lawful) (hexisting : existing.Lawful)
    (hunused : unused.Lawful) :
    keptKeys reference (outcome reference existing unused).locale
        (outcome reference existing unused).unused =
      unusedKeys reference existing unused := by
  rw [keptKeys, keys_unused_outcome hexisting hunused]
  apply List.filter_eq_self.2
  intro key hkey
  obtain ⟨hnot, hne⟩ := (mem_unusedKeys_iff hreference hexisting hunused key).1 hkey
  have hstale : reference.contains key = false := by
    rwa [← Bool.not_eq_true, hreference.contains_iff]
  simp [filledVariants?_locale_outcome hreference,
    filledVariants?_unused_outcome hreference hexisting hunused, hnot, hne, hstale]

theorem revived_outcome (hreference : reference.Lawful) (hexisting : existing.Lawful)
    (hunused : unused.Lawful) :
    (outcome reference (outcome reference existing unused).locale
      (outcome reference existing unused).unused).revived = [] := by
  apply List.filter_eq_nil_iff.2
  intro key hkey
  simp [filledVariants?_unused_outcome hreference hexisting hunused, hkey]

theorem discarded_outcome (hreference : reference.Lawful) (hexisting : existing.Lawful)
    (hunused : unused.Lawful) :
    (outcome reference (outcome reference existing unused).locale
      (outcome reference existing unused).unused).discarded = [] := by
  apply List.append_eq_nil_iff.2
  rw [discardedKeys, discardedUnusedKeys, keys_locale_outcome hreference,
    keys_unused_outcome hexisting hunused, effective_outcome hreference hexisting hunused]
  constructor
  · apply List.filter_eq_nil_iff.2
    intro key hkey
    simp [hreference.contains_iff.2 hkey]
  · apply List.filter_eq_nil_iff.2
    intro key hkey
    have hne := ((mem_unusedKeys_iff hreference hexisting hunused key).1 hkey).2
    simp [hne]

/-- Reconciling the result with the same reference changes nothing, and no key moves. -/
theorem reconcile_reconcile (hreference : reference.Lawful) (hexisting : existing.Lawful)
    (hunused : unused.Lawful) :
    reconcile reference (reconcile reference existing unused).locale
        (reconcile reference existing unused).unused =
      { reconcile reference existing unused with
        revived := []
        demoted := []
        discarded := [] } := by
  rw [reconcile_eq_outcome hexisting hunused,
    reconcile_eq_outcome lawful_locale_outcome lawful_unused_outcome]
  have hdemoted := demotedKeys_outcome hreference existing unused
  have hkeys : unusedKeys reference (outcome reference existing unused).locale
      (outcome reference existing unused).unused = unusedKeys reference existing unused := by
    rw [unusedKeys, hdemoted, keptKeys_outcome hreference hexisting hunused, List.nil_append]
  rw [outcome_congr (effective_outcome hreference hexisting hunused) hkeys,
    revived_outcome hreference hexisting hunused, discarded_outcome hreference hexisting hunused]
  exact congrArg (fun keys => { outcome reference existing unused with
    revived := [], demoted := keys, discarded := [] }) hdemoted

end again

end CatalogueSync.Reconciliation
