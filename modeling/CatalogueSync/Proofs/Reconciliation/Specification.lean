import CatalogueSync.Proofs.Reconciliation.Fixpoint

/-!
# What reconciling is meant to give

`Reconciliation.Specified` states for every part of a reconciliation what is in it and in which
order, in terms of the keys of the three catalogues and of the variants that a key has in the
locale. It says nothing of the walks and of what they have settled so far. Exactly one
reconciliation is specified, and it is the one that reconciling gives (`eq_reconcile_iff`).
-/

set_option autoImplicit false

namespace CatalogueSync

namespace LocaleCatalogue

/-- The variants stored under a key that are not blank. -/
def filled (c : LocaleCatalogue) (key : Text) : List Text :=
  ((c.get? key).map LocaleEntry.filledVariants).getD []

theorem filledVariants?_eq_filled (c : LocaleCatalogue) (key : Text) :
    c.filledVariants? key = if c.filled key = [] then none else some (c.filled key) := by
  rw [filledVariants?, filled]
  cases c.get? key with
  | none => rfl
  | some e =>
    have htranslated : e.isTranslated = true ↔ e.filledVariants ≠ [] := by
      rw [LocaleEntry.isTranslated, LocaleEntry.filledVariants, List.any_eq_true, ne_eq,
        List.filter_eq_nil_iff]
      push Not
      rfl
    by_cases hnil : e.filledVariants = []
    · simp [hnil, htranslated]
    · simp [hnil, htranslated]

theorem isSome_filledVariants? (c : LocaleCatalogue) (key : Text) :
    (c.filledVariants? key).isSome = decide (c.filled key ≠ []) := by
  rw [filledVariants?_eq_filled]
  by_cases hnil : c.filled key = [] <;> simp [hnil]

theorem isNone_filledVariants? (c : LocaleCatalogue) (key : Text) :
    (c.filledVariants? key).isNone = decide (c.filled key = []) := by
  rw [filledVariants?_eq_filled]
  by_cases hnil : c.filled key = [] <;> simp [hnil]

theorem any_isTranslated_get? (c : LocaleCatalogue) (key : Text) :
    (c.get? key).any LocaleEntry.isTranslated = (c.filledVariants? key).isSome := by
  rw [filledVariants?]
  cases c.get? key with
  | none => rfl
  | some e => cases htranslated : e.isTranslated <;> simp [htranslated]

end LocaleCatalogue

namespace Reconciliation

/-- The variants of a key that count in a locale: those that are not blank in the catalogue, or,
if it has none, in the unused catalogue. -/
def resolved (existing unused : LocaleCatalogue) (key : Text) : List Text :=
  if existing.filled key = [] then unused.filled key else existing.filled key

theorem effective_eq_resolved (existing unused : LocaleCatalogue) :
    effective existing unused = resolved existing unused := by
  funext key
  rw [effective, resolved, LocaleCatalogue.filledVariants?_eq_filled,
    LocaleCatalogue.filledVariants?_eq_filled]
  by_cases hexisting : existing.filled key = []
  · by_cases hunused : unused.filled key = [] <;> simp [hexisting, hunused]
  · simp [hexisting]

/-- What reconciling is meant to give. The first fields determine it, the others say that no key
is lost, kept twice or counted wrongly. -/
structure Specified (reference : ReferenceCatalogue) (existing unused : LocaleCatalogue)
    (r : Reconciliation) : Prop where
  lawful_locale : r.locale.Lawful
  entries_locale : r.locale.entries =
    reference.entries.map fun m => { m with variants := resolved existing unused m.key }
  lawful_unused : r.unused.Lawful
  /-- The stale keys that the catalogue translates come first, then those that only the unused
  catalogue translates. -/
  entries_unused : r.unused.entries =
    (existing.keys.filter (fun k => k ∉ reference.keys ∧ existing.filled k ≠ []) ++
      unused.keys.filter fun k =>
        k ∉ reference.keys ∧ existing.filled k = [] ∧ unused.filled k ≠ []).map fun k =>
          LocaleEntry.bare k (resolved existing unused k)
  pending_eq : r.pending = reference.keys.filter fun k => resolved existing unused k = []
  revived_eq : r.revived =
    reference.keys.filter fun k => existing.filled k = [] ∧ unused.filled k ≠ []
  demoted_eq : r.demoted =
    existing.keys.filter fun k => k ∉ reference.keys ∧ existing.filled k ≠ []
  discarded_eq : r.discarded =
    existing.keys.filter (fun k => k ∉ reference.keys ∧ resolved existing unused k = []) ++
      unused.keys.filter fun k =>
        k ∉ reference.keys ∧ k ∉ existing.keys ∧ resolved existing unused k = []
  nodup : r.pending.Nodup ∧ r.revived.Nodup ∧ r.demoted.Nodup ∧ r.discarded.Nodup
  /-- Every key is in one of the two catalogues or discarded. -/
  accounted : ∀ key, key ∈ r.locale.keys ++ r.unused.keys ++ r.discarded ↔
    key ∈ reference.keys ∨ key ∈ existing.keys ∨ key ∈ unused.keys
  accounted_once : (r.locale.keys ++ r.unused.keys ++ r.discarded).Nodup
  disjoint : ∀ key ∈ r.locale.keys, key ∉ r.unused.keys
  pending_le_size : r.pending.length ≤ r.locale.size
  translatedCount_eq : r.translatedCount =
    reference.keys.countP fun k => resolved existing unused k ≠ []

variable {reference : ReferenceCatalogue} {existing unused : LocaleCatalogue}

section outcome

theorem contains_eq_decide {ε : Type} [Keyed ε] {c : Catalogue ε} (hc : c.Lawful) (key : Text) :
    c.contains key = decide (key ∈ c.keys) := by
  rw [Bool.eq_iff_iff, hc.contains_iff, decide_eq_true_iff]

theorem isEmpty_effective_eq_decide (key : Text) :
    (effective existing unused key).isEmpty = decide (resolved existing unused key = []) := by
  rw [effective_eq_resolved, Bool.eq_iff_iff, List.isEmpty_iff, decide_eq_true_iff]

theorem demotedKeys_eq (hreference : reference.Lawful) :
    demotedKeys reference existing =
      existing.keys.filter fun k => k ∉ reference.keys ∧ existing.filled k ≠ [] := by
  apply List.filter_congr
  intro k _
  simp [contains_eq_decide hreference, LocaleCatalogue.isSome_filledVariants?]

theorem keptKeys_eq (hreference : reference.Lawful) :
    keptKeys reference existing unused = unused.keys.filter fun k =>
      k ∉ reference.keys ∧ existing.filled k = [] ∧ unused.filled k ≠ [] := by
  apply List.filter_congr
  intro k _
  simp [contains_eq_decide hreference, LocaleCatalogue.isSome_filledVariants?,
    LocaleCatalogue.isNone_filledVariants?, Bool.and_assoc]

theorem discardedKeys_eq (hreference : reference.Lawful) :
    discardedKeys reference existing unused =
      existing.keys.filter fun k => k ∉ reference.keys ∧ resolved existing unused k = [] := by
  apply List.filter_congr
  intro k _
  rw [isEmpty_effective_eq_decide]
  simp [contains_eq_decide hreference]

theorem discardedUnusedKeys_eq (hreference : reference.Lawful) (hexisting : existing.Lawful) :
    discardedUnusedKeys reference existing unused = unused.keys.filter fun k =>
      k ∉ reference.keys ∧ k ∉ existing.keys ∧ resolved existing unused k = [] := by
  apply List.filter_congr
  intro k _
  rw [isEmpty_effective_eq_decide]
  simp [contains_eq_decide hreference, contains_eq_decide hexisting, Bool.and_assoc]

theorem pending_outcome :
    (outcome reference existing unused).pending =
      reference.keys.filter fun k => resolved existing unused k = [] := by
  apply List.filter_congr
  intro k _
  exact isEmpty_effective_eq_decide k

theorem revived_eq_filter :
    (outcome reference existing unused).revived =
      reference.keys.filter fun k => existing.filled k = [] ∧ unused.filled k ≠ [] := by
  apply List.filter_congr
  intro k _
  simp [LocaleCatalogue.isSome_filledVariants?, LocaleCatalogue.isNone_filledVariants?]

/-- The discarded keys are the stale keys without variants. -/
theorem mem_discarded_outcome (hreference : reference.Lawful) (hexisting : existing.Lawful)
    (key : Text) :
    key ∈ (outcome reference existing unused).discarded ↔
      key ∉ reference.keys ∧ (key ∈ existing.keys ∨ key ∈ unused.keys) ∧
        resolved existing unused key = [] := by
  show key ∈ discardedKeys reference existing unused ++ discardedUnusedKeys _ _ _ ↔ _
  rw [discardedKeys_eq hreference, discardedUnusedKeys_eq hreference hexisting, List.mem_append,
    List.mem_filter, List.mem_filter, decide_eq_true_iff, decide_eq_true_iff]
  by_cases hmem : key ∈ existing.keys <;> simp [hmem, and_left_comm]

theorem nodup_discarded_outcome (hreference : reference.Lawful) (hexisting : existing.Lawful)
    (hunused : unused.Lawful) : (outcome reference existing unused).discarded.Nodup := by
  show (discardedKeys reference existing unused ++ discardedUnusedKeys _ _ _).Nodup
  rw [discardedUnusedKeys_eq hreference hexisting, List.nodup_append]
  refine ⟨hexisting.nodup.filter _, hunused.nodup.filter _, ?_⟩
  -- the keys that come from the unused catalogue are not in the other one
  rintro key hkey _ hkey' rfl
  have hnot := (List.mem_filter.1 hkey').2
  rw [decide_eq_true_iff] at hnot
  exact hnot.2.1 (List.mem_of_mem_filter hkey)

/-- Every key of the new unused catalogue comes from one of the old catalogues. -/
theorem mem_keys_of_mem_unusedKeys {key : Text} (h : key ∈ unusedKeys reference existing unused) :
    key ∈ existing.keys ∨ key ∈ unused.keys := by
  rcases List.mem_append.1 h with h | h
  · exact .inl (List.mem_of_mem_filter h)
  · exact .inr (List.mem_of_mem_filter h)

/-- The messages of the reference are translated or pending. -/
theorem size_locale_outcome (hreference : reference.Lawful) :
    (outcome reference existing unused).locale.size =
      (reference.keys.countP fun k => resolved existing unused k ≠ []) +
        (outcome reference existing unused).pending.length := by
  have hsize : (outcome reference existing unused).locale.size = reference.keys.length := by
    rw [← keys_locale_outcome hreference, Catalogue.keys, List.length_map]
    rfl
  rw [hsize, pending_outcome, ← List.countP_eq_length_filter,
    List.length_eq_countP_add_countP fun k => decide (resolved existing unused k ≠ [])]
  congr 1
  apply List.countP_congr
  intro k _
  simp

theorem specified_outcome (hreference : reference.Lawful) (hexisting : existing.Lawful)
    (hunused : unused.Lawful) :
    (outcome reference existing unused).Specified reference existing unused := by
  have hlocaleKeys : (outcome reference existing unused).locale.keys = reference.keys :=
    keys_locale_outcome hreference
  have hunusedKeys : (outcome reference existing unused).unused.keys =
      unusedKeys reference existing unused := keys_unused_outcome hexisting hunused
  have hmemUnused := mem_unusedKeys_iff hreference hexisting hunused
  have hmemDiscarded : ∀ key, key ∈ (outcome reference existing unused).discarded ↔ _ :=
    mem_discarded_outcome hreference hexisting
  have hnodup := nodup_discarded_outcome hreference hexisting hunused
  have hsize : (outcome reference existing unused).locale.size = _ + _ :=
    size_locale_outcome hreference
  rw [effective_eq_resolved] at hmemUnused
  constructor
  case lawful_locale => exact lawful_locale_outcome
  case lawful_unused => exact lawful_unused_outcome
  case pending_eq => exact pending_outcome
  case revived_eq => exact revived_eq_filter
  case demoted_eq => exact demotedKeys_eq hreference
  case entries_locale =>
    rw [entries_locale_outcome hreference, ← effective_eq_resolved]
    rfl
  case entries_unused =>
    rw [entries_unused_outcome hexisting hunused, unusedKeys, demotedKeys_eq hreference,
      keptKeys_eq hreference, effective_eq_resolved]
  case discarded_eq =>
    show discardedKeys reference existing unused ++ discardedUnusedKeys _ _ _ = _
    rw [discardedKeys_eq hreference, discardedUnusedKeys_eq hreference hexisting]
  case nodup =>
    exact ⟨hreference.nodup.filter _, hreference.nodup.filter _, hexisting.nodup.filter _, hnodup⟩
  case accounted =>
    intro key
    rw [hlocaleKeys, hunusedKeys, List.mem_append, List.mem_append, hmemDiscarded]
    constructor
    · rintro ((hkey | hkey) | ⟨-, hkey, -⟩)
      · exact .inl hkey
      · exact .inr (mem_keys_of_mem_unusedKeys hkey)
      · exact .inr hkey
    · intro hkey
      by_cases href : key ∈ reference.keys
      · exact .inl (.inl href)
      · by_cases hnil : resolved existing unused key = []
        · exact .inr ⟨href, hkey.resolve_left href, hnil⟩
        · exact .inl (.inr ((hmemUnused key).2 ⟨href, hnil⟩))
  case accounted_once =>
    rw [hlocaleKeys, hunusedKeys, List.append_assoc, List.nodup_append, List.nodup_append]
    refine ⟨hreference.nodup, ⟨nodup_unusedKeys hexisting hunused, hnodup, ?_⟩, ?_⟩
    · rintro key hkey _ hkey' rfl
      exact ((hmemUnused key).1 hkey).2 ((hmemDiscarded key).1 hkey').2.2
    · rintro key hkey _ hkey' rfl
      rcases List.mem_append.1 hkey' with hkey' | hkey'
      · exact ((hmemUnused key).1 hkey').1 hkey
      · exact ((hmemDiscarded key).1 hkey').1 hkey
  case disjoint =>
    rw [hlocaleKeys, hunusedKeys]
    intro key hkey hkey'
    exact ((hmemUnused key).1 hkey').1 hkey
  case pending_le_size => omega
  case translatedCount_eq =>
    rw [Reconciliation.translatedCount]
    omega

/-- The messages that count as translated are those that the new catalogue translates. -/
theorem countP_isTranslated (hreference : reference.Lawful) (hexisting : existing.Lawful)
    (hunused : unused.Lawful) :
    (reference.keys.countP fun k =>
      ((reconcile reference existing unused).locale.get? k).any LocaleEntry.isTranslated) =
        (reconcile reference existing unused).translatedCount := by
  rw [reconcile_eq_outcome hexisting hunused,
    (specified_outcome hreference hexisting hunused).translatedCount_eq]
  apply List.countP_congr
  intro k hk
  rw [LocaleCatalogue.any_isTranslated_get?, filledVariants?_locale_outcome hreference,
    effective_eq_resolved]
  by_cases hnil : resolved existing unused k = [] <;> simp [hk, hnil]

end outcome

/-- Reconciling gives what is specified, and nothing else is. -/
theorem eq_reconcile_iff (hreference : reference.Lawful) (hexisting : existing.Lawful)
    (hunused : unused.Lawful) (r : Reconciliation) :
    r = reconcile reference existing unused ↔ r.Specified reference existing unused := by
  have hspecified : (reconcile reference existing unused).Specified reference existing unused := by
    rw [reconcile_eq_outcome hexisting hunused]
    exact specified_outcome hreference hexisting hunused
  constructor
  · rintro rfl
    exact hspecified
  · intro h
    have hlocale : r.locale = (reconcile reference existing unused).locale :=
      h.lawful_locale.ext hspecified.lawful_locale
        (h.entries_locale.trans hspecified.entries_locale.symm)
    have hunusedCatalogue : r.unused = (reconcile reference existing unused).unused :=
      h.lawful_unused.ext hspecified.lawful_unused
        (h.entries_unused.trans hspecified.entries_unused.symm)
    have hpending := h.pending_eq.trans hspecified.pending_eq.symm
    have hrevived := h.revived_eq.trans hspecified.revived_eq.symm
    have hdemoted := h.demoted_eq.trans hspecified.demoted_eq.symm
    have hdiscarded := h.discarded_eq.trans hspecified.discarded_eq.symm
    cases r
    simp_all

/-- A blank entry of the catalogue hides no variants of the unused catalogue, be its key stale or
not. -/
theorem eq_reconcile_iff_blank_entries :
    ∃ r : Reconciliation, r.Specified (Catalogue.ofList [⟨"a".toList, [], none, none⟩])
        (Catalogue.ofList [.bare "a".toList [" ".toList], .bare "b".toList [" ".toList],
          .bare "c".toList []])
        (Catalogue.ofList [.bare "a".toList ["x".toList, []], .bare "b".toList ["y".toList]]) ∧
      r.revived = ["a".toList] ∧ r.unused.keys = ["b".toList] ∧ r.discarded = ["c".toList] :=
  ⟨_, (eq_reconcile_iff (Catalogue.lawful_ofList _) (Catalogue.lawful_ofList _)
    (Catalogue.lawful_ofList _) _).1 rfl, by decide +kernel, by decide +kernel, by decide +kernel⟩

end Reconciliation

end CatalogueSync
