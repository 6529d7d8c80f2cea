import CatalogueSync.Proofs.Catalogue.Index
import CatalogueSync.Reconciliation

/-!
# The outcome of reconciling

Reconciling walks over the reference, the catalogue and the unused catalogue of a locale. Its
outcome is stated here without the walk: `effective` gives the variants that a key has in the
locale, and `outcome` lists the keys of each kind, in order. The two agree on lawful catalogues
(`reconcile_eq_outcome`), since no key comes twice in any of the three walks.
-/

set_option autoImplicit false

namespace CatalogueSync

@[simp]
theorem Message.keyed_key (m : Message) : Keyed.key m = m.key := rfl

@[simp]
theorem LocaleEntry.keyed_key (e : LocaleEntry) : Keyed.key e = e.key := rfl

namespace LocaleCatalogue

variable {c : LocaleCatalogue} {key : Text}

theorem filledVariants?_of_mem (hc : c.Lawful) {e : LocaleEntry} (he : e ∈ c.entries) :
    filledVariants? c e.key = if e.isTranslated then some e.filledVariants else none := by
  have hget : c.get? e.key = some e := hc.get?_eq_some_iff.2 ⟨he, rfl⟩
  rw [filledVariants?, hget]

theorem filledVariants?_of_not_mem (hc : c.Lawful) (h : key ∉ c.keys) :
    filledVariants? c key = none := by
  rw [filledVariants?, hc.get?_eq_none_iff.2 h]

theorem mem_keys_of_filledVariants? (hc : c.Lawful) (h : (filledVariants? c key).isSome) :
    key ∈ c.keys := by
  by_contra hnot
  rw [filledVariants?_of_not_mem hc hnot] at h
  cases h

/-- Variants that count are there and none of them is blank. -/
theorem of_filledVariants?_eq_some {vs : List Text} (h : filledVariants? c key = some vs) :
    vs ≠ [] ∧ ∀ v ∈ vs, Text.isBlank v = false := by
  unfold filledVariants? at h
  split at h
  · rename_i e he
    split at h
    · rename_i htranslated
      obtain rfl := Option.some.inj h
      constructor
      · intro hnil
        obtain ⟨v, hv, hfilled⟩ := List.any_eq_true.1 htranslated
        have hmem : v ∈ e.filledVariants := List.mem_filter.2 ⟨hv, hfilled⟩
        rw [hnil] at hmem
        cases hmem
      · intro v hv
        simpa using (List.mem_filter.1 hv).2
    · cases h
  · cases h

end LocaleCatalogue

namespace Reconciliation

open LocaleCatalogue (filledVariants?)

/-- The variants of a key: those in the catalogue, else those in the unused catalogue. -/
def effective (existing unused : LocaleCatalogue) (key : Text) : List Text :=
  ((filledVariants? existing key).or (filledVariants? unused key)).getD []

/-- A message of the reference with the variants it has in the locale. -/
def carried (existing unused : LocaleCatalogue) (m : Message) : LocaleEntry :=
  { m with variants := effective existing unused m.key }

/-- The stale keys that are translated in the catalogue. -/
def demotedKeys (reference : ReferenceCatalogue) (existing : LocaleCatalogue) : List Text :=
  existing.keys.filter fun k => !reference.contains k && (filledVariants? existing k).isSome

/-- The stale keys that are translated in the unused catalogue only. -/
def keptKeys (reference : ReferenceCatalogue) (existing unused : LocaleCatalogue) : List Text :=
  unused.keys.filter fun k => !reference.contains k && (filledVariants? existing k).isNone &&
    (filledVariants? unused k).isSome

/-- The keys of the new unused catalogue. -/
def unusedKeys (reference : ReferenceCatalogue) (existing unused : LocaleCatalogue) : List Text :=
  demotedKeys reference existing ++ keptKeys reference existing unused

/-- The stale keys of the catalogue without variants. -/
def discardedKeys (reference : ReferenceCatalogue) (existing unused : LocaleCatalogue) :
    List Text :=
  existing.keys.filter fun k => !reference.contains k && (effective existing unused k).isEmpty

/-- The stale keys without variants that only the unused catalogue has. -/
def discardedUnusedKeys (reference : ReferenceCatalogue) (existing unused : LocaleCatalogue) :
    List Text :=
  unused.keys.filter fun k => !reference.contains k && !existing.contains k &&
    (effective existing unused k).isEmpty

/-- What reconciling gives, key by key. -/
def outcome (reference : ReferenceCatalogue) (existing unused : LocaleCatalogue) :
    Reconciliation where
  locale := Catalogue.ofList (reference.entries.map (carried existing unused))
  unused := Catalogue.ofList ((unusedKeys reference existing unused).map fun k =>
    LocaleEntry.bare k (effective existing unused k))
  pending := reference.keys.filter fun k => (effective existing unused k).isEmpty
  revived := reference.keys.filter fun k =>
    (filledVariants? existing k).isNone && (filledVariants? unused k).isSome
  demoted := demotedKeys reference existing
  discarded := discardedKeys reference existing unused ++
    discardedUnusedKeys reference existing unused

section effective

variable {existing unused : LocaleCatalogue} {key : Text}

theorem effective_of_eq_some {vs : List Text} (h : filledVariants? existing key = some vs) :
    effective existing unused key = vs := by
  rw [effective, h]
  rfl

theorem effective_of_eq_none (h : filledVariants? existing key = none) :
    effective existing unused key = (filledVariants? unused key).getD [] := by
  rw [effective, h]
  rfl

theorem isEmpty_effective (existing unused : LocaleCatalogue) (key : Text) :
    (effective existing unused key).isEmpty =
      ((filledVariants? existing key).isNone && (filledVariants? unused key).isNone) := by
  cases hexisting : filledVariants? existing key with
  | some vs =>
    have hne := (LocaleCatalogue.of_filledVariants?_eq_some hexisting).1
    rw [effective_of_eq_some hexisting, List.isEmpty_eq_false_iff.2 hne]
    rfl
  | none =>
    rw [effective_of_eq_none hexisting]
    cases hunused : filledVariants? unused key with
    | some vs =>
      have hne := (LocaleCatalogue.of_filledVariants?_eq_some hunused).1
      simpa using hne
    | none => rfl

/-- A variant of a key comes from one of the two catalogues. -/
theorem exists_of_mem_effective {v : Text} (hv : v ∈ effective existing unused key) :
    ∃ c vs, (c = existing ∨ c = unused) ∧ filledVariants? c key = some vs ∧ v ∈ vs := by
  cases hexisting : filledVariants? existing key with
  | some vs =>
    rw [effective_of_eq_some hexisting] at hv
    exact ⟨existing, vs, .inl rfl, hexisting, hv⟩
  | none =>
    rw [effective_of_eq_none hexisting] at hv
    cases hunused : filledVariants? unused key with
    | some vs =>
      rw [hunused] at hv
      exact ⟨unused, vs, .inr rfl, hunused, hv⟩
    | none =>
      rw [hunused] at hv
      cases hv

theorem not_isBlank_of_mem_effective {v : Text} (hv : v ∈ effective existing unused key) :
    Text.isBlank v = false := by
  obtain ⟨c, vs, -, hvs, hmem⟩ := exists_of_mem_effective hv
  exact (LocaleCatalogue.of_filledVariants?_eq_some hvs).2 v hmem

end effective

section walks

variable {reference : ReferenceCatalogue} {existing unused : LocaleCatalogue}

/-- Inserts entries one after the other. -/
def insertAll (c : LocaleCatalogue) (es : List LocaleEntry) : LocaleCatalogue :=
  es.foldl (fun c e => (c.insert e).1) c

theorem carry_eq (r : Reconciliation) (m : Message) :
    carry existing unused r m =
      { r with
        locale := (r.locale.insert (carried existing unused m)).1
        pending := r.pending ++ if (effective existing unused m.key).isEmpty then [m.key] else []
        revived := r.revived ++
          if (filledVariants? existing m.key).isNone && (filledVariants? unused m.key).isSome then
            [m.key] else [] } := by
  rw [isEmpty_effective]
  unfold carry carried
  cases hexisting : filledVariants? existing m.key with
  | some vs =>
    rw [effective_of_eq_some hexisting]
    simp [addMessage]
  | none =>
    rw [effective_of_eq_none hexisting]
    cases hunused : filledVariants? unused m.key <;> simp [addMessage]

/-- The walk over the reference. -/
theorem foldl_carry (ms : List Message) (r : Reconciliation) :
    ms.foldl (carry existing unused) r =
      { r with
        locale := insertAll r.locale (ms.map (carried existing unused))
        pending := r.pending ++
          (ms.map Message.key).filter fun k => (effective existing unused k).isEmpty
        revived := r.revived ++ (ms.map Message.key).filter fun k =>
          (filledVariants? existing k).isNone && (filledVariants? unused k).isSome } := by
  induction ms generalizing r with
  | nil => simp [insertAll]
  | cons m ms ih =>
    rw [List.foldl_cons, carry_eq, ih]
    simp only [List.map_cons, List.filter_cons, insertAll, List.foldl_cons, List.append_assoc,
      Reconciliation.mk.injEq, true_and, and_true]
    constructor <;> split <;> rfl

/-- An entry as the unused catalogue keeps it. -/
def kept (e : LocaleEntry) : LocaleEntry :=
  LocaleEntry.bare e.key e.filledVariants

/-- Keeping an entry settles no other key. -/
theorem isSettled_keep {r : Reconciliation} {e : LocaleEntry} {key : Text} (hne : e.key ≠ key) :
    (r.keep e).isSettled reference key = r.isSettled reference key := by
  have hkey : Keyed.key (LocaleEntry.bare e.key e.filledVariants) ≠ key := hne
  rw [isSettled, isSettled, keep, Catalogue.insert, Catalogue.contains_insertOrMerge,
    decide_eq_false hkey, Bool.false_or]

/-- One step of the walks over the two catalogues of the locale. Only the walk over the catalogue
demotes keys, and only there a key can be left to the other catalogue. -/
def settle (reference : ReferenceCatalogue) (demotes : Bool) (isLeft : Text → Bool)
    (r : Reconciliation) (e : LocaleEntry) : Reconciliation :=
  if r.isSettled reference e.key then r
  else if e.isTranslated then
    { r.keep e with demoted := r.demoted ++ if demotes then [e.key] else [] }
  else if isLeft e.key then r
  else r.discard e.key

theorem retire_eq_settle :
    retire reference unused = settle reference true fun k => (filledVariants? unused k).isSome :=
  rfl

theorem keepUnused_eq_settle : keepUnused reference = settle reference false fun _ => false := by
  funext r e
  simp [keepUnused, settle, keep]

/-- A step only decides on the key of its own entry. -/
theorem settle_of_ne {demotes : Bool} {isLeft : Text → Bool} {r : Reconciliation}
    {e : LocaleEntry} {key : Text} (hne : e.key ≠ key) :
    (settle reference demotes isLeft r e).isSettled reference key = r.isSettled reference key ∧
      (settle reference demotes isLeft r e).discarded.contains key =
        r.discarded.contains key := by
  unfold settle
  split
  · exact ⟨rfl, rfl⟩
  · split
    · exact ⟨isSettled_keep hne, rfl⟩
    · split
      · exact ⟨rfl, rfl⟩
      · unfold discard
        split
        · exact ⟨rfl, rfl⟩
        · refine ⟨rfl, ?_⟩
          simpa using fun h => absurd h.symm hne

/-- The walk over entries with pairwise different keys, of which it is known beforehand which are
settled and which are discarded. -/
theorem foldl_settle {demotes : Bool} {isLeft : Text → Bool} (settled known : Text → Bool)
    {es : List LocaleEntry} (hes : es.Pairwise fun e e' => e.key ≠ e'.key) (r : Reconciliation)
    (hsettled : ∀ e ∈ es, r.isSettled reference e.key = settled e.key)
    (hknown : ∀ e ∈ es, r.discarded.contains e.key = known e.key) :
    es.foldl (settle reference demotes isLeft) r =
      { r with
        unused := insertAll r.unused
          ((es.filter fun e => !settled e.key && e.isTranslated).map kept)
        demoted := r.demoted ++ if demotes then
          (es.filter fun e => !settled e.key && e.isTranslated).map Keyed.key else []
        discarded := r.discarded ++
          (es.filter fun e => !settled e.key && !e.isTranslated && !isLeft e.key &&
            !known e.key).map Keyed.key } := by
  induction es generalizing r with
  | nil => simp [insertAll]
  | cons e es ih =>
    obtain ⟨hne, hes⟩ := List.pairwise_cons.1 hes
    obtain ⟨hsettledHead, hsettledTail⟩ := List.forall_mem_cons.1 hsettled
    obtain ⟨hknownHead, hknownTail⟩ := List.forall_mem_cons.1 hknown
    rw [List.foldl_cons, ih hes]
    · unfold settle discard
      rw [hsettledHead, hknownHead]
      cases hsettledKey : settled e.key
      · cases htranslated : e.isTranslated
        · cases hleft : isLeft e.key
          · cases hknownKey : known e.key
            · simp [hsettledKey, htranslated, hleft, hknownKey]
            · simp [hsettledKey, htranslated, hleft, hknownKey]
          · simp [hsettledKey, htranslated, hleft]
        · cases demotes
          · simp [hsettledKey, htranslated, keep, insertAll, kept]
          · simp [hsettledKey, htranslated, keep, insertAll, kept]
      · simp [hsettledKey]
    · intro e' he'
      rw [(settle_of_ne (hne e' he')).1, hsettledTail e' he']
    · intro e' he'
      rw [(settle_of_ne (hne e' he')).2, hknownTail e' he']

/-- A selection of entries is a selection of keys. -/
theorem map_key_filter_entries {c : LocaleCatalogue} {p : LocaleEntry → Bool} {q : Text → Bool}
    (hpq : ∀ e ∈ c.entries, p e = q e.key) :
    (c.entries.filter p).map Keyed.key = c.keys.filter q := by
  rw [Catalogue.keys, List.filter_map, List.filter_congr hpq]
  rfl

theorem isTranslated_eq {c : LocaleCatalogue} (hc : c.Lawful) {e : LocaleEntry}
    (he : e ∈ c.entries) : e.isTranslated = (filledVariants? c e.key).isSome := by
  rw [LocaleCatalogue.filledVariants?_of_mem hc he]
  cases e.isTranslated <;> rfl

theorem kept_of_effective (existing unused : LocaleCatalogue) {es : List LocaleEntry}
    {keys : List Text} (hkeys : es.map Keyed.key = keys)
    (heffective : ∀ e ∈ es, e.filledVariants = effective existing unused e.key) :
    es.map kept = keys.map fun k => LocaleEntry.bare k (effective existing unused k) := by
  rw [← hkeys, List.map_map]
  apply List.map_congr_left
  intro e he
  rw [kept, heffective e he]
  rfl

theorem contains_demotedKeys (hexisting : existing.Lawful) (key : Text) :
    (demotedKeys reference existing).contains key =
      (!reference.contains key && (filledVariants? existing key).isSome) := by
  rw [Bool.eq_iff_iff, List.contains_iff_mem, demotedKeys, List.mem_filter]
  constructor
  · exact fun h => h.2
  · intro h
    have htranslated := (Bool.and_eq_true_iff.1 h).2
    exact ⟨LocaleCatalogue.mem_keys_of_filledVariants? hexisting htranslated, h⟩

theorem contains_discardedKeys (hexisting : existing.Lawful) (key : Text) :
    (discardedKeys reference existing unused).contains key =
      (existing.contains key &&
        (!reference.contains key && (effective existing unused key).isEmpty)) := by
  rw [Bool.eq_iff_iff, List.contains_iff_mem, discardedKeys, List.mem_filter,
    ← hexisting.contains_iff, ← Bool.and_eq_true_iff]

theorem contains_ofList_bare {keys : List Text} (hkeys : keys.Nodup) (vs : Text → List Text)
    (key : Text) :
    (Catalogue.ofList (keys.map fun k => LocaleEntry.bare k (vs k))).contains key =
      keys.contains key := by
  have hmap : (keys.map fun k => LocaleEntry.bare k (vs k)).map Keyed.key = keys := by
    rw [List.map_map]
    exact List.map_id keys
  have hentries := Catalogue.entries_ofList_of_nodup (by rw [hmap]; exact hkeys)
  rw [Bool.eq_iff_iff, (Catalogue.lawful_ofList _).contains_iff, Catalogue.keys, hentries, hmap,
    List.contains_iff_mem]

/-- After the walk over the reference the new catalogue is complete. -/
theorem foldl_carry_reference :
    reference.entries.foldl (carry existing unused) empty =
      { outcome reference existing unused with
        unused := Catalogue.empty
        demoted := []
        discarded := [] } := by
  rw [foldl_carry]
  rfl

/-- After the walk over the catalogue the stale keys that it translates are in the new unused
catalogue. -/
theorem foldl_retire_existing (hexisting : existing.Lawful) :
    existing.entries.foldl (retire reference unused)
        { outcome reference existing unused with
          unused := Catalogue.empty
          demoted := []
          discarded := [] } =
      { outcome reference existing unused with
        unused := Catalogue.ofList ((demotedKeys reference existing).map fun k =>
          LocaleEntry.bare k (effective existing unused k))
        discarded := discardedKeys reference existing unused } := by
  have hdemoted : (existing.entries.filter fun e =>
      !reference.contains e.key && e.isTranslated).map Keyed.key =
        demotedKeys reference existing := by
    apply map_key_filter_entries
    intro e he
    rw [isTranslated_eq hexisting he]
  have hkept := kept_of_effective existing unused hdemoted (by
    intro e he
    obtain ⟨hmem, hselected⟩ := List.mem_filter.1 he
    have hfilled := LocaleCatalogue.filledVariants?_of_mem hexisting hmem
    rw [if_pos (Bool.and_eq_true_iff.1 hselected).2] at hfilled
    rw [effective_of_eq_some hfilled])
  have hdiscarded : (existing.entries.filter fun e => !reference.contains e.key &&
      !e.isTranslated && !(filledVariants? unused e.key).isSome && !false).map Keyed.key =
        discardedKeys reference existing unused := by
    apply map_key_filter_entries
    intro e he
    rw [isTranslated_eq hexisting he, isEmpty_effective]
    simp [Bool.and_assoc]
  rw [retire_eq_settle, foldl_settle reference.contains (fun _ => false)
    (List.pairwise_map.1 hexisting.nodup), hdemoted, hkept, hdiscarded]
  · rfl
  · intro e _
    simp [isSettled, Catalogue.contains, Catalogue.empty]
  · intro e _
    rfl

/-- The walk over the unused catalogue keeps and discards what is neither settled nor discarded
yet. -/
theorem foldl_keepUnused_unused (hexisting : existing.Lawful) (hunused : unused.Lawful) :
    unused.entries.foldl (keepUnused reference)
        { outcome reference existing unused with
          unused := Catalogue.ofList ((demotedKeys reference existing).map fun k =>
            LocaleEntry.bare k (effective existing unused k))
          discarded := discardedKeys reference existing unused } =
      outcome reference existing unused := by
  have hselect : ∀ key, (!(reference.contains key ||
      (demotedKeys reference existing).contains key)) =
        (!reference.contains key && (filledVariants? existing key).isNone) := by
    intro key
    rw [contains_demotedKeys hexisting]
    cases reference.contains key <;> cases filledVariants? existing key <;> rfl
  have hkeptKeys : (unused.entries.filter fun e =>
      !(reference.contains e.key || (demotedKeys reference existing).contains e.key) &&
        e.isTranslated).map Keyed.key = keptKeys reference existing unused := by
    apply map_key_filter_entries
    intro e he
    rw [hselect, isTranslated_eq hunused he]
  have hkept := kept_of_effective existing unused hkeptKeys (by
    intro e he
    obtain ⟨hmem, hselected⟩ := List.mem_filter.1 he
    rw [hselect, Bool.and_eq_true_iff, Bool.and_eq_true_iff, Option.isNone_iff_eq_none]
      at hselected
    have hfilled := LocaleCatalogue.filledVariants?_of_mem hunused hmem
    rw [if_pos hselected.2] at hfilled
    rw [effective_of_eq_none hselected.1.2, hfilled]
    rfl)
  have hdiscarded : (unused.entries.filter fun e =>
      !(reference.contains e.key || (demotedKeys reference existing).contains e.key) &&
        !e.isTranslated && !false &&
          !(discardedKeys reference existing unused).contains e.key).map Keyed.key =
        discardedUnusedKeys reference existing unused := by
    apply map_key_filter_entries
    intro e he
    rw [hselect, isTranslated_eq hunused he, contains_discardedKeys hexisting, isEmpty_effective]
    cases reference.contains e.key <;> cases existing.contains e.key <;>
      cases filledVariants? existing e.key <;> cases filledVariants? unused e.key <;> rfl
  rw [keepUnused_eq_settle, foldl_settle
    (fun k => reference.contains k || (demotedKeys reference existing).contains k)
    (fun k => (discardedKeys reference existing unused).contains k)
    (List.pairwise_map.1 hunused.nodup), hkept, hdiscarded]
  · simp only [insertAll, outcome, unusedKeys, Catalogue.ofList, List.map_append, List.foldl_append,
      Bool.false_eq_true, if_false, List.append_nil]
  · intro e _
    have hnodup : (demotedKeys reference existing).Nodup := hexisting.nodup.filter _
    rw [isSettled, contains_ofList_bare hnodup]
  · intro e _
    rfl

end walks

/-- Reconciling lawful catalogues comes to what is stated key by key. -/
theorem reconcile_eq_outcome {reference : ReferenceCatalogue} {existing unused : LocaleCatalogue}
    (hexisting : existing.Lawful) (hunused : unused.Lawful) :
    reconcile reference existing unused = outcome reference existing unused := by
  rw [reconcile]
  simp only [foldl_carry_reference, foldl_retire_existing hexisting,
    foldl_keepUnused_unused hexisting hunused]

end Reconciliation

end CatalogueSync
