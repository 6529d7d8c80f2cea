import CatalogueSync.Catalogue.Basic
import Mathlib.Data.List.Induction
import Mathlib.Data.List.Nodup

/-!
# The entries of a catalogue and their index

In a lawful catalogue the keys are pairwise different and the index is the one that inserting them
in order gives. Every catalogue built by inserting and merging is lawful
(`Lawful.insertOrMerge`, `lawful_collect`), and it is then determined by its entries
(`Lawful.ext`): a lookup finds the entry with the key, a new entry goes to the end and a merge
changes the entry with the same key only.
-/

set_option autoImplicit false

namespace CatalogueSync.Catalogue

variable {ε : Type}

/-- The position of each key in a list. -/
def positions (keys : List Text) : Std.TreeMap Text Nat Text.compare :=
  keys.zipIdx.foldl (fun m p => m.insert p.1 p.2) {}

theorem positions_concat (keys : List Text) (key : Text) :
    positions (keys ++ [key]) = (positions keys).insert key keys.length := by
  simp [positions, List.zipIdx_append]

theorem getElem?_positions {keys : List Text} (h : keys.Nodup) (key : Text) (i : Nat) :
    (positions keys)[key]? = some i ↔ keys[i]? = some key := by
  induction keys using List.reverseRecOn with
  | nil => simp [positions]
  | append_singleton keys last ih =>
    obtain ⟨hkeys, -, hdisjoint⟩ := List.nodup_append.1 h
    have hlast : last ∉ keys := fun hmem => hdisjoint last hmem last (by simp) rfl
    rw [positions_concat, Std.TreeMap.getElem?_insert]
    by_cases hkey : Text.compare last key = .eq
    · obtain rfl := Std.LawfulEqCmp.eq_of_compare hkey
      rw [if_pos hkey, Option.some.injEq]
      constructor
      · rintro rfl
        simp
      · intro hget
        rw [List.getElem?_append] at hget
        split at hget
        · exact absurd (List.mem_of_getElem? hget) hlast
        · obtain ⟨hlt, -⟩ := List.getElem?_eq_some_iff.1 hget
          simp only [List.length_singleton] at hlt
          omega
    · have hne : last ≠ key := fun he => hkey (he ▸ Std.ReflCmp.compare_self)
      rw [if_neg hkey, ih hkeys]
      constructor
      · intro hget
        obtain ⟨hlt, -⟩ := List.getElem?_eq_some_iff.1 hget
        rw [List.getElem?_append_left hlt, hget]
      · intro hget
        rw [List.getElem?_append] at hget
        split at hget
        · exact hget
        · obtain ⟨hlt, hlastkey⟩ := List.getElem?_eq_some_iff.1 hget
          rw [List.getElem_singleton] at hlastkey
          exact absurd hlastkey hne

variable [Keyed ε]

/-- Inserting or merging an entry makes its key known and no other. -/
theorem contains_insertOrMerge (merge : ε → ε → ε) (c : Catalogue ε) (e : ε) (key : Text) :
    (c.insertOrMerge merge e).1.contains key =
      (decide (Keyed.key e = key) || c.contains key) := by
  have hkey : (Text.compare (Keyed.key e) key == .eq) = decide (Keyed.key e = key) := by
    rw [Bool.eq_iff_iff, beq_iff_eq, Std.LawfulEqCmp.compare_eq_iff_eq, decide_eq_true_iff]
  unfold insertOrMerge contains
  split
  · rename_i i hi
    by_cases he : Keyed.key e = key
    · subst he
      rw [Std.TreeMap.contains_eq_isSome_getElem?, ← Std.TreeMap.get?_eq_getElem?, hi]
      simp
    · simp [he]
  · rw [Std.TreeMap.contains_insert, hkey]

/-- A catalogue whose keys are pairwise different and whose index holds their positions. -/
structure Lawful (c : Catalogue ε) : Prop where
  nodup : c.keys.Nodup
  index_eq : c.index = positions c.keys

theorem lawful_empty : Lawful (empty : Catalogue ε) :=
  ⟨List.nodup_nil, rfl⟩

namespace Lawful

variable {c d : Catalogue ε}

/-- A lawful catalogue is determined by its entries. -/
theorem ext (hc : c.Lawful) (hd : d.Lawful) (h : c.entries = d.entries) : c = d := by
  have hindex : c.index = d.index := by
    rw [hc.index_eq, hd.index_eq, keys, keys, h]
  cases c
  cases d
  simp_all

theorem index_get?_eq_some_iff (hc : c.Lawful) {key : Text} {i : Nat} :
    c.index.get? key = some i ↔ c.keys[i]? = some key := by
  rw [Std.TreeMap.get?_eq_getElem?, hc.index_eq, getElem?_positions hc.nodup]

theorem index_get?_eq_none_iff (hc : c.Lawful) {key : Text} :
    c.index.get? key = none ↔ key ∉ c.keys := by
  rw [List.mem_iff_getElem?, not_exists, Option.eq_none_iff_forall_ne_some]
  exact forall_congr' fun i => not_congr hc.index_get?_eq_some_iff

/-- A lookup finds the entry with the key. -/
theorem get?_eq_some_iff (hc : c.Lawful) {key : Text} {e : ε} :
    c.get? key = some e ↔ e ∈ c.entries ∧ Keyed.key e = key := by
  unfold get?
  rw [Option.bind_eq_some_iff]
  constructor
  · rintro ⟨i, hi, he⟩
    have hkey := hc.index_get?_eq_some_iff.1 hi
    rw [keys, List.getElem?_map, he] at hkey
    exact ⟨List.mem_of_getElem? he, Option.some.inj hkey⟩
  · rintro ⟨hmem, hkey⟩
    obtain ⟨i, hi⟩ := List.mem_iff_getElem?.1 hmem
    refine ⟨i, hc.index_get?_eq_some_iff.2 ?_, hi⟩
    rw [keys, List.getElem?_map, hi, ← hkey]
    rfl

theorem get?_eq_none_iff (hc : c.Lawful) {key : Text} : c.get? key = none ↔ key ∉ c.keys := by
  constructor
  · intro h hmem
    obtain ⟨e, he, hkey⟩ := List.mem_map.1 hmem
    rw [hc.get?_eq_some_iff.2 ⟨he, hkey⟩] at h
    simp at h
  · intro h
    rw [get?, hc.index_get?_eq_none_iff.2 h]
    rfl

theorem contains_iff (hc : c.Lawful) {key : Text} : c.contains key = true ↔ key ∈ c.keys := by
  have hget : c.index.get? key = none ↔ key ∉ c.keys := hc.index_get?_eq_none_iff
  rw [Std.TreeMap.get?_eq_getElem?] at hget
  rw [contains, Std.TreeMap.contains_eq_isSome_getElem?, Option.isSome_iff_ne_none, ne_eq, hget,
    not_not]

/-- An entry with a new key goes to the end. -/
theorem entries_insertOrMerge_of_not_mem (hc : c.Lawful) {merge : ε → ε → ε} {e : ε}
    (h : Keyed.key e ∉ c.keys) : (c.insertOrMerge merge e).1.entries = c.entries ++ [e] := by
  rw [insertOrMerge, hc.index_get?_eq_none_iff.2 h]

/-- An entry with a known key is merged into the entry with that key, and no other entry
changes. -/
theorem entries_insertOrMerge_of_mem (hc : c.Lawful) {merge : ε → ε → ε} {e : ε}
    (h : Keyed.key e ∈ c.keys) :
    (c.insertOrMerge merge e).1.entries =
      c.entries.map fun stored =>
        if Keyed.key stored = Keyed.key e then merge stored e else stored := by
  obtain ⟨i, hi⟩ := List.mem_iff_getElem?.1 h
  rw [insertOrMerge, hc.index_get?_eq_some_iff.2 hi]
  apply List.ext_getElem?
  intro j
  rw [List.getElem?_modify, List.getElem?_map]
  cases hj : c.entries[j]? with
  | none => rfl
  | some stored =>
    have hkeyj : c.keys[j]? = some (Keyed.key stored) := by
      rw [keys, List.getElem?_map, hj]
      rfl
    have hsame : i = j ↔ Keyed.key stored = Keyed.key e := by
      constructor
      · rintro rfl
        exact Option.some.inj (hkeyj.symm.trans hi)
      · intro hkey
        rw [hkey, ← hi] at hkeyj
        exact ((List.getElem?_inj (List.getElem?_eq_some_iff.1 hi).1 hc.nodup).1 hkeyj.symm)
    by_cases hij : i = j
    · simp [hij, hsame.1 hij]
    · have hne : Keyed.key stored ≠ Keyed.key e := fun hkey => hij (hsame.2 hkey)
      simp [hij, hne]

theorem keys_insertOrMerge_of_mem (hc : c.Lawful) {merge : ε → ε → ε}
    (hmerge : ∀ stored e, Keyed.key (merge stored e) = Keyed.key stored) {e : ε}
    (h : Keyed.key e ∈ c.keys) : (c.insertOrMerge merge e).1.keys = c.keys := by
  rw [keys, hc.entries_insertOrMerge_of_mem h, List.map_map, keys]
  apply List.map_congr_left
  intro stored _
  rw [Function.comp_apply]
  split
  · exact hmerge stored e
  · rfl

/-- Inserting and merging keep a catalogue lawful, as long as merging keeps the stored key. -/
theorem insertOrMerge {merge : ε → ε → ε}
    (hmerge : ∀ stored e, Keyed.key (merge stored e) = Keyed.key stored) (hc : c.Lawful) (e : ε) :
    (c.insertOrMerge merge e).1.Lawful := by
  by_cases h : Keyed.key e ∈ c.keys
  · have hkeys := hc.keys_insertOrMerge_of_mem hmerge h
    refine ⟨by rw [hkeys]; exact hc.nodup, ?_⟩
    rw [hkeys, ← hc.index_eq]
    obtain ⟨i, hi⟩ := List.mem_iff_getElem?.1 h
    rw [Catalogue.insertOrMerge, hc.index_get?_eq_some_iff.2 hi]
  · have hkeys : (c.insertOrMerge merge e).1.keys = c.keys ++ [Keyed.key e] := by
      rw [keys, hc.entries_insertOrMerge_of_not_mem h, List.map_append]
      rfl
    refine ⟨?_, ?_⟩
    · rw [hkeys, List.nodup_append]
      refine ⟨hc.nodup, List.nodup_singleton _, ?_⟩
      intro a ha b hb hab
      rw [List.mem_singleton.1 hb] at hab
      exact h (hab ▸ ha)
    · rw [hkeys, positions_concat, ← hc.index_eq, Catalogue.insertOrMerge,
        hc.index_get?_eq_none_iff.2 h]
      simp [keys]

theorem insert (hc : c.Lawful) (e : ε) : (c.insert e).1.Lawful :=
  hc.insertOrMerge (fun _ _ => rfl) e

end Lawful

section collect

variable {merge : ε → ε → ε} {c : Catalogue ε}

/-- What a catalogue gathers from a list is lawful. -/
theorem Lawful.foldl_insertOrMerge
    (hmerge : ∀ stored e, Keyed.key (merge stored e) = Keyed.key stored) (hc : c.Lawful)
    (es : List ε) : (es.foldl (fun c e => (c.insertOrMerge merge e).1) c).Lawful := by
  induction es generalizing c with
  | nil => exact hc
  | cons e es ih => exact ih (hc.insertOrMerge hmerge e)

theorem lawful_collect (hmerge : ∀ stored e, Keyed.key (merge stored e) = Keyed.key stored)
    (es : List ε) : (collect merge es).Lawful :=
  lawful_empty.foldl_insertOrMerge hmerge es

theorem lawful_ofList (es : List ε) : (ofList es).Lawful :=
  lawful_empty.foldl_insertOrMerge (fun _ _ => rfl) es

/-- Entries with new and pairwise different keys are appended as they are. -/
theorem Lawful.entries_foldl_of_nodup
    (hmerge : ∀ stored e, Keyed.key (merge stored e) = Keyed.key stored) (hc : c.Lawful)
    {es : List ε} (hnodup : (c.keys ++ es.map Keyed.key).Nodup) :
    (es.foldl (fun c e => (c.insertOrMerge merge e).1) c).entries = c.entries ++ es := by
  induction es generalizing c with
  | nil => simp
  | cons e es ih =>
    have hassoc : c.keys ++ (e :: es).map Keyed.key =
        c.keys ++ [Keyed.key e] ++ es.map Keyed.key := by simp
    rw [hassoc] at hnodup
    have hnew : Keyed.key e ∉ c.keys := by
      have hleft := (List.nodup_append.1 hnodup).1
      exact fun hmem => (List.nodup_append.1 hleft).2.2 _ hmem _ (List.mem_singleton.2 rfl) rfl
    have hentries : (c.insertOrMerge merge e).1.entries = c.entries ++ [e] :=
      hc.entries_insertOrMerge_of_not_mem hnew
    have hkeys : (c.insertOrMerge merge e).1.keys = c.keys ++ [Keyed.key e] := by
      rw [keys, hentries, List.map_append]
      rfl
    rw [List.foldl_cons, ih (hc.insertOrMerge hmerge e) (by rw [hkeys]; exact hnodup), hentries]
    simp

/-- A list of entries with pairwise different keys is gathered as it is. -/
theorem entries_collect_of_nodup
    (hmerge : ∀ stored e, Keyed.key (merge stored e) = Keyed.key stored) {es : List ε}
    (hnodup : (es.map Keyed.key).Nodup) : (collect merge es).entries = es :=
  lawful_empty.entries_foldl_of_nodup hmerge hnodup

theorem entries_ofList_of_nodup {es : List ε} (hnodup : (es.map Keyed.key).Nodup) :
    (ofList es).entries = es :=
  lawful_empty.entries_foldl_of_nodup (fun _ _ => rfl) hnodup

/-- Gathering the entries of a lawful catalogue gives the catalogue again. -/
theorem Lawful.collect_entries
    (hmerge : ∀ stored e, Keyed.key (merge stored e) = Keyed.key stored) (hc : c.Lawful) :
    collect merge c.entries = c :=
  (lawful_collect hmerge c.entries).ext hc (entries_collect_of_nodup hmerge hc.nodup)

/-- What holds of all entries that go into a catalogue, and is kept by merging, holds of all
entries that it has gathered. -/
theorem forall_mem_collect {P : ε → Prop}
    (hmerge : ∀ stored e, Keyed.key (merge stored e) = Keyed.key stored)
    (hP : ∀ stored e, P stored → P e → P (merge stored e)) {es : List ε} (hes : ∀ e ∈ es, P e) :
    ∀ e ∈ (collect merge es).entries, P e := by
  suffices h : ∀ c : Catalogue ε, c.Lawful → (∀ e ∈ c.entries, P e) →
      ∀ e ∈ (es.foldl (fun c e => (c.insertOrMerge merge e).1) c).entries, P e from
    h empty lawful_empty (by simp [empty])
  intro c hc hentries
  induction es generalizing c with
  | nil => exact hentries
  | cons e es ih =>
    obtain ⟨he, hes⟩ := List.forall_mem_cons.1 hes
    refine ih hes _ (hc.insertOrMerge hmerge e) ?_
    by_cases hmem : Keyed.key e ∈ c.keys
    · rw [hc.entries_insertOrMerge_of_mem hmem]
      intro f hf
      obtain ⟨stored, hstored, rfl⟩ := List.mem_map.1 hf
      split
      · exact hP stored e (hentries stored hstored) he
      · exact hentries stored hstored
    · rw [hc.entries_insertOrMerge_of_not_mem hmem]
      intro f hf
      rcases List.mem_append.1 hf with hf | hf
      · exact hentries f hf
      · rw [List.mem_singleton.1 hf]
        exact he

end collect

end CatalogueSync.Catalogue
