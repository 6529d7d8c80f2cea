import CatalogueSync.Catalogue.Entry
import CatalogueSync.Proofs.Catalogue.Index

/-!
# What a catalogue gathers

A catalogue that a list of entries is inserted into, one after the other, is described here without
the order of the steps. Its keys are those it had and then the new ones in the order in which they
first occur (`Lawful.keys_foldl_insertOrMerge`), and under each key stands everything that came with
the key, merged from the first to the last (`Lawful.get?_foldl_insertOrMerge`). Nothing else decides
a lawful catalogue (`Lawful.ext_get?`), and so what was gathered before can be gathered again when
merging is associative (`Lawful.foldl_entries_collect`).
-/

set_option autoImplicit false

namespace CatalogueSync

section eraseDups

variable {α : Type} [BEq α] [LawfulBEq α]

theorem eraseDups_of_nodup {l : List α} (h : l.Nodup) : l.eraseDups = l := by
  induction l with
  | nil => rfl
  | cons a l ih =>
    obtain ⟨ha, hl⟩ := List.nodup_cons.1 h
    have hfilter : l.filter (fun b => !b == a) = l := by
      apply List.filter_eq_self.2
      intro b hb
      have hne : b ≠ a := ne_of_mem_of_not_mem hb ha
      simpa using hne
    rw [List.eraseDups_cons, hfilter, ih hl]

/-- The first occurrences of some elements are those among the first occurrences of all. -/
theorem filter_eraseDups (p : α → Bool) (l : List α) :
    l.eraseDups.filter p = (l.filter p).eraseDups := by
  induction hlen : l.length using Nat.strongRecOn generalizing l with
  | _ n ih =>
    subst hlen
    cases l with
    | nil => rfl
    | cons a l =>
      have hlt : (l.filter fun b => !b == a).length < (a :: l).length :=
        Nat.lt_succ_of_le (List.length_filter_le _ l)
      have hrest := ih _ hlt (l.filter fun b => !b == a) rfl
      rw [List.filter_filter] at hrest
      rw [List.eraseDups_cons]
      cases hp : p a with
      | true =>
        rw [List.filter_cons_of_pos hp, List.filter_cons_of_pos hp, List.eraseDups_cons, hrest,
          List.filter_filter]
        simp only [Bool.and_comm]
      | false =>
        rw [List.filter_cons_of_neg (by simp [hp]), List.filter_cons_of_neg (by simp [hp]), hrest]
        congr 1
        apply List.filter_congr
        intro b _
        cases hb : p b with
        | true =>
          have hne : b ≠ a := by
            rintro rfl
            rw [hp] at hb
            cases hb
          simpa using hne
        | false => rfl

end eraseDups

/-- The elements of a list, sorted by a key, are the elements of the list. -/
theorem flatMap_filter_perm {α κ : Type} [DecidableEq κ] (f : α → κ) {keys : List κ}
    (hkeys : keys.Nodup) {l : List α} (hl : ∀ a ∈ l, f a ∈ keys) :
    (keys.flatMap fun k => l.filter fun a => f a = k).Perm l := by
  induction keys generalizing l with
  | nil =>
    obtain rfl : l = [] := List.eq_nil_iff_forall_not_mem.2 fun a ha => List.not_mem_nil (hl a ha)
    rfl
  | cons k keys ih =>
    obtain ⟨hk, hkeys⟩ := List.nodup_cons.1 hkeys
    have hothers : ∀ a ∈ l.filter fun a => !decide (f a = k), f a ∈ keys := by
      intro a ha
      obtain ⟨ha, hne⟩ := List.mem_filter.1 ha
      exact (List.mem_cons.1 (hl a ha)).resolve_left (by simpa using hne)
    have hfilter : ∀ k' ∈ keys, (l.filter fun a => f a = k') =
        (l.filter fun a => !decide (f a = k)).filter fun a => f a = k' := by
      intro k' hk'
      have hne : k' ≠ k := ne_of_mem_of_not_mem hk' hk
      rw [List.filter_filter]
      apply List.filter_congr
      intro a _
      by_cases ha : f a = k' <;> simp [ha, hne]
    rw [List.flatMap_cons, List.flatMap_congr hfilter]
    exact ((ih hkeys hothers).append_left _).trans (List.filter_append_perm _ l)

namespace Catalogue

variable {ε : Type}

/-- All entries of a list, merged one after the other into the first. -/
def mergeAll (merge : ε → ε → ε) : List ε → Option ε
  | [] => none
  | e :: es => some (es.foldl merge e)

section mergeAll

variable {merge : ε → ε → ε}

theorem mergeAll_toList (o : Option ε) : mergeAll merge o.toList = o := by
  cases o <;> rfl

/-- An entry can be merged into the first of many before or after these. -/
theorem foldl_merge (hassoc : ∀ a b c, merge (merge a b) c = merge a (merge b c)) (e f : ε)
    (es : List ε) : es.foldl merge (merge e f) = merge e (es.foldl merge f) := by
  induction es generalizing f with
  | nil => rfl
  | cons g es ih => rw [List.foldl_cons, List.foldl_cons, hassoc, ih]

/-- Entries at the end can be merged among themselves first. -/
theorem mergeAll_append_mergeAll (hassoc : ∀ a b c, merge (merge a b) c = merge a (merge b c))
    (es fs : List ε) :
    mergeAll merge (es ++ (mergeAll merge fs).toList) = mergeAll merge (es ++ fs) := by
  cases fs with
  | nil => rfl
  | cons f fs =>
    cases es with
    | nil => rfl
    | cons e es =>
      simp only [mergeAll, Option.toList_some, List.cons_append, List.foldl_append,
        List.foldl_cons, List.foldl_nil, foldl_merge hassoc]

end mergeAll

variable [Keyed ε] {merge : ε → ε → ε} {c d : Catalogue ε}

namespace Lawful

theorem entries_eq_filterMap (hc : c.Lawful) : c.entries = c.keys.filterMap c.get? := by
  have hget : ∀ e ∈ c.entries, (c.get? ∘ Keyed.key) e = some e := fun e he =>
    hc.get?_eq_some_iff.2 ⟨he, rfl⟩
  rw [keys, List.filterMap_map, List.filterMap_congr hget, List.filterMap_some]

/-- A lawful catalogue is determined by its keys and by what stands under them. -/
theorem ext_get? (hc : c.Lawful) (hd : d.Lawful) (hkeys : c.keys = d.keys)
    (hget : ∀ key ∈ c.keys, c.get? key = d.get? key) : c = d := by
  apply hc.ext hd
  rw [hc.entries_eq_filterMap, hd.entries_eq_filterMap, ← hkeys]
  exact List.filterMap_congr hget

/-- It is enough to know what stands under the keys of some entries, when these are its keys. -/
theorem ext_of_filter (hc : c.Lawful) (hd : d.Lawful) {es : List ε}
    (hckeys : c.keys = (es.map Keyed.key).eraseDups)
    (hdkeys : d.keys = (es.map Keyed.key).eraseDups)
    (hget : ∀ key e later, (es.filter fun f => Keyed.key f = key) = e :: later →
      c.get? key = d.get? key) : c = d := by
  apply hc.ext_get? hd (hckeys.trans hdkeys.symm)
  intro key hkey
  rw [hckeys, List.mem_eraseDups] at hkey
  obtain ⟨f, hf, rfl⟩ := List.mem_map.1 hkey
  have hmem : f ∈ es.filter fun e => Keyed.key e = Keyed.key f :=
    List.mem_filter.2 ⟨hf, by simp⟩
  obtain ⟨e, later, hfilter⟩ := List.exists_cons_of_ne_nil (List.ne_nil_of_mem hmem)
  exact hget _ e later hfilter

section insertOrMerge

variable (hmerge : ∀ stored e, Keyed.key (merge stored e) = Keyed.key stored)
include hmerge

/-- Under its key an entry is merged into the one that stands there, if there is one. -/
theorem get?_insertOrMerge_self (hc : c.Lawful) (e : ε) :
    (c.insertOrMerge merge e).1.get? (Keyed.key e) =
      mergeAll merge ((c.get? (Keyed.key e)).toList ++ [e]) := by
  have hinsert := hc.insertOrMerge hmerge e
  cases hget : c.get? (Keyed.key e) with
  | none =>
    have hmem := hc.get?_eq_none_iff.1 hget
    apply hinsert.get?_eq_some_iff.2
    rw [hc.entries_insertOrMerge_of_not_mem hmem]
    exact ⟨List.mem_append_right _ List.mem_cons_self, rfl⟩
  | some stored =>
    obtain ⟨hstored, hkey⟩ := hc.get?_eq_some_iff.1 hget
    have hmem : Keyed.key e ∈ c.keys := List.mem_map.2 ⟨stored, hstored, hkey⟩
    apply hinsert.get?_eq_some_iff.2
    rw [hc.entries_insertOrMerge_of_mem hmem]
    exact ⟨List.mem_map.2 ⟨stored, hstored, if_pos hkey⟩, (hmerge stored e).trans hkey⟩

/-- Nothing changes under another key. -/
theorem get?_insertOrMerge_of_ne (hc : c.Lawful) {e : ε} {key : Text} (hne : Keyed.key e ≠ key) :
    (c.insertOrMerge merge e).1.get? key = c.get? key := by
  have hinsert := hc.insertOrMerge hmerge e
  apply Option.ext
  intro f
  rw [hinsert.get?_eq_some_iff, hc.get?_eq_some_iff]
  by_cases hmem : Keyed.key e ∈ c.keys
  · rw [hc.entries_insertOrMerge_of_mem hmem]
    constructor
    · rintro ⟨hf, hfkey⟩
      obtain ⟨g, hg, rfl⟩ := List.mem_map.1 hf
      split at hfkey
      · rename_i hgkey
        rw [hmerge, hgkey] at hfkey
        exact absurd hfkey hne
      · rename_i hgkey
        rw [if_neg hgkey]
        exact ⟨hg, hfkey⟩
    · rintro ⟨hf, rfl⟩
      exact ⟨List.mem_map.2 ⟨f, hf, if_neg (Ne.symm hne)⟩, rfl⟩
  · rw [hc.entries_insertOrMerge_of_not_mem hmem, List.mem_append, List.mem_singleton]
    constructor
    · rintro ⟨hf | rfl, hfkey⟩
      · exact ⟨hf, hfkey⟩
      · exact absurd hfkey hne
    · rintro ⟨hf, hfkey⟩
      exact ⟨.inl hf, hfkey⟩

/-- A new key goes to the end. -/
theorem keys_insertOrMerge (hc : c.Lawful) (e : ε) :
    (c.insertOrMerge merge e).1.keys =
      if Keyed.key e ∈ c.keys then c.keys else c.keys ++ [Keyed.key e] := by
  split
  · rename_i hmem
    exact hc.keys_insertOrMerge_of_mem hmerge hmem
  · rename_i hmem
    rw [keys, hc.entries_insertOrMerge_of_not_mem hmem, List.map_append]
    rfl

/-- The keys after many insertions: the old ones, and then the new ones as they first occur. -/
theorem keys_foldl_insertOrMerge (hc : c.Lawful) (es : List ε) :
    (es.foldl (fun c e => (c.insertOrMerge merge e).1) c).keys =
      c.keys ++ ((es.map Keyed.key).removeAll c.keys).eraseDups := by
  induction es generalizing c with
  | nil => simp [List.removeAll]
  | cons e es ih =>
    rw [List.foldl_cons, ih (hc.insertOrMerge hmerge e), hc.keys_insertOrMerge hmerge e]
    split
    · rename_i hmem
      simp [List.removeAll, hmem]
    · rename_i hmem
      have hremove : ∀ keys : List Text,
          keys.removeAll (c.keys ++ [Keyed.key e]) =
            (keys.removeAll c.keys).filter fun key => !key == Keyed.key e := by
        intro keys
        rw [List.removeAll, List.removeAll, List.filter_filter]
        apply List.filter_congr
        intro key _
        rw [Bool.eq_iff_iff]
        simp [and_comm]
      rw [hremove, List.append_assoc]
      simp [List.removeAll, hmem, List.eraseDups_cons]

/-- Under each key stands what was there and all that came with the key, merged in this order. -/
theorem get?_foldl_insertOrMerge (hc : c.Lawful) (es : List ε) (key : Text) :
    (es.foldl (fun c e => (c.insertOrMerge merge e).1) c).get? key =
      mergeAll merge ((c.get? key).toList ++ es.filter fun e => Keyed.key e = key) := by
  induction es generalizing c with
  | nil => simp [mergeAll_toList]
  | cons e es ih =>
    rw [List.foldl_cons, ih (hc.insertOrMerge hmerge e)]
    by_cases hkey : Keyed.key e = key
    · subst hkey
      rw [hc.get?_insertOrMerge_self hmerge, List.filter_cons_of_pos (by simp)]
      cases c.get? (Keyed.key e) <;> rfl
    · rw [hc.get?_insertOrMerge_of_ne hmerge hkey,
        List.filter_cons_of_neg (by simpa using hkey)]

end insertOrMerge

end Lawful

section collect

variable (hmerge : ∀ stored e, Keyed.key (merge stored e) = Keyed.key stored)
include hmerge

theorem keys_collect (es : List ε) :
    (collect merge es).keys = (es.map Keyed.key).eraseDups := by
  rw [collect, lawful_empty.keys_foldl_insertOrMerge hmerge]
  simp [empty, keys, List.removeAll]

theorem get?_collect (es : List ε) (key : Text) :
    (collect merge es).get? key = mergeAll merge (es.filter fun e => Keyed.key e = key) := by
  rw [collect, lawful_empty.get?_foldl_insertOrMerge hmerge]
  rfl

namespace Lawful

/-- What stands under a key is all that the entries hold for it. -/
theorem mergeAll_filter_entries (hc : c.Lawful) (key : Text) :
    mergeAll merge (c.entries.filter fun e => Keyed.key e = key) = c.get? key := by
  rw [← get?_collect hmerge, hc.collect_entries hmerge]

/-- The new keys of a lawful catalogue go behind those that are there, in their order. -/
theorem keys_foldl_entries (hc : c.Lawful) (hd : d.Lawful) :
    (d.entries.foldl (fun c e => (c.insertOrMerge merge e).1) c).keys =
      c.keys ++ d.keys.removeAll c.keys := by
  have hnodup : (d.keys.removeAll c.keys).Nodup := hd.nodup.filter _
  rw [hc.keys_foldl_insertOrMerge hmerge, ← keys, eraseDups_of_nodup hnodup]

theorem get?_foldl_entries (hc : c.Lawful) (hd : d.Lawful)
    (hassoc : ∀ a b c, merge (merge a b) c = merge a (merge b c)) (key : Text) :
    (d.entries.foldl (fun c e => (c.insertOrMerge merge e).1) c).get? key =
      mergeAll merge ((c.get? key).toList ++ (d.get? key).toList) := by
  rw [hc.get?_foldl_insertOrMerge hmerge, ← mergeAll_append_mergeAll hassoc,
    hd.mergeAll_filter_entries hmerge]

/-- Entries that were gathered before go into a catalogue as they do one by one. -/
theorem foldl_entries_collect (hassoc : ∀ a b c, merge (merge a b) c = merge a (merge b c))
    (hc : c.Lawful) (es : List ε) :
    (collect merge es).entries.foldl (fun c e => (c.insertOrMerge merge e).1) c =
      es.foldl (fun c e => (c.insertOrMerge merge e).1) c := by
  have hgathered : (collect merge es).Lawful := lawful_collect hmerge es
  apply (hc.foldl_insertOrMerge hmerge _).ext_get? (hc.foldl_insertOrMerge hmerge es)
  · rw [hc.keys_foldl_entries hmerge hgathered, keys_collect hmerge,
      hc.keys_foldl_insertOrMerge hmerge]
    exact congrArg _ (filter_eraseDups _ _)
  · intro key _
    rw [hc.get?_foldl_entries hmerge hgathered hassoc, get?_collect hmerge,
      mergeAll_append_mergeAll hassoc, hc.get?_foldl_insertOrMerge hmerge]

end Lawful

end collect

end Catalogue

end CatalogueSync
