import CatalogueSync.Proofs.Catalogue.Grouping

/-!
# Calls on a catalogue

A catalogue is changed by two calls only, and each of them updates the list and the index apart from
each other. One call keeps a catalogue lawful (`Call.lawful_run`), so that after every run of calls
the list and the index agree (`Lawful.consistent`). What a run leaves is described by the calls
alone: the keys in the order in which they first came (`keys_runAll`), and under each of them what
the calls with that key make of one another (`get?_runAll`).
-/

set_option autoImplicit false

namespace CatalogueSync.Catalogue

variable {ε : Type} [Keyed ε]

/-- A call that hands an entry to a catalogue. A merge may do anything to the stored entry but give
it another key. -/
inductive Call (ε : Type) [Keyed ε] where
  | insert (e : ε)
  | insertOrMerge (merge : ε → ε → ε)
      (keeps : ∀ stored e, Keyed.key (merge stored e) = Keyed.key stored) (e : ε)

namespace Call

/-- The entry that a call hands over. -/
def entry : Call ε → ε
  | insert e => e
  | insertOrMerge _ _ e => e

/-- The key of that entry. -/
def key (call : Call ε) : Text :=
  Keyed.key call.entry

/-- What a call makes of the entry that is stored under its key already. -/
def merge : Call ε → ε → ε
  | insert _, stored => stored
  | insertOrMerge merge _ e, stored => merge stored e

/-- The catalogue after a call, and the call's answer. -/
def run (c : Catalogue ε) : Call ε → Catalogue ε × Bool
  | insert e => c.insert e
  | insertOrMerge merge _ e => c.insertOrMerge merge e

/-- The catalogue after some calls, one after the other, and their answers. -/
def runAll (c : Catalogue ε) : List (Call ε) → Catalogue ε × List Bool
  | [] => (c, [])
  | call :: calls =>
    let (c', answer) := call.run c
    let (c'', answers) := runAll c' calls
    (c'', answer :: answers)

/-- What some calls leave under a key where `stored` was: the first entry with the key, if none was
stored, and then what the later calls with the key make of it. -/
def gathered (key : Text) (stored : Option ε) (calls : List (Call ε)) : Option ε :=
  calls.foldl
    (fun stored call =>
      if call.key = key then some (stored.elim call.entry call.merge) else stored)
    stored

/-- Every call inserts or merges; the entry that is dropped is merged by leaving the stored one. -/
theorem exists_insertOrMerge (call : Call ε) :
    ∃ merge : ε → ε → ε, (∀ stored e, Keyed.key (merge stored e) = Keyed.key stored) ∧
      (∀ stored, call.merge stored = merge stored call.entry) ∧
      ∀ c, call.run c = c.insertOrMerge merge call.entry := by
  cases call with
  | insert e => exact ⟨fun stored _ => stored, fun _ _ => rfl, fun _ => rfl, fun _ => rfl⟩
  | insertOrMerge merge keeps e => exact ⟨merge, keeps, fun _ => rfl, fun _ => rfl⟩

section step

variable {c : Catalogue ε} (hc : c.Lawful) (call : Call ε)
include hc

theorem lawful_run : (call.run c).1.Lawful := by
  obtain ⟨merge, hmerge, -, hrun⟩ := call.exists_insertOrMerge
  rw [hrun]
  exact hc.insertOrMerge hmerge call.entry

/-- A call says whether its key was new. -/
theorem answer_run : (call.run c).2 = decide (call.key ∉ c.keys) := by
  obtain ⟨merge, -, -, hrun⟩ := call.exists_insertOrMerge
  rw [hrun, Catalogue.insertOrMerge, ← key]
  by_cases hmem : call.key ∈ c.keys
  · obtain ⟨i, hi⟩ := List.mem_iff_getElem?.1 hmem
    rw [hc.index_get?_eq_some_iff.2 hi]
    simp [hmem]
  · rw [hc.index_get?_eq_none_iff.2 hmem]
    simp [hmem]

/-- A call changes the entry with its key and no other; a new key goes to the end. -/
theorem entries_run :
    (call.run c).1.entries =
      if call.key ∈ c.keys then
        c.entries.map fun stored =>
          if Keyed.key stored = call.key then call.merge stored else stored
      else c.entries ++ [call.entry] := by
  obtain ⟨merge, -, hcall, hrun⟩ := call.exists_insertOrMerge
  simp only [hrun, hcall]
  split
  · rename_i hmem
    exact hc.entries_insertOrMerge_of_mem hmem
  · rename_i hmem
    exact hc.entries_insertOrMerge_of_not_mem hmem

theorem keys_run :
    (call.run c).1.keys = if call.key ∈ c.keys then c.keys else c.keys ++ [call.key] := by
  obtain ⟨merge, hmerge, -, hrun⟩ := call.exists_insertOrMerge
  rw [hrun]
  exact hc.keys_insertOrMerge hmerge call.entry

theorem get?_run (key : Text) : (call.run c).1.get? key = gathered key (c.get? key) [call] := by
  obtain ⟨merge, hmerge, hcall, hrun⟩ := call.exists_insertOrMerge
  rw [hrun, gathered, List.foldl_cons, List.foldl_nil]
  split
  · rename_i hkey
    subst hkey
    rw [key, hc.get?_insertOrMerge_self hmerge]
    cases c.get? (Keyed.key call.entry) with
    | none => rfl
    | some stored => simp [mergeAll, hcall]
  · rename_i hkey
    exact hc.get?_insertOrMerge_of_ne hmerge hkey

end step

end Call

/-- The list of a catalogue and its index say the same. -/
structure Consistent (c : Catalogue ε) : Prop where
  nodup : c.keys.Nodup
  /-- The index maps the key of each entry to the entry's position, and nothing else. -/
  position : ∀ key i, c.index.get? key = some i ↔ ∃ e, c.entries[i]? = some e ∧ Keyed.key e = key
  get? : ∀ key, c.get? key = c.entries.find? fun e => Keyed.key e = key
  contains : ∀ key, c.contains key = decide (key ∈ c.keys)
  size : c.size = c.keys.length ∧ c.size = c.index.size
  isEmpty : c.isEmpty = decide (c.keys = [])

theorem size_positions {keys : List Text} (h : keys.Nodup) :
    (positions keys).size = keys.length := by
  induction keys using List.reverseRecOn with
  | nil => rfl
  | append_singleton keys last ih =>
    obtain ⟨hkeys, -, hdisjoint⟩ := List.nodup_append.1 h
    have hlast : (positions keys)[last]? = none := by
      rw [Option.eq_none_iff_forall_ne_some]
      intro i hi
      have hmem := List.mem_of_getElem? ((getElem?_positions hkeys last i).1 hi)
      exact hdisjoint last hmem last List.mem_cons_self rfl
    rw [positions_concat, Std.TreeMap.size_insert, Std.TreeMap.contains_eq_isSome_getElem?, hlast,
      if_neg (by simp), ih hkeys, List.length_append, List.length_singleton]

/-- A lookup gives what a search through the list would. -/
theorem Lawful.get?_eq_find? {c : Catalogue ε} (hc : c.Lawful) (key : Text) :
    c.get? key = c.entries.find? fun e => Keyed.key e = key := by
  cases hfind : c.entries.find? fun e => Keyed.key e = key with
  | none =>
    rw [hc.get?_eq_none_iff, keys, List.mem_map]
    rintro ⟨e, hmem, hkey⟩
    exact List.find?_eq_none.1 hfind e hmem (decide_eq_true hkey)
  | some e =>
    have hkey : Keyed.key e = key := by simpa using List.find?_some hfind
    exact hc.get?_eq_some_iff.2 ⟨List.mem_of_find?_eq_some hfind, hkey⟩

theorem Lawful.consistent {c : Catalogue ε} (hc : c.Lawful) : c.Consistent where
  nodup := hc.nodup
  position := by
    intro key i
    rw [hc.index_get?_eq_some_iff, keys, List.getElem?_map, Option.map_eq_some_iff]
  get? := hc.get?_eq_find?
  contains := by
    intro key
    rw [Bool.eq_iff_iff, hc.contains_iff, decide_eq_true_iff]
  size := by
    have hlength : c.size = c.keys.length := (List.length_map ..).symm
    rw [hc.index_eq, size_positions hc.nodup]
    exact ⟨hlength, hlength⟩
  isEmpty := by
    rw [Bool.eq_iff_iff, decide_eq_true_iff, keys, List.map_eq_nil_iff]
    exact List.isEmpty_iff

section run

variable {c : Catalogue ε}

theorem lawful_runAll (hc : c.Lawful) (calls : List (Call ε)) : (Call.runAll c calls).1.Lawful := by
  induction calls generalizing c with
  | nil => exact hc
  | cons call calls ih => exact ih (call.lawful_run hc)

/-- The keys after some calls: the old ones, and then the new ones as they first come. -/
theorem keys_runAll (hc : c.Lawful) (calls : List (Call ε)) :
    (Call.runAll c calls).1.keys = (c.keys ++ calls.map Call.key).eraseDups := by
  induction calls generalizing c with
  | nil => rw [List.map_nil, List.append_nil, eraseDups_of_nodup hc.nodup]; rfl
  | cons call calls ih =>
    rw [Call.runAll, ih (call.lawful_run hc), call.keys_run hc, List.map_cons]
    split
    · rename_i hmem
      rw [List.eraseDups_append, List.eraseDups_append]
      simp [List.removeAll, hmem]
    · rw [List.append_assoc, List.singleton_append]

theorem get?_runAll (hc : c.Lawful) (calls : List (Call ε)) (key : Text) :
    (Call.runAll c calls).1.get? key = Call.gathered key (c.get? key) calls := by
  induction calls generalizing c with
  | nil => rfl
  | cons call calls ih =>
    rw [Call.runAll, ih (call.lawful_run hc), call.get?_run hc]
    rfl

theorem runAll_concat (c : Catalogue ε) (calls : List (Call ε)) (next : Call ε) :
    Call.runAll c (calls ++ [next]) =
      ((next.run (Call.runAll c calls).1).1,
        (Call.runAll c calls).2 ++ [(next.run (Call.runAll c calls).1).2]) := by
  induction calls generalizing c with
  | nil => rfl
  | cons call calls ih => simp only [List.cons_append, Call.runAll, ih]

/-- However a catalogue came about, its list and its index agree, and the calls alone decide what is
in it. The next call says whether its key is new, and it changes no entry but its own. -/
theorem consistent_runAll (calls : List (Call ε)) (next : Call ε) :
    (Call.runAll empty calls).1.Consistent ∧
      (Call.runAll empty calls).1.keys = (calls.map Call.key).eraseDups ∧
      (∀ key, (Call.runAll empty calls).1.get? key = Call.gathered key none calls) ∧
      (Call.runAll empty (calls ++ [next])).2 =
        (Call.runAll empty calls).2 ++ [decide (next.key ∉ calls.map Call.key)] ∧
      (Call.runAll empty (calls ++ [next])).1.entries =
        if next.key ∈ calls.map Call.key then
          (Call.runAll empty calls).1.entries.map fun stored =>
            if Keyed.key stored = next.key then next.merge stored else stored
        else (Call.runAll empty calls).1.entries ++ [next.entry] := by
  have hlawful : (Call.runAll empty calls).1.Lawful := lawful_runAll lawful_empty calls
  have hkeys : (Call.runAll empty calls).1.keys = (calls.map Call.key).eraseDups :=
    keys_runAll lawful_empty calls
  have hmem : next.key ∈ (Call.runAll empty calls).1.keys ↔ next.key ∈ calls.map Call.key := by
    rw [hkeys, List.mem_eraseDups]
  refine ⟨hlawful.consistent, hkeys, get?_runAll lawful_empty calls, ?_, ?_⟩
  · rw [runAll_concat, next.answer_run hlawful]
    simp only [hmem]
  · rw [runAll_concat, next.entries_run hlawful]
    simp only [hmem]

end run

end CatalogueSync.Catalogue
