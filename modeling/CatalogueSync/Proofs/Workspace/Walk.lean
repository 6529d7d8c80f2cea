import CatalogueSync.Proofs.Text.Bytes
import CatalogueSync.Proofs.Workspace.Listing
import Mathlib.Data.Finset.Card

/-!
# The walk through a tree

The files below a location are found by a walk that goes into every directory where it comes to it
and takes what stands there in the order of the bytes of the names (`FileTree.walk`). No such walk
is made when files are listed, because the entries of a tree have that order already
(`FileTree.filesBelow_eq_walk`).
-/

set_option autoImplicit false

namespace CatalogueSync

namespace FileTree

/-- The names of what stands in a directory, in the order of their bytes. -/
def names (t : FileTree) (dir : Location) : List Text :=
  (t.entries.filterMap fun e => if e.1.dropLast = dir then e.1.getLast? else none).mergeSort
    fun a b => (Text.compareBytes a b).isLE

variable {t : FileTree} {loc dir root : Location} {name : Text} {names : List Text}
  {contents : Contents} {node : Node}

theorem mem_names_iff : name ∈ t.names dir ↔ ∃ node, t.node? (dir ++ [name]) = some node := by
  rw [FileTree.names, List.mem_mergeSort, List.mem_filterMap]
  constructor
  · rintro ⟨⟨loc, node⟩, hmem, hname⟩
    split at hname
    · rename_i hdir
      obtain ⟨above, rfl⟩ := List.getLast?_eq_some_iff.1 hname
      rw [List.dropLast_concat] at hdir
      subst hdir
      exact ⟨node, (mem_entries_iff.1 hmem).2⟩
    · cases hname
  · rintro ⟨node, hnode⟩
    exact ⟨(dir ++ [name], node), mem_entries_iff.2 ⟨by simp, hnode⟩, by simp⟩

/-- The locations below another one at which something stands. -/
def below (t : FileTree) (loc : Location) : Finset Location :=
  {other ∈ (t.entries.map Prod.fst).toFinset | loc <+: other ∧ other ≠ loc}

/-- Going into a directory leaves less to walk through. -/
theorem card_below_lt (h : name ∈ t.names dir) :
    (t.below (dir ++ [name])).card < (t.below dir).card := by
  obtain ⟨node, hnode⟩ := mem_names_iff.1 h
  apply Finset.card_lt_card
  rw [Finset.ssubset_iff_of_subset]
  · refine ⟨dir ++ [name], ?_, by simp [below]⟩
    have hmem := mem_entries_iff.2 ⟨by simp, hnode⟩
    rw [below, Finset.mem_filter, List.mem_toFinset]
    exact ⟨List.mem_map_of_mem hmem, by simp⟩
  · intro other hother
    rw [below, Finset.mem_filter] at hother ⊢
    obtain ⟨hmem, hbelow, -⟩ := hother
    refine ⟨hmem, (List.prefix_append ..).trans hbelow, ?_⟩
    rintro rfl
    have hlength := hbelow.length_le
    rw [List.length_append, List.length_singleton] at hlength
    omega

/-- Walks through what stands at a location: the names from there to each file, and its contents. -/
def walk (t : FileTree) (loc : Location) : List (List Text × Contents) :=
  match t.node? loc with
  | none => []
  | some (.file contents) => [([], contents)]
  | some .directory =>
    (t.names loc).attach.flatMap fun name =>
      (t.walk (loc ++ [name.1])).map fun e => (name.1 :: e.1, e.2)
termination_by (t.below loc).card
decreasing_by exact card_below_lt name.2

theorem walk_of_directory (h : t.node? loc = some .directory) :
    t.walk loc = (t.names loc).flatMap fun name =>
      (t.walk (loc ++ [name])).map fun e => (name :: e.1, e.2) := by
  rw [walk, h]
  simp [List.flatMap_def]

theorem exists_node?_of_mem_walk {e : List Text × Contents} (h : e ∈ t.walk loc) :
    ∃ node, t.node? loc = some node := by
  cases hnode : t.node? loc with
  | some node => exact ⟨node, rfl⟩
  | none =>
    rw [walk, hnode] at h
    cases h

/-- In a directory the walk goes on to what stands there. -/
theorem mem_walk_cons_iff :
    (name :: names, contents) ∈ t.walk loc ↔ (names, contents) ∈ t.walk (loc ++ [name]) := by
  constructor
  · intro hmem
    obtain ⟨node, hnode⟩ := exists_node?_of_mem_walk hmem
    cases node with
    | file found => simp [walk, hnode] at hmem
    | directory =>
      rw [walk_of_directory hnode, List.mem_flatMap] at hmem
      obtain ⟨other, -, hbelow⟩ := hmem
      obtain ⟨e, he, heq⟩ := List.mem_map.1 hbelow
      obtain ⟨hnames, rfl⟩ := Prod.mk.inj heq
      obtain ⟨rfl, rfl⟩ := List.cons.inj hnames
      exact he
  · intro hmem
    obtain ⟨node, hnode⟩ := exists_node?_of_mem_walk hmem
    rw [walk_of_directory (node?_of_node?_append hnode), List.mem_flatMap]
    exact ⟨name, mem_names_iff.2 ⟨node, hnode⟩, List.mem_map_of_mem hmem⟩

/-- The walk comes to every file. -/
theorem mem_walk_iff :
    (names, contents) ∈ t.walk loc ↔ t.node? (loc ++ names) = some (.file contents) := by
  induction names generalizing loc with
  | nil =>
    rw [List.append_nil]
    cases hnode : t.node? loc with
    | none => simp [walk, hnode]
    | some node =>
      cases node with
      | directory => simp [walk_of_directory hnode]
      | file found => simp [walk, hnode, eq_comm]
  | cons name names ih => rw [mem_walk_cons_iff, ih, List.append_assoc, List.singleton_append]

theorem compareAll_concat (dir : Location) (a b : Text) :
    Text.compareAll (dir ++ [a]) (dir ++ [b]) = Text.compare a b := by
  rw [Text.compareAll, Text.compareLex_append_left, List.compareLex_cons_cons]
  cases Text.compare a b <;> rfl

/-- The entries of a directory come in the order of their names. -/
theorem pairwise_names (t : FileTree) (dir : Location) :
    (t.names dir).Pairwise fun a b => Text.compare a b = .lt := by
  have hlisted : (t.entries.filterMap fun e =>
      if e.1.dropLast = dir then e.1.getLast? else none).Pairwise
      fun a b => Text.compare a b = .lt := by
    refine List.Pairwise.filterMap _ ?_ Std.TreeMap.ordered_keys_toList
    intro e e' hlt a ha b hb
    split at ha
    · split at hb
      · rename_i hdir hdir'
        obtain ⟨above, hloc⟩ := List.getLast?_eq_some_iff.1 ha
        obtain ⟨above', hloc'⟩ := List.getLast?_eq_some_iff.1 hb
        rw [hloc, List.dropLast_concat] at hdir
        rw [hloc', List.dropLast_concat] at hdir'
        rw [hloc, hloc', hdir, hdir', compareAll_concat] at hlt
        exact hlt
      · cases hb
    · cases ha
  rw [FileTree.names, List.mergeSort_of_pairwise]
  · exact hlisted
  · refine hlisted.imp fun {a b} hlt => ?_
    rw [Text.compareBytes_eq, hlt]
    rfl

theorem precedes_cons_iff {a b : Text} {e e' : List Text × Contents} :
    Precedes (a :: e.1, e.2) (b :: e'.1, e'.2) ↔
      Text.compare a b = .lt ∨ Text.compare a b = .eq ∧ Precedes e e' := by
  rw [Precedes, Text.compareAll, List.compareLex_cons_cons, Ordering.then_eq_lt]
  rfl

/-- The walk comes to the files in order. -/
theorem pairwise_walk (t : FileTree) (loc : Location) : (t.walk loc).Pairwise Precedes := by
  induction hn : (t.below loc).card using Nat.strongRecOn generalizing loc with
  | ind n ih =>
    subst hn
    cases hnode : t.node? loc with
    | none => simp [walk, hnode]
    | some node =>
      cases node with
      | file found => simp [walk, hnode]
      | directory =>
        rw [walk_of_directory hnode, List.pairwise_flatMap]
        constructor
        · intro name hname
          rw [List.pairwise_map]
          refine (ih _ (card_below_lt hname) (loc ++ [name]) rfl).imp fun {e e'} hlt => ?_
          exact precedes_cons_iff.2 (.inr ⟨Std.ReflCmp.compare_self, hlt⟩)
        · refine (pairwise_names t loc).imp fun {a b} hlt => ?_
          intro x hx y hy
          obtain ⟨e, -, rfl⟩ := List.mem_map.1 hx
          obtain ⟨e', -, rfl⟩ := List.mem_map.1 hy
          exact precedes_cons_iff.2 (.inl hlt)

theorem pairwise_filesBelow (t : FileTree) (root : Location) :
    (t.filesBelow root).Pairwise Precedes := by
  refine List.Pairwise.filterMap _ ?_ Std.TreeMap.ordered_keys_toList
  intro e e' hlt b hb b' hb'
  rw [of_listed hb, of_listed hb', Text.compareAll, Text.compareLex_append_left] at hlt
  exact hlt

/-- The files below a location are listed as a walk comes to them. -/
theorem filesBelow_eq_walk (t : FileTree) (root : Location) : t.filesBelow root = t.walk root := by
  apply (pairwise_filesBelow t root).eq_of_mem_iff (pairwise_walk t root)
  rintro ⟨names, contents⟩
  rw [mem_filesBelow_iff, mem_walk_iff]

end FileTree

end CatalogueSync
