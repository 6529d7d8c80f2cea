import CatalogueSync.Proofs.Workspace.Effect
import Mathlib.Data.List.Sort

/-!
# Listings

The entries of a tree are listed in the order of their locations, each once. So whatever is listed
of two trees is the same when it is the same at every location
(`FileTree.filterMap_filesBelow_eq`).
-/

set_option autoImplicit false

namespace CatalogueSync

namespace FileTree

variable {β : Type} {t t' : FileTree}

/-- The order in which entries are listed. -/
def Precedes (a b : Location × β) : Prop :=
  Text.compareAll a.1 b.1 = .lt

instance : Std.Irrefl (Precedes (β := β)) where
  irrefl := by
    intro a h
    have hself : Text.compareAll a.1 a.1 = .eq := Std.ReflCmp.compare_self
    rw [Precedes, hself] at h
    cases h

instance : Std.Antisymm (Precedes (β := β)) where
  antisymm := by
    intro a b h h'
    have hswap : Text.compareAll a.1 b.1 = (Text.compareAll b.1 a.1).swap := Std.OrientedCmp.eq_swap
    rw [Precedes, hswap, h'] at h
    cases h

/-- What a function makes of the entries, listed with their locations. -/
theorem mem_filterMap_entries_iff {g : Location × Node → Option β} {loc : Location} {b : β} :
    (loc, b) ∈ t.entries.filterMap (fun e => (g e).map fun b => (e.1, b)) ↔
      (t.nodes[loc]?.bind fun node => g (loc, node)) = some b := by
  simp only [entries, List.mem_filterMap, Option.map_eq_some_iff, Prod.mk.injEq,
    Option.bind_eq_some_iff, Prod.exists, Std.TreeMap.mem_toList_iff_getElem?_eq_some]
  constructor
  · rintro ⟨_, node, hnode, _, hb, rfl, rfl⟩
    exact ⟨node, hnode, hb⟩
  · rintro ⟨node, hnode, hb⟩
    exact ⟨loc, node, hnode, b, hb, rfl, rfl⟩

theorem filterMap_entries_eq {g g' : Location × Node → Option β}
    (h : ∀ loc, (t'.nodes[loc]?.bind fun node => g' (loc, node)) =
      t.nodes[loc]?.bind fun node => g (loc, node)) :
    t'.entries.filterMap g' = t.entries.filterMap g := by
  have hordered (t : FileTree) (g : Location × Node → Option β) :
      (t.entries.filterMap fun e => (g e).map fun b => (e.1, b)).Pairwise Precedes := by
    refine List.Pairwise.filterMap _ ?_ Std.TreeMap.ordered_keys_toList
    intro a a' hlt b hb b' hb'
    obtain ⟨_, -, rfl⟩ := Option.map_eq_some_iff.1 hb
    obtain ⟨_, -, rfl⟩ := Option.map_eq_some_iff.1 hb'
    exact hlt
  have hkeyed : (t'.entries.filterMap fun e => (g' e).map fun b => (e.1, b)) =
      t.entries.filterMap fun e => (g e).map fun b => (e.1, b) := by
    apply (hordered t' g').eq_of_mem_iff (hordered t g)
    rintro ⟨loc, b⟩
    rw [mem_filterMap_entries_iff, mem_filterMap_entries_iff, h]
  have hvalues := congrArg (List.map Prod.snd) hkeyed
  simpa [List.map_filterMap, Function.comp_def] using hvalues

variable {root : Location}

/-- What is made of an entry when files below a location are listed. -/
theorem bind_file_eq (f : List Text × Contents → Option β) (loc : Location) :
    (t.nodes[loc]?.bind fun node =>
      (match node with
        | .directory => none
        | .file contents =>
          if root.isPrefixOf loc then some (loc.drop root.length, contents) else none).bind f) =
      if root.isPrefixOf loc then
        (t.contents? loc).bind fun contents => f (loc.drop root.length, contents)
      else none := by
  rw [contents?]
  cases t.nodes[loc]? with
  | none => simp
  | some node =>
    cases node with
    | directory => simp
    | file contents => cases root.isPrefixOf loc <;> simp

/-- What is made of the files below a location depends on nothing but what is made of each. -/
theorem filterMap_filesBelow_eq {f f' : List Text × Contents → Option β}
    (h : ∀ names, ((t'.contents? (root ++ names)).bind fun contents => f' (names, contents)) =
      (t.contents? (root ++ names)).bind fun contents => f (names, contents)) :
    (t'.filesBelow root).filterMap f' = (t.filesBelow root).filterMap f := by
  unfold filesBelow
  rw [List.filterMap_filterMap, List.filterMap_filterMap]
  apply filterMap_entries_eq
  intro loc
  refine (bind_file_eq f' loc).trans (.trans ?_ (bind_file_eq f loc).symm)
  cases hbelow : root.isPrefixOf loc with
  | false => rfl
  | true =>
    obtain ⟨names, rfl⟩ := List.isPrefixOf_iff_prefix.1 hbelow
    simp only [if_true, List.drop_left]
    exact h names

/-- The names of files that are filtered out make no difference to those that stay. -/
theorem filter_fileNames_eq {keep : Text → Bool}
    (h : ∀ name, keep name →
      (t'.contents? (root ++ [name])).isSome = (t.contents? (root ++ [name])).isSome) :
    (t'.fileNames root).filter keep = (t.fileNames root).filter keep := by
  unfold fileNames
  rw [← List.filterMap_eq_filter, List.filterMap_filterMap, List.filterMap_filterMap]
  apply filterMap_filesBelow_eq
  intro names
  match names with
  | [] => simp
  | _ :: _ :: _ => simp
  | [name] =>
    cases hkeep : keep name with
    | false => simp [Option.guard, hkeep]
    | true =>
      have hname := h name hkeep
      revert hname
      cases t'.contents? (root ++ [name]) <;> cases t.contents? (root ++ [name]) <;> simp

/-- What is listed below a location stands there in the tree. -/
theorem of_listed {e : Location × Node} {b : List Text × Contents}
    (h : (match e.2 with
      | .directory => none
      | .file contents =>
        if root.isPrefixOf e.1 then some (e.1.drop root.length, contents) else none) = some b) :
    e = (root ++ b.1, .file b.2) := by
  obtain ⟨loc, node⟩ := e
  dsimp only at h
  split at h
  · cases h
  · split at h
    · rename_i hprefix
      obtain ⟨rest, rfl⟩ := List.isPrefixOf_iff_prefix.1 hprefix
      obtain rfl := Option.some.inj h
      rw [List.drop_left]
    · cases h

theorem mem_entries_iff {loc : Location} {node : Node} :
    (loc, node) ∈ t.entries ↔ loc ≠ [] ∧ t.node? loc = some node := by
  rw [entries, Std.TreeMap.mem_toList_iff_getElem?_eq_some, getElem?_nodes_eq_some_iff]

theorem mem_filesBelow_iff {names : List Text} {contents : Contents} :
    (names, contents) ∈ t.filesBelow root ↔ t.node? (root ++ names) = some (.file contents) := by
  rw [filesBelow, List.mem_filterMap]
  constructor
  · rintro ⟨e, hmem, hlisted⟩
    obtain rfl := of_listed hlisted
    exact (mem_entries_iff.1 hmem).2
  · intro hnode
    have hne : root ++ names ≠ [] := by
      intro hnil
      rw [hnil] at hnode
      cases hnode
    exact ⟨(root ++ names, .file contents), mem_entries_iff.2 ⟨hne, hnode⟩, by simp⟩

theorem mem_fileNames_iff {name : Text} :
    name ∈ t.fileNames root ↔ ∃ contents, t.node? (root ++ [name]) = some (.file contents) := by
  rw [fileNames, List.mem_filterMap]
  constructor
  · rintro ⟨⟨names, contents⟩, hmem, hname⟩
    dsimp only at hname
    split at hname
    · obtain rfl := Option.some.inj hname
      exact ⟨contents, mem_filesBelow_iff.1 hmem⟩
    · cases hname
  · rintro ⟨contents, hnode⟩
    exact ⟨([name], contents), mem_filesBelow_iff.2 hnode, rfl⟩

end FileTree

end CatalogueSync
