import CatalogueSync.Proofs.Workspace.Writing

/-!
# What a write can do

A path leads to one location, its target, or nowhere. A write that succeeds changes the file at
its target, makes the directories that its path leads through and does nothing else
(`Workspace.leaves_of_write`, `Workspace.Written.isDirectory_iff`). A write that fails changes no
file (`Workspace.leaves_of_write_error`).
-/

set_option autoImplicit false

namespace CatalogueSync

/-- The contents of the file at a location. -/
def FileTree.contents? (t : FileTree) (loc : Location) : Option Contents :=
  match t.nodes[loc]? with
  | some (.file contents) => some contents
  | _ => none

namespace FileTree

variable {t t' : FileTree} {loc : Location} {contents : Contents}

/-- A table holds nothing for the top, which is a directory. -/
theorem getElem?_nodes_eq_some_iff {node : Node} :
    t.nodes[loc]? = some node ↔ loc ≠ [] ∧ t.node? loc = some node := by
  have htop : ([] : Location) ∉ t.nodes := fun hmem => (t.named [] hmem).1 rfl
  unfold node?
  split
  · rename_i hnil
    rw [List.isEmpty_iff] at hnil
    subst hnil
    simp [Std.TreeMap.getElem?_eq_none htop]
  · rename_i hne
    simp_all

theorem contents?_eq_some_iff :
    t.contents? loc = some contents ↔ t.node? loc = some (.file contents) := by
  have hnode : t.nodes[loc]? = some (.file contents) ↔ t.node? loc = some (.file contents) := by
    rw [getElem?_nodes_eq_some_iff]
    refine and_iff_right_of_imp ?_
    rintro h rfl
    cases h
  rw [← hnode, contents?]
  split <;> simp_all

theorem contents?_of_directory (h : t.node? loc = some .directory) : t.contents? loc = none := by
  rw [Option.eq_none_iff_forall_ne_some]
  intro contents hcontents
  rw [contents?_eq_some_iff, h] at hcontents
  cases hcontents

/-- Where two trees have the same nodes they have the same files. -/
theorem contents?_congr
    (h : ∀ contents, t'.node? loc = some (.file contents) ↔ t.node? loc = some (.file contents)) :
    t'.contents? loc = t.contents? loc := by
  apply Option.ext
  intro contents
  rw [contents?_eq_some_iff, contents?_eq_some_iff, h]

end FileTree

namespace Workspace

/-- The location that a path leads to, if it leads anywhere. -/
def target (w : Workspace) (p : Path) : Location :=
  p.segments.foldl step (w.start p)

/-- A location that some segments lead through, if they lead anywhere. -/
def LeadsThrough (start : Location) (segments : List Text) (loc : Location) : Prop :=
  ∃ part, part <+: segments ∧ loc = part.foldl step start

section target

variable {t : FileTree} {w : Workspace} {start loc dir : Location} {segments : List Text}
  {p : Path} {node : Node}

theorem eq_foldl_of_follow (h : follow t loc segments = .ok dir) :
    dir = segments.foldl step loc := by
  induction segments generalizing loc with
  | nil => exact (Except.ok.inj h).symm
  | cons s ss ih =>
    rw [follow] at h
    split at h
    · cases h
    · cases h
    · split at h
      · cases h
      · exact ih h

/-- What stands at a path stands at its target. -/
theorem node?_target (h : w.node? p = some node) : w.tree.node? (w.target p) = some node := by
  obtain ⟨-, loc, hfollow, hnode⟩ := node?_eq_some_iff.1 h
  rwa [target, ← eq_foldl_of_follow hfollow]

theorem find_of_node? (h : w.node? p = some node) : w.find p = .ok (w.target p, node) := by
  obtain ⟨hobstacle, loc, hfollow, hnode⟩ := node?_eq_some_iff.1 h
  obtain rfl : loc = w.target p := eq_foldl_of_follow hfollow
  simp only [find, locate, hobstacle, reach_eq_follow, hfollow, hnode]

theorem target_eq_of_home {w' : Workspace} (hhome : w'.home = w.home) :
    w'.target p = w.target p := by
  rw [target, target, start, start, hhome]

/-- Segments that lead to a directory lead through directories. -/
theorem isDirectory_of_leadsThrough (hfollow : follow t start segments = .ok dir)
    (hdir : t.node? dir = some .directory) (h : LeadsThrough start segments loc) :
    t.node? loc = some .directory := by
  obtain ⟨part, ⟨more, rfl⟩, rfl⟩ := h
  obtain ⟨middle, hmiddle, hmore⟩ := follow_append_eq_ok_iff.1 hfollow
  rw [← eq_foldl_of_follow hmiddle]
  by_cases hnil : more = []
  · subst hnil
    obtain rfl := Except.ok.inj hmore
    exact hdir
  · exact node?_of_follow hmore hnil

theorem LiesAlong.leadsThrough (h : LiesAlong t start segments loc) :
    LeadsThrough start segments loc := by
  obtain ⟨above, name, hbegin, -, hfollow⟩ := h
  exact ⟨above ++ [name], hbegin, eq_foldl_of_follow hfollow⟩

end target

/-- The difference that writing files makes: directories may be new, and at all but the written
locations the same files stand. -/
structure Leaves (written : Location → Prop) (w w' : Workspace) : Prop where
  home : w'.home = w.home
  directories : w.tree.KeepsDirectories w'.tree
  files : ∀ loc, ¬ written loc → w'.tree.contents? loc = w.tree.contents? loc

section leaves

variable {written written' : Location → Prop} {w w' w'' : Workspace} {p : Path}
  {contents name : Text} {base segments : List Text} {start dir loc : Location}

theorem Leaves.refl (written : Location → Prop) (w : Workspace) : Leaves written w w :=
  ⟨rfl, fun _ h => h, fun _ _ => rfl⟩

theorem Leaves.trans (h : Leaves written w w') (h' : Leaves written w' w'') :
    Leaves written w w'' where
  home := h'.home.trans h.home
  directories := fun loc hloc => h'.directories loc (h.directories loc hloc)
  files := fun loc hloc => (h'.files loc hloc).trans (h.files loc hloc)

theorem Leaves.mono (h : Leaves written w w') (hsub : ∀ loc, written loc → written' loc) :
    Leaves written' w w' :=
  ⟨h.home, h.directories, fun loc hloc => h.files loc fun hwritten => hloc (hsub loc hwritten)⟩

/-- Making directories writes no file. -/
theorem MadeAlong.leaves (h : MadeAlong start segments w w') : Leaves (fun _ => False) w w' where
  home := h.home
  directories := h.keepsDirectories
  files := by
    intro loc _
    apply FileTree.contents?_congr
    intro contents
    constructor
    · intro hnode
      cases hold : w.tree.node? loc with
      | none => cases (h.made loc _ hold hnode).1
      | some node =>
        rw [h.kept loc node hold] at hnode
        exact hnode
    · exact h.kept loc _

/-- What a write makes are directories. -/
theorem Written.directory_of_made (h : Written base name contents dir w w')
    (hne : loc ≠ dir ++ [name]) (hnone : w.tree.node? loc = none) {node : Node}
    (hnode : w'.tree.node? loc = some node) : node = .directory := by
  have hthrough := (h.made loc node hne hnone hnode).leadsThrough
  have hdir := FileTree.node?_of_node?_append h.file
  rw [isDirectory_of_leadsThrough h.follow hdir hthrough] at hnode
  exact (Option.some.inj hnode).symm

theorem Written.leaves (h : Written base name contents dir w w') :
    Leaves (fun loc => loc = dir ++ [name]) w w' where
  home := h.home
  directories := h.keepsDirectories
  files := by
    intro loc hne
    apply FileTree.contents?_congr
    intro contents
    constructor
    · intro hnode
      cases hold : w.tree.node? loc with
      | none => cases h.directory_of_made hne hold hnode
      | some node =>
        rw [h.kept loc node hne hold] at hnode
        exact hnode
    · exact h.kept loc _ hne

/-- The directories after a write are those from before and those that the path leads through. -/
theorem Written.isDirectory_iff (h : Written base name contents dir w w') :
    w'.tree.node? loc = some .directory ↔
      w.tree.node? loc = some .directory ∨
        LeadsThrough (w.start ⟨base ++ [name]⟩) base loc := by
  constructor
  · intro hdirectory
    by_cases hne : loc = dir ++ [name]
    · rw [hne, h.file] at hdirectory
      cases hdirectory
    · cases hold : w.tree.node? loc with
      | none => exact .inr (h.made loc _ hne hold hdirectory).leadsThrough
      | some node =>
        rw [h.kept loc node hne hold] at hdirectory
        exact .inl hdirectory
  · rintro (hold | hthrough)
    · exact h.keepsDirectories loc hold
    · exact isDirectory_of_leadsThrough h.follow (FileTree.node?_of_node?_append h.file) hthrough

theorem target_name (hname : Path.IsName name) (w : Workspace) (base : List Text) :
    w.target ⟨base ++ [name]⟩ = base.foldl step (w.start ⟨base ++ [name]⟩) ++ [name] := by
  rw [target, List.foldl_append, List.foldl_cons, List.foldl_nil, step_name hname]

/-- The segments that names are added to lead where a path leads. -/
theorem foldl_step_base (w : Workspace) (p : Path) :
    p.base.foldl step (w.start p) = w.target p := by
  rw [target]
  have hstill (loc : Location) : step loc [] = loc := rfl
  unfold Path.base
  split
  · rename_i hempty
    rcases Path.segments_of_isEmpty hempty with hsegments | hsegments
    · rw [hsegments]
    · rw [hsegments, List.foldl_cons, hstill]
  · split
    · rename_i hlast
      obtain ⟨above, habove⟩ := List.getLast?_eq_some_iff.1 hlast
      rw [habove, List.dropLast_concat, List.foldl_append, List.foldl_cons, List.foldl_nil, hstill]
    · rfl

/-- Segments that are added to a path lead on from its target. -/
theorem target_base (w : Workspace) (p : Path) (name : Text) :
    p.base.foldl step (w.start ⟨p.base ++ [name]⟩) = w.target p := by
  rw [start_eq_of_home rfl (Path.isAbsolute_base_append p name), foldl_step_base]

theorem foldl_step_names {names : List Text} (hnames : ∀ name ∈ names, Path.IsName name)
    (loc : Location) : names.foldl step loc = loc ++ names := by
  induction names generalizing loc with
  | nil => simp
  | cons name names ih =>
    obtain ⟨hname, hrest⟩ := List.forall_mem_cons.1 hnames
    rw [List.foldl_cons, step_name hname, ih hrest, List.append_assoc, List.singleton_append]

/-- Names that are looked up at a path lead downward from its target. -/
theorem target_join_names {names : List Text} (hnames : ∀ name ∈ names, Path.IsName name)
    (hne : names ≠ []) (w : Workspace) (p : Path) :
    w.target (p.join ⟨names⟩) = w.target p ++ names := by
  have hrelative := Path.isAbsolute_of_names hnames
  have hstart : w.start ⟨p.base ++ names⟩ = w.start p :=
    start_eq_of_home rfl (Path.isAbsolute_base_append_names hrelative hne p)
  rw [Path.join_names hrelative, target, hstart, List.foldl_append, foldl_step_base,
    foldl_step_names hnames]

/-- What stands below a directory is found by its names, if none is too long. -/
theorem node?_join_names {names : List Text} {node : Node} (hdir : w.isDirectory p)
    (hobstacle : obstacle? (p.join ⟨names⟩) = none)
    (hshort : ∀ name ∈ names, Path.isLongName name = false) (hne : names ≠ [])
    (hnode : w.tree.node? (w.target p ++ names) = some node) :
    w.node? (p.join ⟨names⟩) = some node := by
  have hnames : ∀ name ∈ names, Path.IsName name := fun name hmem =>
    (FileTree.isEntryName_of_node? hnode name (List.mem_append_right _ hmem)).1
  have hrelative := Path.isAbsolute_of_names hnames
  have hstart : w.start ⟨p.base ++ names⟩ = w.start p :=
    start_eq_of_home rfl (Path.isAbsolute_base_append_names hrelative hne p)
  obtain ⟨-, loc, hfollow, -⟩ := node?_eq_some_iff.1 (isDirectory_iff.1 hdir)
  obtain ⟨dir, hdir⟩ := follow_of_isPrefix (Path.base_isPrefix p) ⟨loc, hfollow⟩
  have htarget : dir = w.target p := (eq_foldl_of_follow hdir).trans (foldl_step_base w p)
  subst htarget
  rw [node?_eq_some_iff]
  refine ⟨hobstacle, w.target p ++ names, ?_, hnode⟩
  rw [Path.join_names hrelative, hstart, follow_append_eq_ok_iff]
  exact ⟨w.target p, hdir, follow_names hshort hnode⟩

theorem target_base_name (hname : Path.IsName name) (w : Workspace) (p : Path) :
    w.target ⟨p.base ++ [name]⟩ = w.target p ++ [name] := by
  rw [target_name hname, target_base]

/-- A segment leads to what has a name only if it is that name. -/
theorem eq_of_target_eq_concat {other : Text}
    (h : w.target ⟨p.base ++ [other]⟩ = w.target p ++ [name]) : other = name := by
  rw [target, List.foldl_append, target_base, List.foldl_cons, List.foldl_nil, step] at h
  split at h
  · have hlength := congrArg List.length h
    rw [List.length_append, List.length_singleton] at hlength
    omega
  · split at h
    · have hlength := congrArg List.length h
      rw [List.length_append, List.length_singleton, List.length_dropLast] at hlength
      omega
    · exact (List.cons.inj (List.append_cancel_left h)).1

theorem Written.target_eq (h : Written base name contents dir w w') (hname : Path.IsName name) :
    w.target ⟨base ++ [name]⟩ = dir ++ [name] := by
  rw [target_name hname, ← eq_foldl_of_follow h.follow]

/-- Only a path that ends in a name can be written to. -/
theorem exists_name_of_replaceFile (h : w.replaceFile p contents = .ok w') :
    ∃ base name, p = ⟨base ++ [name]⟩ ∧ Path.IsName name := by
  obtain ⟨dir, last, -, hname, hlocate, hlast, -⟩ := of_replaceFile h
  obtain ⟨-, -, above, hsegments, -⟩ := of_locateName hlocate hname
  refine ⟨above, last, ?_, hname.1⟩
  obtain ⟨segments⟩ := p
  rw [← hsegments, namedSegments]
  cases hreverse : segments.reverse with
  | nil => simp [List.reverse_eq_nil_iff.1 hreverse]
  | cons final rest =>
    have hfinal : List.isEmpty final = false := by
      have hgetLast : segments.getLast? = some final := by
        rw [← List.head?_reverse, hreverse, List.head?_cons]
      rw [List.isEmpty_eq_false_iff]
      rintro rfl
      exact hlast hgetLast
    rw [List.dropWhile_cons, hfinal, if_neg (by simp), ← hreverse, List.reverse_reverse]

theorem exists_written_of_write (h : w.write p contents = (w', .ok ())) :
    ∃ base name dir, p = ⟨base ++ [name]⟩ ∧ Path.IsName name ∧
      Written base name contents dir w w' := by
  have hreplace : ∃ middle, replaceFile middle p contents = .ok w' := by
    unfold write at h
    split at h
    · cases h
    · rename_i middle _
      split at h
      · cases h
      · rename_i found hfound
        exact ⟨middle, (Prod.mk.inj h).1 ▸ hfound⟩
  obtain ⟨middle, hmiddle⟩ := hreplace
  obtain ⟨base, name, rfl, hname⟩ := exists_name_of_replaceFile hmiddle
  obtain ⟨dir, hwritten⟩ := written_of_write hname h
  exact ⟨base, name, dir, rfl, hname, hwritten⟩

/-- A write that succeeds leaves all files but the one at its target. -/
theorem leaves_of_write (h : w.write p contents = (w', .ok ())) :
    Leaves (fun loc => loc = w.target p) w w' ∧ w'.node? p = some (.file (.text contents)) := by
  obtain ⟨base, name, dir, rfl, hname, hwritten⟩ := exists_written_of_write h
  rw [hwritten.target_eq hname]
  exact ⟨hwritten.leaves, hwritten.node? hname⟩

theorem contents?_of_node? (hhome : w'.home = w.home)
    (h : w'.node? p = some (.file (.text contents))) :
    w'.tree.contents? (w.target p) = some (.text contents) := by
  rw [← target_eq_of_home hhome]
  exact FileTree.contents?_eq_some_iff.2 (node?_target h)

/-- A write that fails leaves all files. -/
theorem leaves_of_write_error {e : WriteError} (h : w.write p contents = (w', .error e)) :
    Leaves (fun _ => False) w w' := by
  have hmade := (madeAlong_makeDirectories w (directoryOf p)).leaves
  unfold write at h
  split at h
  · rename_i hmake
    rw [hmake] at hmade
    exact (Prod.mk.inj h).1 ▸ hmade
  · rename_i hmake
    rw [hmake] at hmade
    split at h
    · exact (Prod.mk.inj h).1 ▸ hmade
    · cases (Prod.mk.inj h).2

end leaves

section change

variable {w w' : Workspace} {p : Path} {contents : Text}

/-- Whether a text would be written depends on nothing but what stands at the path. -/
theorem wouldChange_eq (w : Workspace) (p : Path) (contents : Text) :
    w.wouldChange p contents =
      match w.node? p with
      | some (.file (.text s)) => s != contents
      | _ => !contents.isEmpty := by
  unfold wouldChange
  cases hread : w.readText p with
  | ok s => rw [readText_eq_ok_iff.1 hread]
  | error e =>
    have hnot : ∀ s, w.node? p ≠ some (.file (.text s)) := by
      intro s hnode
      rw [readText_eq_ok_iff.2 hnode] at hread
      cases hread
    show (!contents.isEmpty) = _
    split
    · rename_i s hnode
      exact absurd hnode (hnot s)
    · rfl

theorem wouldChange_congr (h : w'.node? p = w.node? p) (contents : Text) :
    w'.wouldChange p contents = w.wouldChange p contents := by
  rw [wouldChange_eq, wouldChange_eq, h]

theorem not_wouldChange_of_node? (h : w.node? p = some (.file (.text contents))) :
    w.wouldChange p contents = false := by
  simp [wouldChange_eq, h]

end change

end Workspace

end CatalogueSync
