import CatalogueSync.Proofs.Workspace.Effect

/-!
# Workspaces that differ in some files

Two workspaces may have the same directories and differ in some files only
(`Workspace.SameBut`). A path that leads to none of these finds the same in both
(`Workspace.SameBut.node?_eq`). Where two workspaces differ in nothing that can be seen, every path
finds the same (`Workspace.find_eq_of_view`).
-/

set_option autoImplicit false

namespace CatalogueSync

namespace Workspace

/-- The same directories and, but for some locations, the same files. -/
structure SameBut (differs : Location → Prop) (w v : Workspace) : Prop where
  home : v.home = w.home
  directories : ∀ loc, v.tree.node? loc = some .directory ↔ w.tree.node? loc = some .directory
  files : ∀ loc, ¬ differs loc → v.tree.contents? loc = w.tree.contents? loc

variable {differs differs' : Location → Prop} {w v : Workspace} {p : Path}

theorem SameBut.refl (differs : Location → Prop) (w : Workspace) : SameBut differs w w :=
  ⟨rfl, fun _ => Iff.rfl, fun _ _ => rfl⟩

theorem SameBut.mono (h : SameBut differs w v) (hsub : ∀ loc, differs loc → differs' loc) :
    SameBut differs' w v :=
  ⟨h.home, h.directories, fun loc hloc => h.files loc fun hdiffers => hloc (hsub loc hdiffers)⟩

/-- Workspaces whose lists of entries are the same but for a file at one location. -/
theorem SameBut.of_entries {loc : Location} (hhome : v.home = w.home)
    (hv : v.tree.node? loc ≠ some .directory) (hw : w.tree.node? loc ≠ some .directory)
    (hentries : (v.tree.entries.filter fun e => e.1 ≠ loc) =
      w.tree.entries.filter fun e => e.1 ≠ loc) : SameBut (fun loc' => loc' = loc) w v := by
  have hnodes : ∀ loc', loc' ≠ loc → v.tree.nodes[loc']? = w.tree.nodes[loc']? := by
    intro loc' hne
    apply Option.ext
    intro node
    have hmem (t : FileTree) : (loc', node) ∈ (t.entries.filter fun e => e.1 ≠ loc) ↔
        t.nodes[loc']? = some node := by
      simp [FileTree.entries, Std.TreeMap.mem_toList_iff_getElem?_eq_some, hne]
    rw [← hmem, ← hmem, hentries]
  refine ⟨hhome, fun loc' => ?_, fun loc' hne => ?_⟩
  · by_cases hloc : loc' = loc
    · subst hloc
      exact iff_of_false hv hw
    · rw [FileTree.node?, FileTree.node?, hnodes loc' hloc]
  · rw [FileTree.contents?, FileTree.contents?, hnodes loc' hne]

theorem SameBut.follow_eq_ok_iff (h : SameBut differs w v) {start loc : Location}
    {segments : List Text} :
    follow v.tree start segments = .ok loc ↔ follow w.tree start segments = .ok loc :=
  ⟨follow_of_keepsDirectories fun loc' => (h.directories loc').1,
    follow_of_keepsDirectories fun loc' => (h.directories loc').2⟩

theorem SameBut.node?_eq (h : SameBut differs w v) (hp : ¬ differs (w.target p)) :
    v.node? p = w.node? p := by
  apply Option.ext
  intro node
  rw [node?_eq_some_iff, node?_eq_some_iff, start_eq_of_home h.home rfl]
  refine and_congr_right fun _ => exists_congr fun loc => ?_
  rw [h.follow_eq_ok_iff]
  refine and_congr_right fun hfollow => ?_
  cases node with
  | directory => exact h.directories loc
  | file contents =>
    rw [← FileTree.contents?_eq_some_iff, ← FileTree.contents?_eq_some_iff, h.files]
    rwa [eq_foldl_of_follow hfollow]

theorem SameBut.isDirectory_eq (h : SameBut differs w v) (p : Path) :
    v.isDirectory p = w.isDirectory p := by
  have hnode : v.node? p = some .directory ↔ w.node? p = some .directory := by
    rw [node?_eq_some_iff, node?_eq_some_iff, start_eq_of_home h.home rfl]
    simp only [h.follow_eq_ok_iff, h.directories]
  rw [isDirectory, isDirectory, decide_eq_decide]
  exact hnode

section view

/-- What there is to see of a workspace: what paths are followed from and what stands where. -/
def view (w : Workspace) : Location × (Location → Option Node) :=
  (w.home, w.tree.node?)

variable {t t' : FileTree} {start loc : Location} {segments : List Text}

/-- Segments lead the same way through trees that agree wherever they lead. -/
theorem follow_congr {P : Location → Prop} (hagree : ∀ loc, P loc → t'.node? loc = t.node? loc)
    (hstep : ∀ loc, ∀ s ∈ segments, P loc → P (step loc s)) (hstart : P start) :
    follow t' start segments = follow t start segments := by
  induction segments generalizing start with
  | nil => rfl
  | cons s ss ih =>
    obtain ⟨hs, hss⟩ : (∀ loc, P loc → P (step loc s)) ∧
        ∀ loc, ∀ s ∈ ss, P loc → P (step loc s) :=
      ⟨fun loc => hstep loc s List.mem_cons_self,
        fun loc s hs => hstep loc s (List.mem_cons_of_mem _ hs)⟩
    rw [follow, follow, hagree start hstart, ih hss (hs start hstart)]

/-- What is found at a path depends on nothing but what there is to see. -/
theorem find_eq_of_view (h : v.view = w.view) (p : Path) : v.find p = w.find p := by
  obtain ⟨hhome, hnodes⟩ := Prod.mk.inj h
  have hfollow : follow v.tree (w.start p) p.segments = follow w.tree (w.start p) p.segments :=
    follow_congr (P := fun _ => True) (fun loc _ => congrFun hnodes loc) (fun _ _ _ _ => trivial)
      trivial
  have hstart : v.start p = w.start p := start_eq_of_home hhome rfl
  simp only [find, locate, reach_eq_follow, hstart, hfollow, hnodes]

theorem node?_eq_of_view (h : v.view = w.view) (p : Path) : v.node? p = w.node? p := by
  rw [node?, node?, find_eq_of_view h]

end view

end Workspace

end CatalogueSync
