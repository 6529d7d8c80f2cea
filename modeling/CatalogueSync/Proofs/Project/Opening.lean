import CatalogueSync.Proofs.Workspace.Lookup
import CatalogueSync.Project

/-!
# Projects in a changing workspace

A project is opened by looking at the directories from its root upward, and only for the names in
`Config.searched`. In a workspace where these names are as they were, it is the same project
(`Project.openAt_of_kept`). What is read from a catalogue depends on nothing but what stands at its
path (`Project.readCatalogue_congr`).
-/

set_option autoImplicit false

namespace CatalogueSync

namespace Config

/-- The names that the search for a configuration looks for. -/
def searched : List Text :=
  [fileName, repositoryMark]

theorem fileName_mem_searched : fileName ∈ searched := List.mem_cons_self

theorem repositoryMark_mem_searched : repositoryMark ∈ searched :=
  List.mem_cons_of_mem _ List.mem_cons_self

theorem of_mem_searched {name : Text} (h : name ∈ searched) :
    Path.IsName name ∧ name.head? = some '.' := by
  simp only [searched, List.mem_cons, List.not_mem_nil, or_false] at h
  rcases h with rfl | rfl <;> decide

/-- Wherever a path leads to a directory, the names that the search looks for are as they were. -/
def Kept (w w' : Workspace) : Prop :=
  ∀ above, ∀ name ∈ searched,
    (∃ loc, Workspace.follow w.tree (w.start ⟨above ++ [name]⟩) above = .ok loc) →
      w'.node? ⟨above ++ [name]⟩ = w.node? ⟨above ++ [name]⟩

variable {w w' : Workspace}

theorem Kept.refl (w : Workspace) : Kept w w :=
  fun _ _ _ _ => rfl

theorem Kept.trans {w'' : Workspace} (h : Kept w w') (hkeeps : w.tree.KeepsDirectories w'.tree)
    (hhome : w'.home = w.home) (h' : Kept w' w'') : Kept w w'' := by
  intro above name hname hdir
  refine (h' above name hname ?_).trans (h above name hname hdir)
  obtain ⟨loc, hloc⟩ := hdir
  rw [Workspace.start_eq_of_home hhome rfl]
  exact ⟨loc, Workspace.follow_of_keepsDirectories hkeeps hloc⟩

theorem Kept.node?_join (h : Kept w w') {dir : Path} {name : Text} (hname : name ∈ searched)
    (hdir : ∃ loc, Workspace.follow w.tree (w.start dir) dir.base = .ok loc) :
    w'.node? (dir.join (.ofText name)) = w.node? (dir.join (.ofText name)) := by
  have hslash : '/' ∉ name := by
    simp only [searched, List.mem_cons, List.not_mem_nil, or_false] at hname
    rcases hname with rfl | rfl <;> decide
  rw [Path.ofText, Path.splitSegments_eq_singleton hslash, Path.join_name]
  apply h _ _ hname
  rwa [Workspace.start_eq_of_home rfl (Path.isAbsolute_base_append dir name)]

/-- The search goes on in the directory above, if there is one. -/
theorem search?_eq_bind (w : Workspace) (dir : Path) :
    search? w dir =
      if w.hasNode (dir.join (.ofText fileName)) then some (dir.join (.ofText fileName))
      else if w.hasNode (dir.join (.ofText repositoryMark)) then none
      else dir.parent?.bind (search? w) := by
  rw [search?]
  cases dir.parent? <;> rfl

/-- The search finds the same file, and what stands there is what stood there. -/
theorem search?_of_kept (h : Kept w w') {dir : Path}
    (hdir : ∃ loc, Workspace.follow w.tree (w.start dir) dir.base = .ok loc) :
    search? w' dir = search? w dir ∧
      ∀ file, search? w dir = some file → w.hasNode file ∧ w'.node? file = w.node? file := by
  induction hn : dir.components.length using Nat.strongRecOn generalizing dir with
  | ind n ih =>
    subst hn
    have hfile := h.node?_join fileName_mem_searched hdir
    have hmark := h.node?_join repositoryMark_mem_searched hdir
    have hfile' : w'.hasNode _ = w.hasNode _ := congrArg Option.isSome hfile
    have hmark' : w'.hasNode _ = w.hasNode _ := congrArg Option.isSome hmark
    rw [search?_eq_bind w', search?_eq_bind w, hfile', hmark']
    split
    · rename_i hfound
      refine ⟨rfl, ?_⟩
      rintro file hsome
      obtain rfl := Option.some.inj hsome
      exact ⟨hfound, hfile⟩
    · split
      · exact ⟨rfl, by simp⟩
      · cases habove : dir.parent? with
        | none => exact ⟨rfl, by simp⟩
        | some above =>
          apply ih _ (Path.components_length_parent?_lt habove) _ rfl
          rw [Workspace.start_eq_of_home rfl (Path.of_parent?_eq_some habove).1]
          exact Workspace.follow_of_isPrefix (Path.base_isPrefix_of_parent? habove) hdir

theorem load_of_kept (h : Kept w w') {dir : Path}
    (hdir : ∃ loc, Workspace.follow w.tree (w.start dir) dir.base = .ok loc) :
    load w' dir = load w dir := by
  obtain ⟨hsearch, hfound⟩ := search?_of_kept h hdir
  unfold load
  rw [hsearch]
  cases hfile : search? w dir with
  | none => rfl
  | some file =>
    obtain ⟨hnode, hsame⟩ := hfound file hfile
    obtain ⟨node, hnode⟩ := Option.isSome_iff_exists.1 hnode
    have htext := Workspace.readText_of_node? hnode
    have htext' := Workspace.readText_of_node? (hsame.trans hnode)
    simp only [read, htext, htext']

theorem error?_of_load {dir : Path} {c : Config} (h : (load w dir).result = .ok c) :
    c.error? = none := by
  unfold load at h
  split at h
  · rename_i file _
    change read w file = .ok c at h
    unfold read at h
    split at h
    · cases h
    · split at h
      · cases h
      · split at h
        · cases h
        · rename_i hnone
          exact Except.ok.inj h ▸ hnone
  · exact Except.ok.inj h ▸ by decide +kernel

/-- A configuration that can be used has a name for the reference that is neither empty nor that of
an unused catalogue. -/
theorem referenceFile_of_error? {c : Config} (h : c.error? = none) :
    c.referenceFile ≠ [] ∧ ∀ locale, Locale.unusedName locale ≠ c.referenceFile := by
  unfold error? at h
  split at h
  · cases h
  · split at h
    · cases h
    · split at h
      · cases h
      · split at h
        · cases h
        · rename_i hblank
          split at h
          · cases h
          · rename_i hsuffix
            constructor
            · intro hnil
              rw [hnil] at hblank
              exact hblank rfl
            · intro locale hname
              rw [← hname] at hsuffix
              exact hsuffix (List.isSuffixOf_iff_suffix.2 (List.suffix_append ..))

end Config

namespace Project

variable {w w' : Workspace} {p : Project} {o : ProjectOptions}

theorem of_openAt (h : (openAt o w).result = .ok p) :
    w.isDirectory o.root ∧ p.config.error? = none := by
  unfold openAt at h
  split at h
  · rename_i hroot
    obtain ⟨c, hc, hp⟩ := Reported.result_bind_eq_ok.1 h
    obtain rfl := Except.ok.inj hp
    exact ⟨hroot, Config.error?_of_load hc⟩
  · cases h

/-- The same project is opened when the directories that were there still are, and nothing has
changed that the search for the configuration looks at. -/
theorem openAt_of_kept (hkeeps : w.tree.KeepsDirectories w'.tree) (hhome : w'.home = w.home)
    (h : Config.Kept w w') (hroot : w.isDirectory o.root) : openAt o w' = openAt o w := by
  obtain ⟨-, loc, hloc, -⟩ := Workspace.node?_eq_some_iff.1 (Workspace.isDirectory_iff.1 hroot)
  have hroot' := Workspace.isDirectory_of_keepsDirectories hkeeps hhome hroot
  have hbase := Workspace.follow_of_isPrefix (Path.base_isPrefix o.root) ⟨loc, hloc⟩
  unfold openAt
  rw [hroot, hroot', Config.load_of_kept h hbase]

theorem readCatalogue_congr (p : Project) {file : Path} (h : w'.node? file = w.node? file) :
    p.readCatalogue w' file = p.readCatalogue w file := by
  unfold readCatalogue Workspace.hasNode
  rw [h]
  cases hnode : w.node? file with
  | none => rfl
  | some node =>
    rw [Workspace.readText_of_node? hnode, Workspace.readText_of_node? (h.trans hnode)]

end Project

end CatalogueSync
