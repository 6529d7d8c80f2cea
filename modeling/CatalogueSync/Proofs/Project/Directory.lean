import CatalogueSync.Proofs.Project.Drafts

/-!
# Drafts for one directory

The catalogues of a project stand in one directory. Applying drafts for files of a directory leaves
the other files there and the search for a configuration as they were, and once all are applied
none of them differs from what is there (`Draft.spares_of_gives_applyAll`).
-/

set_option autoImplicit false

namespace CatalogueSync

namespace Draft

variable {p : Project} {w w' w'' : Workspace} {d : Draft} {ds : List Draft} {files : List Text}
  {file? : Option Text} {base : List Text}

/-- Each draft is for a file of a directory, and those for the same file have the same text. -/
structure ShareDirectory (base : List Text) (ds : List Draft) : Prop where
  named : ∀ d ∈ ds, ∃ name, d.path = ⟨base ++ [name]⟩ ∧ Path.IsName name ∧ name.head? ≠ some '.'
  text : ∀ d ∈ ds, ∀ d' ∈ ds, d'.path = d.path → d'.text = d.text

theorem ShareDirectory.of_cons (h : ShareDirectory base (d :: ds)) : ShareDirectory base ds :=
  ⟨fun d' hd' => h.named d' (List.mem_cons_of_mem d hd'),
    fun d' hd' d'' hd'' =>
      h.text d' (List.mem_cons_of_mem d hd') d'' (List.mem_cons_of_mem d hd'')⟩

/-- What applying drafts for one directory leaves as it was. -/
structure Spares (base : List Text) (ds : List Draft) (w w' : Workspace) : Prop where
  home : w'.home = w.home
  directories : w.tree.KeepsDirectories w'.tree
  search : Config.Kept w w'
  beside : ∀ name, Path.IsName name → (∀ d ∈ ds, d.path ≠ ⟨base ++ [name]⟩) →
    w'.node? ⟨base ++ [name]⟩ = w.node? ⟨base ++ [name]⟩

/-- The text of a draft stands in its file, or the file is as it was and counts as empty. -/
def Settled (w w' : Workspace) (d : Draft) : Prop :=
  w'.node? d.path = some (.file (.text d.text)) ∨
    d.text = [] ∧ w'.node? d.path = w.node? d.path ∧ ¬ d.Differs w'

theorem Settled.not_differs (h : d.Settled w w') : ¬ d.Differs w' := by
  rcases h with hnode | ⟨-, -, hsame⟩
  · rw [Differs, Workspace.not_wouldChange_of_node? hnode]
    exact Bool.false_ne_true
  · exact hsame

theorem Settled.of_node?_eq (h : d.Settled w w') (hnode : w''.node? d.path = w'.node? d.path) :
    d.Settled w w'' := by
  rcases h with hfile | ⟨htext, hold, hsame⟩
  · exact .inl (hnode.trans hfile)
  · refine .inr ⟨htext, hnode.trans hold, ?_⟩
    rwa [Differs, Workspace.wouldChange_congr hnode]

theorem Spares.refl (base : List Text) (ds : List Draft) (w : Workspace) : Spares base ds w w :=
  ⟨rfl, fun _ h => h, .refl w, fun _ _ _ => rfl⟩

theorem Spares.trans (h : Spares base ds w w') (h' : Spares base ds w' w'') :
    Spares base ds w w'' where
  home := h'.home.trans h.home
  directories := fun loc hloc => h'.directories loc (h.directories loc hloc)
  search := h.search.trans h.directories h.home h'.search
  beside := fun name hname hne => (h'.beside name hname hne).trans (h.beside name hname hne)

theorem Spares.mono {ds' : List Draft} (h : Spares base ds w w') (hsub : ∀ d ∈ ds, d ∈ ds') :
    Spares base ds' w w' :=
  ⟨h.home, h.directories, h.search,
    fun name hname hne => h.beside name hname fun d hd => hne d (hsub d hd)⟩

theorem Spares.hasParts {names : List Text} (h : Spares base ds w w')
    (hparts : w.HasParts names base) : w'.HasParts names base :=
  fun above name habove hmem =>
    Workspace.isDirectory_of_keepsDirectories h.directories h.home (hparts above name habove hmem)

/-- Applying a draft for a file that is not hidden leaves the search as it was, if no directory is
made that it looks for. -/
theorem kept_of_gives_apply {name : Text} (hpath : d.path = ⟨base ++ [name]⟩)
    (hname : Path.IsName name) (hdot : name.head? ≠ some '.')
    (hparts : w.HasParts Config.searched base) (h : (d.apply p false).Gives w file? w') :
    Config.Kept w w' := by
  rcases gives_apply_false_iff.1 h with ⟨-, -, rfl⟩ | ⟨-, -, hwrite⟩
  · exact .refl _
  · rw [hpath] at hwrite
    obtain ⟨dir, hwritten⟩ := Workspace.written_of_write hname hwrite
    intro above other hmem hdir
    obtain ⟨hisName, hhidden⟩ := Config.of_mem_searched hmem
    apply hwritten.node?_part hparts hisName hmem _ hdir
    rintro rfl
    exact hdot hhidden

theorem kept_of_gives_applyAll (hds : ShareDirectory base ds)
    (hparts : w.HasParts Config.searched base) (h : (applyAll p false ds).Gives w files w') :
    Config.Kept w w' := by
  replace hds := hds.named
  induction ds generalizing w files with
  | nil =>
    obtain ⟨-, rfl⟩ := gives_applyAll_nil_iff.1 h
    exact .refl _
  | cons d ds ih =>
    obtain ⟨file?, middle, files', hd, hrest, -⟩ := gives_applyAll_cons_iff.1 h
    obtain ⟨⟨name, hpath, hname, hdot⟩, hds⟩ := List.forall_mem_cons.1 hds
    obtain ⟨hhome, hdirectories, -⟩ := writesOnly_of_gives_apply hd
    have hfirst := kept_of_gives_apply hpath hname hdot hparts hd
    have hparts' : middle.HasParts Config.searched base := fun above other habove hmem =>
      Workspace.isDirectory_of_keepsDirectories hdirectories hhome (hparts above other habove hmem)
    exact hfirst.trans hdirectories hhome (ih hparts' hrest hds)

/-- Applying one draft for a file of a directory that can be reached without making a directory that
the search looks for. -/
theorem spares_of_gives_apply {name : Text} (hpath : d.path = ⟨base ++ [name]⟩)
    (hname : Path.IsName name) (hdot : name.head? ≠ some '.')
    (hparts : w.HasParts (['.', '.'] :: Config.searched) base)
    (h : (d.apply p false).Gives w file? w') : Spares base [d] w w' ∧ d.Settled w w' := by
  have hkept := kept_of_gives_apply hpath hname hdot
    (hparts.of_subset (List.subset_cons_self ..)) h
  rcases gives_apply_false_iff.1 h with ⟨hsame, -, rfl⟩ | ⟨-, -, hwrite⟩
  · refine ⟨.refl _ _ _, ?_⟩
    by_cases htext : d.text = []
    · exact .inr ⟨htext, rfl, hsame⟩
    · exact .inl (node?_of_gives_apply htext h)
  · rw [hpath] at hwrite
    obtain ⟨dir, hwritten⟩ := Workspace.written_of_write hname hwrite
    refine ⟨⟨hwritten.home, hwritten.keepsDirectories, hkept, ?_⟩, .inl ?_⟩
    · intro other hother hne
      apply hwritten.node?_beside hparts List.mem_cons_self hother
      rintro rfl
      exact hne d (List.mem_singleton_self d) hpath
    · rw [hpath]
      exact hwritten.node? hname

/-- Once drafts for one directory are applied, none of them differs, and nothing else there has
changed. -/
theorem spares_of_gives_applyAll (hds : ShareDirectory base ds)
    (hparts : w.HasParts (['.', '.'] :: Config.searched) base)
    (h : (applyAll p false ds).Gives w files w') :
    Spares base ds w w' ∧ ∀ d ∈ ds, d.Settled w w' := by
  induction ds generalizing w files with
  | nil =>
    obtain ⟨-, rfl⟩ := gives_applyAll_nil_iff.1 h
    exact ⟨.refl _ _ _, by simp⟩
  | cons d ds ih =>
    obtain ⟨file?, middle, files', hd, hrest, -⟩ := gives_applyAll_cons_iff.1 h
    obtain ⟨name, hpath, hname, hdot⟩ := hds.named d List.mem_cons_self
    obtain ⟨hfirst, hsettled⟩ := spares_of_gives_apply hpath hname hdot hparts hd
    obtain ⟨hspares, hall⟩ := ih hds.of_cons (hfirst.hasParts hparts) hrest
    refine ⟨(hfirst.mono (by simp)).trans (hspares.mono fun d' => List.mem_cons_of_mem d), ?_⟩
    intro d' hd'
    by_cases hmem : d' ∈ ds
    · rcases hall d' hmem with hfile | ⟨htext, hnode, hsame⟩
      · exact .inl hfile
      · by_cases hsamePath : d'.path = d.path
        · have hsameText := hds.text d List.mem_cons_self d' hd' hsamePath
          rcases hsettled with hfile | ⟨-, hold, -⟩
          · exact .inl (by rw [hnode, hsamePath, hfile, hsameText])
          · exact .inr ⟨htext, by rw [hnode, hsamePath, hold], hsame⟩
        · obtain ⟨name', hpath', hname', -⟩ := hds.named d' hd'
          have hbeside := hfirst.beside name' hname' (by simpa [← hpath'] using Ne.symm hsamePath)
          exact .inr ⟨htext, by rw [hnode, hpath', hbeside], hsame⟩
    · obtain rfl := (List.mem_cons.1 hd').resolve_right hmem
      apply hsettled.of_node?_eq
      rw [hpath]
      apply hspares.beside name hname
      -- another draft for this file would be this one
      rintro ⟨path, text⟩ hother rfl
      obtain rfl := hds.text d' hd' _ (List.mem_cons_of_mem d' hother) hpath.symm
      rw [← hpath] at hother
      exact hmem hother

end Draft

end CatalogueSync
