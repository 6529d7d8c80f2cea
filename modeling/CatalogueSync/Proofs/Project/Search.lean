import CatalogueSync.Plan
import CatalogueSync.Proofs.Workspace.Listing

/-!
# What a project finds

The templates of a project depend on nothing but the files below their root
(`ReferencePlan.make_of_contents?`), and its locales on nothing but the files beside each other in
the directory of the catalogues (`Project.locales_of_contents?`).
-/

set_option autoImplicit false

namespace CatalogueSync

namespace TemplateSearch

variable {t t' : FileTree} {c : Config} {root : Location} {names : List Text}

theorem isMarked_eq (t : FileTree) (dir : Location) (name : Text) :
    isMarked t dir name =
      (t.contents? (dir ++ [name ++ markerSuffix])).any fun contents =>
        !contents.startsWithPlus := by
  have hnode : t.node? (dir ++ [name ++ markerSuffix]) = t.nodes[dir ++ [name ++ markerSuffix]]? :=
    if_neg (by simp)
  rw [isMarked, hnode, FileTree.contents?]
  rcases t.nodes[dir ++ [name ++ markerSuffix]]? with _ | _ | contents <;> simp

/-- The file that marks another one stands below the same root. -/
theorem verdict_congr (hbelow : ∀ loc, root <+: loc → t'.contents? loc = t.contents? loc)
    (hne : names ≠ []) : verdict t' c root names = verdict t c root names := by
  have hdir : root <+: (root ++ names).dropLast := by
    rw [List.dropLast_append_of_ne_nil hne]
    exact List.prefix_append ..
  unfold verdict
  simp only [isMarked_eq, hbelow _ (hdir.trans (List.prefix_append ..))]

/-- What is made of the files below a root by their verdicts. -/
theorem filterMap_verdict_eq {β : Type} (hroot : t.node? root = some .directory)
    (hbelow : ∀ loc, root <+: loc → t'.contents? loc = t.contents? loc)
    {f f' : List Text × Contents → Option β}
    (h : ∀ e, verdict t' c root e.1 = verdict t c root e.1 → f' e = f e) :
    (t'.filesBelow root).filterMap f' = (t.filesBelow root).filterMap f := by
  apply FileTree.filterMap_filesBelow_eq
  intro names
  rw [hbelow _ (List.prefix_append root names)]
  by_cases hne : names = []
  · rw [hne, List.append_nil, FileTree.contents?_of_directory hroot]
    rfl
  · exact congrArg _ (funext fun contents => h (names, contents) (verdict_congr hbelow hne))

theorem run_of_contents? {w w' : Workspace} {path : Path} (hhome : w'.home = w.home)
    (hdir : w.isDirectory path) (hdir' : w'.isDirectory path)
    (hbelow : ∀ loc, w.target path <+: loc → w'.tree.contents? loc = w.tree.contents? loc) :
    run w' c path = run w c path := by
  have hnode := Workspace.isDirectory_iff.1 hdir
  have hroot := Workspace.node?_target hnode
  have hfind' := Workspace.find_of_node? (Workspace.isDirectory_iff.1 hdir')
  rw [Workspace.target_eq_of_home hhome] at hfind'
  unfold run
  rw [Workspace.find_of_node? hnode, hfind']
  have hfiles : filesAt w'.tree c path (w.target path) = filesAt w.tree c path (w.target path) :=
    filterMap_verdict_eq hroot hbelow fun e he => by rw [he]
  have hnotices : markNotices w'.tree c (w.target path) = markNotices w.tree c (w.target path) :=
    filterMap_verdict_eq hroot hbelow fun e he => by rw [he]
  simp only [hfiles, hnotices]

end TemplateSearch

variable {p : Project} {w w' : Workspace}

theorem ReferencePlan.make_of_contents? (hhome : w'.home = w.home)
    (hdir : w'.isDirectory p.templatesRoot = w.isDirectory p.templatesRoot)
    (hbelow : ∀ loc, w.target p.templatesRoot <+: loc →
      w'.tree.contents? loc = w.tree.contents? loc) : make p w' = make p w := by
  unfold make
  rw [hdir]
  split
  · rename_i hroot
    rw [TemplateSearch.run_of_contents? hhome hroot (hdir.trans hroot) hbelow]
  · rfl

/-- The reference depends on nothing in the directory of the catalogues, unless the templates are
found above it. -/
theorem ReferencePlan.make_of_beside (hhome : w'.home = w.home)
    (hdir : w'.isDirectory p.templatesRoot = w.isDirectory p.templatesRoot)
    (hapart : ¬ w.target p.templatesRoot <+: w.target p.messagesRoot)
    (hbeside : ∀ loc, w'.tree.contents? loc = w.tree.contents? loc ∨
      ∃ name, loc = w.target p.messagesRoot ++ [name]) : make p w' = make p w := by
  cases hroot : w.isDirectory p.templatesRoot with
  | false =>
    unfold make
    rw [hdir, hroot]
    rfl
  | true =>
    refine make_of_contents? hhome hdir fun loc hloc => (hbeside loc).elim id ?_
    rintro ⟨name, rfl⟩
    rcases List.prefix_concat_iff.1 hloc with heq | hbegin
    · -- the root of the templates is a directory in both
      have hnode := Workspace.node?_target (Workspace.isDirectory_iff.1 hroot)
      have hnode' := Workspace.node?_target (Workspace.isDirectory_iff.1 (hdir.trans hroot))
      rw [Workspace.target_eq_of_home hhome] at hnode'
      rw [heq] at hnode hnode'
      rw [FileTree.contents?_of_directory hnode, FileTree.contents?_of_directory hnode']
    · exact absurd hbegin hapart

theorem ReferencePlan.isDirectory_of_make {plan : ReferencePlan}
    (h : (make p w).result = .ok plan) : w.isDirectory p.templatesRoot := by
  unfold make at h
  split at h
  · assumption
  · cases h

theorem Project.locales_eq (p : Project) (w : Workspace) :
    p.locales w =
      if w.isDirectory p.messagesRoot then
        (w.tree.fileNames (w.target p.messagesRoot)).filter p.isLocaleFile
      else [] := by
  cases hdir : w.isDirectory p.messagesRoot with
  | true =>
    rw [locales, Workspace.find_of_node? (Workspace.isDirectory_iff.1 hdir), if_pos rfl]
  | false =>
    unfold locales
    split
    · rename_i dir hfind
      have hnode : w.node? p.messagesRoot = some .directory := by rw [Workspace.node?, hfind]
      rw [Workspace.isDirectory_iff.2 hnode] at hdir
      cases hdir
    · rfl

theorem Project.locales_of_contents? (hhome : w'.home = w.home)
    (hdir : w'.isDirectory p.messagesRoot = w.isDirectory p.messagesRoot)
    (hbeside : ∀ name, p.isLocaleFile name →
      (w'.tree.contents? (w.target p.messagesRoot ++ [name])).isSome =
        (w.tree.contents? (w.target p.messagesRoot ++ [name])).isSome) :
    p.locales w' = p.locales w := by
  rw [locales_eq, locales_eq, hdir, Workspace.target_eq_of_home hhome,
    FileTree.filter_fileNames_eq hbeside]

end CatalogueSync
