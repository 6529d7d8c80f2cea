import CatalogueSync.Proofs.Project.Search
import CatalogueSync.Proofs.Workspace.Comparison
import CatalogueSync.Proofs.Workspace.Creation
import CatalogueSync.Proofs.Workspace.Walk

/-!
# What the search for templates finds

The search finds each file below its root that the configuration does not leave out and that no
second file marks, once and in the order of the paths, component by component
(`TemplateSearch.files_run_eq_map`). How the files came to be there makes no difference to it or to
the reference that is made of them.
-/

set_option autoImplicit false

namespace CatalogueSync

variable {t : FileTree} {c : Config} {root : Location} {dir : List Text} {name : Text}
  {contents : Contents} {w w' : Workspace} {path : Path}

/-- A marker is looked at by its first byte. -/
theorem Contents.startsWithPlus_iff (c : Contents) :
    c.startsWithPlus = true ↔ c.toBytes.data[0]? = some '+'.toUInt8 := by
  cases c with
  | binary bytes =>
    rw [startsWithPlus, decide_eq_true_iff, toBytes, List.getElem?_toArray, List.head?_eq_getElem?]
    rfl
  | text s =>
    rw [startsWithPlus, decide_eq_true_iff, toBytes, String.toUTF8, String.toByteArray_ofList,
      List.utf8Encode, List.data_toByteArray, List.getElem?_toArray, ← List.head?_eq_getElem?]
    exact (Text.head?_bytes_eq_iff (by decide)).symm

namespace TemplateSearch

/-- The template in a file that a walk comes to from the directory at a path. -/
def templateAt (path : Path) (e : List Text × Contents) : TemplateFile :=
  ⟨pathTo path e.1, Path.joinSegments e.1, e.2⟩

/-- A file in a directory below the root that the search takes for a template. -/
structure Takes (t : FileTree) (c : Config) (root : Location) (dir : List Text) (name : Text)
    (contents : Contents) : Prop where
  file : t.node? (root ++ (dir ++ [name])) = some (.file contents)
  name_notMem : name ∉ c.ignoredNames
  not_isSuffix : ∀ ending ∈ c.ignoredSuffixes, ¬ ending <:+ name
  not_matchesPath : ∀ pattern ∈ c.ignores, ∀ g, Glob.parse pattern = .ok g →
    g.matchesPath (Path.joinSegments (dir ++ [name])) = false
  startsWithPlus : ∀ marker,
    t.node? (root ++ dir ++ [name ++ ".mime".toList]) = some (.file marker) →
      marker.toBytes.data[0]? = some '+'.toUInt8

/-- The path of a template leads to the file that was found, where the file is found again unless the
path cannot be followed or one of its names is too long. -/
def LeadsTo (w : Workspace) (path : Path) (names : List Text) (contents : Contents) : Prop :=
  w.target (pathTo path names) = w.target path ++ names ∧
    (Workspace.obstacle? (pathTo path names) = none →
      (∀ name ∈ names, Path.isLongName name = false) →
        w.node? (pathTo path names) = some (.file contents))

theorem leadsTo_of_node? {names : List Text} (hdir : w.isDirectory path)
    (hnode : w.tree.node? (w.target path ++ names) = some (.file contents)) :
    LeadsTo w path names contents := by
  have hne : names ≠ [] := by
    rintro rfl
    rw [List.append_nil, Workspace.node?_target (Workspace.isDirectory_iff.1 hdir)] at hnode
    cases hnode
  have hpath : pathTo path names = path.join ⟨names⟩ := if_neg (by simpa using hne)
  have hnames : ∀ name ∈ names, Path.IsName name := fun name hmem =>
    (FileTree.isEntryName_of_node? hnode name (List.mem_append_right _ hmem)).1
  rw [LeadsTo, hpath]
  exact ⟨Workspace.target_join_names hnames hne w path, fun hobstacle hshort =>
    Workspace.node?_join_names hdir hobstacle hshort hne hnode⟩

theorem isIgnored_eq_false_iff {relative : Text} :
    isIgnored c name relative = false ↔
      name ∉ c.ignoredNames ∧ (∀ ending ∈ c.ignoredSuffixes, ¬ ending <:+ name) ∧
        ∀ pattern ∈ c.ignores, ∀ g, Glob.parse pattern = .ok g →
          g.matchesPath relative = false := by
  have hglobs : ((globs c.ignores).any fun g => g.matchesPath relative) = false ↔
      ∀ pattern ∈ c.ignores, ∀ g, Glob.parse pattern = .ok g → g.matchesPath relative = false := by
    rw [List.any_eq_false, globs, List.forall_mem_filterMap]
    refine forall₂_congr fun pattern _ => ?_
    cases Glob.parse pattern <;> simp
  rw [isIgnored, Bool.or_eq_false_iff, Bool.or_eq_false_iff, hglobs, List.any_eq_false, and_assoc]
  simp [List.isSuffixOf_iff_suffix]

theorem isMarked_eq_false_iff {dir : Location} :
    isMarked t dir name = false ↔
      ∀ marker, t.node? (dir ++ [name ++ ".mime".toList]) = some (.file marker) →
        marker.toBytes.data[0]? = some '+'.toUInt8 := by
  rw [isMarked, markerSuffix]
  rcases t.node? (dir ++ [name ++ ".mime".toList]) with _ | _ | marker <;>
    simp [← Contents.startsWithPlus_iff]

theorem takes_iff :
    Takes t c root dir name contents ↔
      t.node? (root ++ (dir ++ [name])) = some (.file contents) ∧
        verdict t c root (dir ++ [name]) = .template := by
  have hverdict : verdict t c root (dir ++ [name]) = .template ↔
      isIgnored c name (Path.joinSegments (dir ++ [name])) = false ∧
        isMarked t (root ++ dir) name = false := by
    unfold verdict
    dsimp only
    rw [← List.append_assoc, List.dropLast_concat, List.getLast?_concat, Option.getD_some]
    cases isIgnored c name (Path.joinSegments (dir ++ [name])) <;>
      cases isMarked t (root ++ dir) name <;> simp
  rw [hverdict, isIgnored_eq_false_iff, isMarked_eq_false_iff]
  constructor
  · rintro ⟨hfile, hname, hending, hpattern, hmarker⟩
    exact ⟨hfile, ⟨hname, hending, hpattern⟩, hmarker⟩
  · rintro ⟨hfile, ⟨hname, hending, hpattern⟩, hmarker⟩
    exact ⟨hfile, hname, hending, hpattern, hmarker⟩

theorem filesAt_eq_map (t : FileTree) (c : Config) (path : Path) (root : Location) :
    filesAt t c path root =
      ((t.walk root).filter fun e => verdict t c root e.1 = .template).map (templateAt path) := by
  rw [filesAt, FileTree.filesBelow_eq_walk, ← List.filterMap_eq_filter,
    ← List.filterMap_eq_map, List.filterMap_filterMap]
  apply List.filterMap_congr
  intro e _
  cases hverdict : verdict t c root e.1 <;> simp [Option.guard, hverdict, templateAt]

theorem run_of_isDirectory (c : Config) (hdir : w.isDirectory path) :
    (run w c path).files = filesAt w.tree c path (w.target path) := by
  rw [run, Workspace.find_of_node? (Workspace.isDirectory_iff.1 hdir)]

/-- Where there is the same to see, the same is found. -/
theorem run_of_view (hview : w'.view = w.view) (c : Config) (path : Path) :
    run w' c path = run w c path := by
  have hnodes : w'.tree.node? = w.tree.node? := (Prod.mk.inj hview).2
  have hbelow (root : Location) : w'.tree.filesBelow root = w.tree.filesBelow root := by
    apply (FileTree.pairwise_filesBelow _ _).eq_of_mem_iff (FileTree.pairwise_filesBelow _ _)
    rintro ⟨names, contents⟩
    rw [FileTree.mem_filesBelow_iff, FileTree.mem_filesBelow_iff, hnodes]
  have hmarked (dir : Location) (name : Text) :
      isMarked w'.tree dir name = isMarked w.tree dir name := by
    rw [isMarked, isMarked, hnodes]
  unfold run
  rw [Workspace.find_eq_of_view hview]
  simp only [filesAt, markNotices, hbelow, verdict, hmarked]

end TemplateSearch

theorem ReferencePlan.make_of_view (hview : w'.view = w.view) (p : Project) :
    make p w' = make p w := by
  unfold make
  rw [TemplateSearch.run_of_view hview, Workspace.isDirectory, Workspace.isDirectory,
    Workspace.node?_eq_of_view hview]

namespace TemplateSearch

/-- The search goes through a directory as a walk does and finds each file there that it takes for a
template, once and in the order of the paths, and the path it gives leads to that file. Nothing but the files below the root decides what is
found and what the reference is, however they came to be there. -/
theorem files_run_eq_map (w : Workspace) (c : Config) (path : Path) (hdir : w.isDirectory path) :
    (∃ found : List (List Text × Contents),
      (run w c path).files = found.map (templateAt path) ∧
      found.Sublist (w.tree.walk (w.target path)) ∧
      (found.Pairwise fun e e' => Text.compareAllBytes e.1 e'.1 = .lt) ∧
      (∀ names contents, (names, contents) ∈ found ↔
        ∃ dir name, names = dir ++ [name] ∧ Takes w.tree c (w.target path) dir name contents) ∧
      ∀ names contents, (names, contents) ∈ found → LeadsTo w path names contents) ∧
    (∀ w' : Workspace, w'.home = w.home → w'.isDirectory path →
      (∀ loc, w.target path <+: loc → w'.tree.contents? loc = w.tree.contents? loc) →
        run w' c path = run w c path ∧ ∀ p : Project, p.templatesRoot = path →
          ReferencePlan.make p w' = ReferencePlan.make p w) ∧
    ∀ (es es' : List (Location × Node)) (home : Location), FileTree.Fit es → es.Perm es' →
      run ⟨.ofEntries es', home⟩ c path = run ⟨.ofEntries es, home⟩ c path ∧
        ∀ p : Project, ReferencePlan.make p ⟨.ofEntries es', home⟩ =
          ReferencePlan.make p ⟨.ofEntries es, home⟩ := by
  refine ⟨?_, ?_, ?_⟩
  · refine ⟨_, (run_of_isDirectory c hdir).trans (filesAt_eq_map w.tree c path _),
      List.filter_sublist, ?_, ?_, ?_⟩
    · rw [Text.compareAllBytes_eq]
      exact (FileTree.pairwise_walk _ _).filter _
    · intro names contents
      rw [List.mem_filter, FileTree.mem_walk_iff, decide_eq_true_iff]
      constructor
      · rintro ⟨hfile, hverdict⟩
        rcases List.eq_nil_or_concat' names with rfl | ⟨dir, name, rfl⟩
        · rw [List.append_nil, Workspace.node?_target (Workspace.isDirectory_iff.1 hdir)] at hfile
          cases hfile
        · exact ⟨dir, name, rfl, takes_iff.2 ⟨hfile, hverdict⟩⟩
      · rintro ⟨dir, name, rfl, htakes⟩
        exact takes_iff.1 htakes
    · intro names contents hmem
      exact leadsTo_of_node? hdir (FileTree.mem_walk_iff.1 (List.mem_filter.1 hmem).1)
  · intro w' hhome hdir' hbelow
    refine ⟨run_of_contents? hhome hdir hdir' hbelow, ?_⟩
    rintro p rfl
    exact ReferencePlan.make_of_contents? hhome (hdir'.trans hdir.symm) hbelow
  · intro es es' home hfit hperm
    have hview : (⟨.ofEntries es', home⟩ : Workspace).view =
        (⟨.ofEntries es, home⟩ : Workspace).view :=
      congrArg (home, ·) (funext (FileTree.node?_ofEntries_of_perm hfit hperm))
    exact ⟨run_of_view hview c path, ReferencePlan.make_of_view hview⟩

/-- A directory comes before a file whose name goes on with a character below the slash, and a file
that is marked is not found, in whatever order they were put there. -/
theorem files_run_eq_map_directory_first :
    let es : List (Location × Node) := [(["a.html".toList], .file (.text [])),
      (["logo".toList], .file (.binary [0xff])),
      (["logo.mime".toList], .file (.text "image/png".toList)),
      (["a".toList, "x".toList], .file (.text []))]
    ∃ found : List (List Text × Contents),
      (run ⟨.ofEntries es, []⟩ {} .here).files = found.map (templateAt .here) ∧
      (found.map fun e => Path.joinSegments e.1) = ["a/x".toList, "a.html".toList] ∧
      (found.Pairwise fun e e' => Text.compareAllBytes e.1 e'.1 = .lt) ∧
      ∀ es', es.Perm es' →
        run ⟨.ofEntries es', []⟩ {} .here = run ⟨.ofEntries es, []⟩ {} .here := by
  intro es
  obtain ⟨⟨found, hfiles, -, hordered, -, -⟩, -, horder⟩ :=
    files_run_eq_map ⟨.ofEntries es, []⟩ {} .here (by decide +kernel)
  have hfit : FileTree.Fit es := by decide +kernel
  refine ⟨found, hfiles, ?_, hordered, fun es' hperm => (horder es es' [] hfit hperm).1⟩
  have hrelative : (run ⟨.ofEntries es, []⟩ {} .here).files.map TemplateFile.relative =
      ["a/x".toList, "a.html".toList] := by decide +kernel
  rw [hfiles, List.map_map] at hrelative
  exact hrelative

end TemplateSearch

end CatalogueSync
