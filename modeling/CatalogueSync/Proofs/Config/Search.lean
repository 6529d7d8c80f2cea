import CatalogueSync.Config.Search
import CatalogueSync.Proofs.Project.Opening
import CatalogueSync.Proofs.Workspace.Room

/-!
# Where a configuration is found

The search for a configuration goes from path to path by leaving out the last component, while what
matters are the directories that the paths lead to. Leaving out a name leads to the directory above,
but leaving out `..` leads down again (`Workspace.target_of_parent?`). The first directory with a
configuration or a repository mark decides the search (`Config.search?_eq_find?`), and no location
between two of its directories is passed over (`Config.exists_passed_of_find?`). So what it finds is
the nearest configuration whenever it lies at or above the root, which it does unless `..` was left
out (`Config.isNearest_search?_iff`). A root that leads up can get a configuration from below it
(`Config.not_isNearest_search?`).
-/

set_option autoImplicit false

namespace CatalogueSync

namespace Path

theorem filter_components (p : Path) :
    (p.components.filter fun s => !isStill s) = p.segments.filter fun s => !isStill s := by
  obtain ⟨segments⟩ := p
  cases segments with
  | nil => rfl
  | cons s ss =>
    simp only [components]
    split
    · rename_i hempty
      simp only [Bool.and_eq_true, decide_eq_true_eq, List.isEmpty_iff] at hempty
      obtain ⟨rfl, rfl⟩ := hempty
      rfl
    · rw [List.singleton_append, List.filter_cons, List.filter_cons, List.filter_filter]
      simp only [Bool.and_self]

/-- Every path is reached from one without a parent by adding components. -/
theorem inductionOn_parent? {motive : Path → Prop} (p : Path)
    (none : ∀ p : Path, p.parent? = none → motive p)
    (some : ∀ p q : Path, p.parent? = some q → motive q → motive p) : motive p := by
  induction hn : p.components.length using Nat.strongRecOn generalizing p with
  | ind n ih =>
    subst hn
    cases habove : p.parent? with
    | none => exact none p habove
    | some q => exact some p q habove (ih _ (components_length_parent?_lt habove) q rfl)

theorem pathsAbove_of_eq_none {p : Path} (h : p.parent? = none) : pathsAbove p = [] := by
  rw [pathsAbove]
  split
  · rfl
  · simp_all

theorem pathsAbove_of_eq_some {p q : Path} (h : p.parent? = some q) :
    pathsAbove p = q :: pathsAbove q := by
  rw [pathsAbove]
  split
  · simp_all
  · simp_all

/-- The paths above a path begin as it does. -/
theorem of_mem_pathsAbove {p q : Path} (h : q ∈ p :: pathsAbove p) :
    q.base <+: p.base ∧ q.components <+: p.components ∧ q.isAbsolute = p.isAbsolute := by
  induction p using inductionOn_parent? with
  | none p hnone =>
    rw [pathsAbove_of_eq_none hnone, List.mem_singleton] at h
    exact h ▸ ⟨List.prefix_rfl, List.prefix_rfl, rfl⟩
  | some p above habove ih =>
    rw [pathsAbove_of_eq_some habove] at h
    rcases List.mem_cons.1 h with rfl | h
    · exact ⟨List.prefix_rfl, List.prefix_rfl, rfl⟩
    · obtain ⟨hbase, hcomponents, habsolute⟩ := ih h
      obtain ⟨last, hlast⟩ := components_of_parent? habove
      exact ⟨hbase.trans (base_isPrefix_of_parent? habove),
        hcomponents.trans (hlast ▸ List.prefix_append ..),
        habsolute.trans (of_parent?_eq_some habove).1⟩

theorem length_pathsAbove_le (p : Path) : (pathsAbove p).length ≤ p.components.length := by
  induction p using inductionOn_parent? with
  | none p hnone => simp [pathsAbove_of_eq_none hnone]
  | some p above habove ih =>
    have hlt := components_length_parent?_lt habove
    rw [pathsAbove_of_eq_some habove, List.length_cons]
    omega

end Path

namespace Workspace

theorem foldl_step_filter (loc : Location) (segments : List Text) :
    (segments.filter fun s => !Path.isStill s).foldl step loc = segments.foldl step loc := by
  induction segments generalizing loc with
  | nil => rfl
  | cons s ss ih =>
    cases hs : Path.isStill s with
    | true => simp [hs, step, ih]
    | false => simp [hs, ih]

/-- A path leads where its components lead. -/
theorem target_eq_foldl_components (w : Workspace) (p : Path) :
    w.target p = p.components.foldl step (w.start p) := by
  rw [target, ← foldl_step_filter, ← Path.filter_components, foldl_step_filter]

/-- A path leads one step further than its parent. -/
theorem target_of_parent? {w : Workspace} {p q : Path} (h : p.parent? = some q) :
    ∃ last, p.components = q.components ++ [last] ∧ w.start q = w.start p ∧
      w.target p = step (w.target q) last := by
  obtain ⟨last, hlast⟩ := Path.components_of_parent? h
  have hstart : w.start q = w.start p := start_eq_of_home rfl (Path.of_parent?_eq_some h).1
  refine ⟨last, hlast, hstart, ?_⟩
  rw [target_eq_foldl_components, target_eq_foldl_components, hlast, hstart, List.foldl_append,
    List.foldl_cons, List.foldl_nil]

end Workspace

namespace Path

/-- Segments with a slash behind each. -/
def closeSegments (segments : List Text) : Text :=
  segments.flatMap fun s => s ++ ['/']

theorem joinSegments_concat (segments : List Text) (name : Text) :
    joinSegments (segments ++ [name]) = closeSegments segments ++ name := by
  induction segments with
  | nil => rfl
  | cons s ss ih =>
    have hcons : joinSegments (s :: (ss ++ [name])) = s ++ '/' :: joinSegments (ss ++ [name]) := by
      cases ss <;> rfl
    rw [List.cons_append, hcons, ih]
    simp [closeSegments]

theorem closeSegments_isPrefix {segments segments' : List Text} (h : segments <+: segments') :
    closeSegments segments <+: closeSegments segments' := by
  obtain ⟨more, rfl⟩ := h
  rw [closeSegments, closeSegments, List.flatMap_append]
  exact List.prefix_append ..

end Path

namespace Config

/-- The path to a configuration in a directory. -/
def fileIn (dir : Path) : Path :=
  dir.join (.ofText fileName)

/-- The path to a repository mark in a directory. -/
def markIn (dir : Path) : Path :=
  dir.join (.ofText repositoryMark)

/-- Whether a directory ends the search: it holds a configuration or a repository mark. -/
def endsSearch (w : Workspace) (dir : Path) : Bool :=
  w.hasNode (fileIn dir) || w.hasNode (markIn dir)

/-- The first directory that ends the search decides it. -/
theorem search?_eq_find? (w : Workspace) (dir : Path) :
    search? w dir =
      ((dir :: dir.pathsAbove).find? (endsSearch w)).bind fun found =>
        if w.hasNode (fileIn found) then some (fileIn found) else none := by
  induction dir using Path.inductionOn_parent? with
  | none dir hnone =>
    rw [search?_eq_bind, ← fileIn, ← markIn, hnone, Path.pathsAbove_of_eq_none hnone]
    cases hfile : w.hasNode (fileIn dir) <;>
      cases hmark : w.hasNode (markIn dir) <;> simp [endsSearch, hfile, hmark]
  | some dir above habove ih =>
    rw [search?_eq_bind, ← fileIn, ← markIn, habove, Path.pathsAbove_of_eq_some habove]
    cases hfile : w.hasNode (fileIn dir) <;>
      cases hmark : w.hasNode (markIn dir) <;> simp [endsSearch, hfile, hmark, ih]

section lookup

variable {w : Workspace} {root dir : Path} {name : Text}

/-- What is looked up in a directory stands at the location that the directory's path leads to. -/
theorem hasNode_join (hname : Path.IsName name) (hslash : '/' ∉ name)
    (hshort : Path.isLongName name = false)
    (hobstacle : Workspace.obstacle? ⟨dir.base ++ [name]⟩ = none)
    (hdir : ∃ loc, Workspace.follow w.tree (w.start dir) dir.base = .ok loc) :
    w.hasNode (dir.join (.ofText name)) = (w.tree.node? (w.target dir ++ [name])).isSome := by
  obtain ⟨loc, hloc⟩ := hdir
  have hstart : w.start ⟨dir.base ++ [name]⟩ = w.start dir :=
    Workspace.start_eq_of_home rfl (Path.isAbsolute_base_append dir name)
  have htarget : loc = w.target dir := by
    rw [Workspace.eq_foldl_of_follow hloc, ← hstart, Workspace.target_base]
  subst htarget
  rw [Path.ofText, Path.splitSegments_eq_singleton hslash, Path.join_name, Workspace.hasNode]
  congr 1
  apply Option.ext
  intro node
  rw [Workspace.node?_name_eq_some_iff hname, hstart]
  simp [hobstacle, hshort, hloc]

theorem isName_of_mem_searched (h : name ∈ searched) :
    Path.IsName name ∧ '/' ∉ name ∧ '\x00' ∉ name ∧ Path.isLongName name = false ∧
      Text.byteLength name ≤ Text.byteLength fileName := by
  simp only [searched, List.mem_cons, List.not_mem_nil, or_false] at h
  rcases h with rfl | rfl <;> decide

/-- What can be looked up in a directory can be looked up in those above it. -/
theorem obstacle?_of_base_isPrefix (hroot : w.isDirectory root)
    (hshort : (fileIn root).isLong = false) (hbegin : dir.base <+: root.base)
    (hname : name ∈ searched) : Workspace.obstacle? ⟨dir.base ++ [name]⟩ = none := by
  obtain ⟨hobstacle, -⟩ := Workspace.node?_eq_some_iff.1 (Workspace.isDirectory_iff.1 hroot)
  obtain ⟨hpossible, -, -⟩ := Workspace.obstacle?_eq_none_iff.1 hobstacle
  obtain ⟨hfile, hslash, hnull, -, hle⟩ := isName_of_mem_searched hname
  have htext : (⟨dir.base ++ [name]⟩ : Path).toText = Path.closeSegments dir.base ++ name :=
    Path.joinSegments_concat _ _
  refine Workspace.obstacle?_eq_none_iff.2 ⟨?_, ?_, ?_⟩
  · rw [Path.isImpossible, List.any_eq_false] at hpossible ⊢
    intro s hs
    rcases List.mem_append.1 hs with hs | hs
    · exact hpossible s ((Path.base_isPrefix root).subset (hbegin.subset hs))
    · obtain rfl := List.mem_singleton.1 hs
      rw [List.any_eq_true]
      rintro ⟨c, hc, hbad⟩
      rw [Bool.or_eq_true, decide_eq_true_iff, decide_eq_true_iff] at hbad
      rcases hbad with rfl | rfl
      · exact hnull hc
      · exact hslash hc
  · have hroottext : (fileIn root).toText = Path.closeSegments root.base ++ fileName := by
      rw [fileIn, Path.ofText, Path.splitSegments_eq_singleton (by decide), Path.join_name]
      exact Path.joinSegments_concat _ _
    have hlength := Path.byteLength_le_of_isPrefix (Path.closeSegments_isPrefix hbegin)
    rw [Path.isLong, decide_eq_false_iff_not, Nat.not_lt] at hshort ⊢
    rw [hroottext, Text.byteLength_append] at hshort
    rw [htext, Text.byteLength_append]
    omega
  · rw [Path.isEmpty, htext, List.isEmpty_eq_false_iff]
    exact List.append_ne_nil_of_right_ne_nil _ hfile.ne_nil

end lookup

/-- The nearest location at or above another one where a configuration stands. Nothing below it and
up to that other one holds a configuration or a repository mark. -/
structure IsNearest (t : FileTree) (loc found : Location) : Prop where
  above : found <+: loc
  config : (t.node? (found ++ [fileName])).isSome
  nearer : ∀ between, found <+: between → between <+: loc → between ≠ found →
    t.node? (between ++ [fileName]) = none ∧ t.node? (between ++ [repositoryMark]) = none

section walk

variable {w : Workspace} {root dir : Path}

/-- What lies at or above a place one step further is that place or lies at or above this one. -/
theorem eq_or_isPrefix_of_isPrefix_step {between loc : Location} {segment : Text}
    (h : between <+: Workspace.step loc segment) :
    between = Workspace.step loc segment ∨ between <+: loc := by
  unfold Workspace.step at h ⊢
  split
  · rename_i hstill
    rw [if_pos hstill] at h
    exact .inr h
  · rename_i hstill
    rw [if_neg hstill] at h
    split
    · rename_i hup
      rw [if_pos hup] at h
      exact .inr (h.trans (List.dropLast_prefix loc))
    · rename_i hup
      rw [if_neg hup] at h
      exact List.prefix_concat_iff.1 h

/-- Going on without `..` leads to no place above. -/
theorem isPrefix_foldl_step {segments : List Text} (h : ['.', '.'] ∉ segments) (loc : Location) :
    loc <+: segments.foldl Workspace.step loc := by
  induction segments generalizing loc with
  | nil => exact List.prefix_rfl
  | cons s ss ih =>
    rw [List.mem_cons, not_or] at h
    obtain ⟨hs, hss⟩ := h
    have hstep : loc <+: Workspace.step loc s := by
      unfold Workspace.step
      rw [if_neg (Ne.symm hs)]
      split
      · exact List.prefix_rfl
      · exact List.prefix_append ..
    exact hstep.trans (ih hss _)

theorem target_isPrefix_of_mem (w : Workspace) {found : Path}
    (h : found ∈ dir :: dir.pathsAbove)
    (hup : ['.', '.'] ∉ dir.components.drop found.components.length) :
    w.target found <+: w.target dir := by
  obtain ⟨-, ⟨passed, hpassed⟩, habsolute⟩ := Path.of_mem_pathsAbove h
  rw [← hpassed, List.drop_left] at hup
  rw [Workspace.target_eq_foldl_components w dir, Workspace.target_eq_foldl_components w found,
    ← hpassed, List.foldl_append, Workspace.start_eq_of_home rfl habsolute]
  exact isPrefix_foldl_step hup _

/-- The lookups in the directories of the search, by the locations that they lead to. -/
theorem hasNode_of_mem (hroot : w.isDirectory root) (hshort : (fileIn root).isLong = false)
    (hdir : dir ∈ root :: root.pathsAbove) {name : Text} (hname : name ∈ searched) :
    w.hasNode (dir.join (.ofText name)) = (w.tree.node? (w.target dir ++ [name])).isSome := by
  obtain ⟨hbase, -, habsolute⟩ := Path.of_mem_pathsAbove hdir
  obtain ⟨hfile, hslash, -, hlong, -⟩ := isName_of_mem_searched hname
  refine hasNode_join hfile hslash hlong (obstacle?_of_base_isPrefix hroot hshort hbase hname) ?_
  obtain ⟨-, loc, hloc, -⟩ := Workspace.node?_eq_some_iff.1 (Workspace.isDirectory_iff.1 hroot)
  rw [Workspace.start_eq_of_home rfl habsolute]
  exact Workspace.follow_of_isPrefix (hbase.trans (Path.base_isPrefix root)) ⟨loc, hloc⟩

/-- From the root to where it ends the search goes through every location in between. -/
theorem exists_passed_of_find? {test : Path → Bool} {found : Path}
    (hfound : (dir :: dir.pathsAbove).find? test = some found) {between : Location}
    (habove : w.target found <+: between) (hbelow : between <+: w.target dir)
    (hne : between ≠ w.target found) :
    ∃ passed ∈ dir :: dir.pathsAbove, test passed = false ∧ w.target passed = between := by
  induction dir using Path.inductionOn_parent? with
  | none dir hnone =>
    obtain rfl : found = dir := by
      have hmem := List.mem_of_find?_eq_some hfound
      rwa [Path.pathsAbove_of_eq_none hnone, List.mem_singleton] at hmem
    exact absurd (hbelow.eq_of_length_le habove.length_le) hne
  | some dir above hparent ih =>
    cases htest : test dir with
    | true =>
      rw [List.find?_cons_of_pos htest] at hfound
      obtain rfl := Option.some.inj hfound
      exact absurd (hbelow.eq_of_length_le habove.length_le) hne
    | false =>
      rw [List.find?_cons_of_neg (by simp [htest]), Path.pathsAbove_of_eq_some hparent] at hfound
      obtain ⟨last, -, -, hstep⟩ := Workspace.target_of_parent? (w := w) hparent
      rw [hstep] at hbelow
      rcases eq_or_isPrefix_of_isPrefix_step hbelow with rfl | hbelow
      · exact ⟨dir, List.mem_cons_self, htest, hstep⟩
      · obtain ⟨passed, hmem, hpassed⟩ := ih hfound hbelow
        refine ⟨passed, ?_, hpassed⟩
        rw [Path.pathsAbove_of_eq_some hparent]
        exact List.mem_cons_of_mem _ hmem

/-- The configuration that is found is the nearest one whenever it lies at or above the root. -/
theorem isNearest_iff_of_find? (hroot : w.isDirectory root)
    (hshort : (fileIn root).isLong = false) {found : Path}
    (hfound : (root :: root.pathsAbove).find? (endsSearch w) = some found)
    (hfile : w.hasNode (fileIn found)) :
    IsNearest w.tree (w.target root) (w.target found) ↔ w.target found <+: w.target root := by
  refine ⟨IsNearest.above, fun habove => ⟨habove, ?_, fun between hfrom hto hne => ?_⟩⟩
  · rwa [fileIn, hasNode_of_mem hroot hshort (List.mem_of_find?_eq_some hfound)
      fileName_mem_searched] at hfile
  · obtain ⟨passed, hmem, hends, rfl⟩ := exists_passed_of_find? hfound hfrom hto hne
    rw [endsSearch, fileIn, markIn, hasNode_of_mem hroot hshort hmem fileName_mem_searched,
      hasNode_of_mem hroot hshort hmem repositoryMark_mem_searched] at hends
    simpa using hends

/-- The search looks at a bounded number of directories, the first that holds a configuration or a
repository mark decides it, and what it finds is the nearest configuration whenever it lies at or
above the root. It does unless the search has left out a component that leads up. -/
theorem isNearest_search?_iff (hroot : w.isDirectory root) :
    (root :: root.pathsAbove).length ≤ root.components.length + 1 ∧
      search? w root =
        (((root :: root.pathsAbove).find? (endsSearch w)).bind fun found =>
          if w.hasNode (fileIn found) then some (fileIn found) else none) ∧
      ∀ file, search? w root = some file → (fileIn root).isLong = false →
        ∃ found ∈ root :: root.pathsAbove,
          file = fileIn found ∧ w.target file = w.target found ++ [fileName] ∧
          (IsNearest w.tree (w.target root) (w.target found) ↔
            w.target found <+: w.target root) ∧
          (['.', '.'] ∉ root.components.drop found.components.length →
            w.target found <+: w.target root) := by
  refine ⟨Nat.succ_le_succ (Path.length_pathsAbove_le root), search?_eq_find? w root, ?_⟩
  intro file hfile hshort
  rw [search?_eq_find?, Option.bind_eq_some_iff] at hfile
  obtain ⟨found, hfound, hfile⟩ := hfile
  split at hfile
  · rename_i hnode
    obtain rfl := Option.some.inj hfile
    have hmem := List.mem_of_find?_eq_some hfound
    have htarget : w.target (fileIn found) = w.target found ++ [fileName] := by
      rw [fileIn, Path.ofText, Path.splitSegments_eq_singleton (by decide), Path.join_name]
      exact Workspace.target_base_name (by decide) w found
    exact ⟨found, hmem, rfl, htarget, isNearest_iff_of_find? hroot hshort hfound hnode,
      target_isPrefix_of_mem w hmem⟩
  · cases hfile

/-- The configuration of the directory above holds for a directory without one. -/
theorem isNearest_search?_iff_one_above :
    let w : Workspace := ⟨.ofEntries [(["a".toList, fileName], .file (.text [])),
      (["a".toList, "b".toList, "t".toList], .file (.text []))], []⟩
    let root : Path := .ofText "a/./b".toList
    w.isDirectory root ∧ search? w root = some (.ofText "a/.l10nrc.json".toList) ∧
      IsNearest w.tree (w.target root) ["a".toList] := by
  intro w root
  have hroot : w.isDirectory root := by decide +kernel
  have hsearch : search? w root = some (.ofText "a/.l10nrc.json".toList) := by decide +kernel
  obtain ⟨-, -, h⟩ := isNearest_search?_iff hroot
  obtain ⟨found, -, -, htarget, hnearest, hup⟩ := h _ hsearch (by decide +kernel)
  have hfound : w.target (.ofText "a/.l10nrc.json".toList) = ["a".toList] ++ [fileName] := by
    decide +kernel
  rw [hfound] at htarget
  rw [← List.append_cancel_right htarget] at hnearest hup
  have hroot' : ['.', '.'] ∉ root.components := by decide +kernel
  exact ⟨hroot, hsearch, hnearest.2 (hup fun hmem => hroot' (List.mem_of_mem_drop hmem))⟩

/-- A root whose path leads up again gets the configuration of a directory below it. -/
theorem not_isNearest_search? :
    let w : Workspace := ⟨.ofEntries [(["a".toList, fileName], .file (.text []))], []⟩
    let root : Path := .ofText "a/..".toList
    w.isDirectory root ∧ search? w root = some (.ofText "a/.l10nrc.json".toList) ∧
      w.target (.ofText "a/.l10nrc.json".toList) = ["a".toList] ++ [fileName] ∧
      ¬ ["a".toList] <+: w.target root := by
  exact ⟨by decide +kernel, by decide +kernel, by decide +kernel, by decide +kernel⟩

end walk

end Config

end CatalogueSync
