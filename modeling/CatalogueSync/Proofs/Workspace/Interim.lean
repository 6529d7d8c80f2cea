import CatalogueSync.Proofs.Workspace.Comparison
import CatalogueSync.Proofs.Workspace.Creation
import CatalogueSync.Proofs.Workspace.Listing
import CatalogueSync.Proofs.Workspace.Room
import Mathlib.Data.Fintype.EquivFin

/-!
# Writing through an interim file

A text is never written over the old one. It is put in an interim file beside it, which is then
moved to the path, or removed if it cannot be moved (`Workspace.writeThrough`). Whatever name the
interim file has, as long as the name is new there and no part of the path, nothing of it is left:
what there is to see and the answer are those of a write in one step
(`Workspace.view_writeThrough`).
-/

set_option autoImplicit false

namespace CatalogueSync

namespace FileTree

/-- A tree without the file at a location. -/
def removeFile (t : FileTree) (loc : Location) : FileTree :=
  match h : t.node? loc with
  | some (.file _) =>
    { nodes := t.nodes.erase loc
      named := fun loc' hmem => t.named loc' (Std.TreeMap.mem_of_mem_erase hmem)
      closed := by
        intro dir name hmem
        refine (t.closed dir name (Std.TreeMap.mem_of_mem_erase hmem)).imp_right fun hdir => ?_
        rw [Std.TreeMap.getElem?_erase, if_neg, hdir]
        rw [Std.LawfulEqCmp.compare_eq_iff_eq]
        rintro rfl
        unfold node? at h
        split at h
        · cases h
        · rw [hdir] at h
          cases h }
  | _ => t

variable {t : FileTree} {loc : Location} {contents : Contents}

theorem node?_removeFile (h : t.node? loc = some (.file contents)) (loc' : Location) :
    (t.removeFile loc).node? loc' = if loc' = loc then none else t.node? loc' := by
  have hne : loc ≠ [] := by
    rintro rfl
    cases h
  have hremove : (t.removeFile loc).nodes = t.nodes.erase loc := by
    unfold removeFile
    split
    · rfl
    · simp_all
  unfold node?
  rw [hremove, Std.TreeMap.getElem?_erase]
  simp only [Std.LawfulEqCmp.compare_eq_iff_eq]
  by_cases heq : loc' = loc
  · simp [heq, hne]
  · simp [heq, Ne.symm heq]

end FileTree

namespace Workspace

/-- Moves the file at a location to a path, in the place of whatever file is there. -/
def moveFile (w : Workspace) (source : Location) (p : Path) : Except IoError Workspace :=
  match w.locateName p, w.tree.node? source with
  | .error .impossibleName, _ => .error .invalidTarget
  | .error e, _ => .error e
  | .ok (dir, name), some (.file contents) =>
    if hname : Path.IsEntryName name then
      if p.segments.getLast? = some [] then .error .notADirectory
      else
        ((w.tree.removeFile source).putFile dir name contents hname).map fun t =>
          { w with tree := t }
    else .error .busy
  | .ok _, _ => .error .notFound

/-- The name of an interim file. -/
abbrev InterimName :=
  { name : Text // Path.IsEntryName name }

/-- Puts a text in the place of the file at a path by way of an interim file beside it. -/
def replaceThrough (interim : InterimName) (w : Workspace) (p : Path) (contents : Text) :
    Workspace × Except IoError Unit :=
  let dir := w.target (directoryOf p)
  match w.tree.putFile dir interim.1 (.text contents) interim.2 with
  | .error e => (w, .error e)
  | .ok t =>
    match moveFile { w with tree := t } (dir ++ [interim.1]) p with
    | .error e => ({ w with tree := t.removeFile (dir ++ [interim.1]) }, .error e)
    | .ok w' => (w', .ok ())

/-- Writes a text to a path, making the directories above it, by way of an interim file. -/
def writeThrough (interim : InterimName) (w : Workspace) (p : Path) (contents : Text) :
    Workspace × Except WriteError Unit :=
  match w.makeDirectories (directoryOf p) with
  | (w', .error e) => (w', .error (.createDirectory (directoryOf p) e))
  | (w', .ok ()) =>
    match w'.replaceThrough interim p contents with
    | (w'', .error e) => (w'', .error (.replaceFile p e))
    | (w'', .ok ()) => (w'', .ok ())

/-- Writes a text to a path by way of an interim file unless it is there already. -/
def writeIfChangedThrough (interim : InterimName) (w : Workspace) (p : Path) (contents : Text) :
    Workspace × Except WriteError Bool :=
  if w.wouldChange p contents then
    match w.writeThrough interim p contents with
    | (w', .ok ()) => (w', .ok true)
    | (w', .error e) => (w', .error e)
  else (w, .ok false)

/-- A name that an interim file for a path can have: it is new in the directory and no part of the
path. -/
def IsFreeBeside (w : Workspace) (p : Path) (interim : InterimName) : Prop :=
  interim.1 ∉ p.segments ∧
    (w.makeDirectories (directoryOf p)).1.tree.node?
      (w.target (directoryOf p) ++ [interim.1]) = none

section follow

variable {t t' : FileTree} {start loc dir : Location} {segments : List Text} {interim : Text}

theorem foldl_step {P : Location → Prop}
    (hstep : ∀ loc, ∀ s ∈ segments, P loc → P (step loc s)) (hstart : P start) :
    P (segments.foldl step start) := by
  induction segments generalizing start with
  | nil => exact hstart
  | cons s ss ih =>
    exact ih (fun loc s hs => hstep loc s (List.mem_cons_of_mem _ hs))
      (hstep start s List.mem_cons_self hstart)

/-- Segments other than its name do not lead to what has a name. -/
theorem not_isPrefix_step (h : ¬ dir ++ [interim] <+: loc) {segment : Text}
    (hne : segment ≠ interim) : ¬ dir ++ [interim] <+: step loc segment := by
  unfold step
  split
  · exact h
  · split
    · exact fun hbegin => h (hbegin.trans (List.dropLast_prefix loc))
    · intro hbegin
      rcases List.prefix_concat_iff.1 hbegin with heq | hbegin
      · exact hne (List.cons.inj (List.append_inj' heq rfl).2).1.symm
      · exact h hbegin

end follow

section made

variable {w w' : Workspace} {p : Path}

/-- What was made is there. -/
theorem isDirectory_of_makeDirectory (h : w.makeDirectory p = .ok w') : w'.isDirectory p := by
  obtain ⟨dir, name, t, hname, hlocate, hmake, rfl⟩ := of_makeDirectory h
  obtain ⟨hobstacle, hshort, above, habove, hfollow, hdir⟩ := of_locateName hlocate hname
  obtain ⟨hnone, hnode⟩ := node?_of_makeDirectory hmake
  have hkeeps : w.tree.KeepsDirectories t := by
    intro loc hloc
    rw [hnode]
    split
    · rfl
    · exact hloc
  obtain ⟨rest, hsegments, hstill⟩ := exists_namedSegments_append p
  have hthere : t.node? (dir ++ [name]) = some .directory := by rw [hnode, if_pos rfl]
  rw [isDirectory_iff, node?_eq_some_iff]
  refine ⟨hobstacle, dir ++ [name], ?_, hthere⟩
  rw [hsegments, habove, follow_append_eq_ok_iff]
  refine ⟨dir ++ [name], follow_concat_eq_ok_iff.2 ⟨dir, ?_, hkeeps dir hdir, hshort,
    step_name hname.1 dir⟩, follow_of_still hthere hstill⟩
  exact follow_of_keepsDirectories hkeeps hfollow

theorem isDirectory_of_makeLastDirectory (h : w.makeLastDirectory p = (w', .ok ())) :
    w'.isDirectory p := by
  unfold makeLastDirectory at h
  split at h
  · rename_i hmake
    exact (Prod.mk.inj h).1 ▸ isDirectory_of_makeDirectory hmake
  · split at h
    · rename_i hdir
      exact (Prod.mk.inj h).1 ▸ hdir
    · cases (Prod.mk.inj h).2

theorem isDirectory_of_makeDirectories (h : w.makeDirectories p = (w', .ok ()))
    (hne : p.isEmpty = false) : w'.isDirectory p := by
  rw [makeDirectories, if_neg (by simp [hne])] at h
  split at h
  · rename_i hmake
    exact (Prod.mk.inj h).1 ▸ isDirectory_of_makeDirectory hmake
  · split at h
    · cases (Prod.mk.inj h).2
    · split at h
      · exact isDirectory_of_makeLastDirectory h
      · cases (Prod.mk.inj h).2
  · split at h
    · rename_i hdir
      exact (Prod.mk.inj h).1 ▸ hdir
    · cases (Prod.mk.inj h).2

end made

section through

variable {w w' : Workspace} {p : Path} {contents name : Text} {dir : Location}
  {t t' : FileTree} {interim : InterimName}

theorem isEmpty_directoryOf (p : Path) : (directoryOf p).isEmpty = false := by
  unfold directoryOf
  split
  · split
    · rfl
    · rename_i hne
      exact Bool.eq_false_iff.2 hne
  · rfl

theorem isAbsolute_directoryOf (h : p.isAbsolute = false) :
    (directoryOf p).isAbsolute = false := by
  unfold directoryOf
  split
  · rename_i above habove
    split
    · rfl
    · exact (Path.of_parent?_eq_some habove).1.trans h
  · rfl

/-- Nothing that is new in the directory of a path lies on the way to where it starts. -/
theorem not_isPrefix_start (hdir : w.isDirectory (directoryOf p))
    (hfree : w.tree.node? (dir ++ [name]) = none) : ¬ dir ++ [name] <+: w.start p := by
  intro hbegin
  cases habsolute : p.isAbsolute with
  | true =>
    rw [start, habsolute, if_pos rfl, List.prefix_nil] at hbegin
    simp at hbegin
  | false =>
    obtain ⟨-, loc, hfollow, -⟩ := node?_eq_some_iff.1 (isDirectory_iff.1 hdir)
    have hsegments : (directoryOf p).segments ≠ [] := by
      intro hnil
      have hne := isEmpty_directoryOf p
      rw [Path.isEmpty, Path.toText, hnil] at hne
      cases hne
    have hhome := node?_of_follow hfollow hsegments
    rw [start, isAbsolute_directoryOf habsolute] at hhome
    rw [start, habsolute] at hbegin
    obtain ⟨more, hmore⟩ := hbegin
    rw [← hmore] at hhome
    rw [FileTree.node?_of_node?_append_append hhome] at hfree
    cases hfree

/-- A path without its name leads where it led, whatever has that name. -/
theorem locateName_eq (hdir : w.isDirectory (directoryOf p))
    (hfree : w.tree.node? (dir ++ [name]) = none) (hname : name ∉ p.segments)
    (hagree : ∀ loc, loc ≠ dir ++ [name] → t.node? loc = w.tree.node? loc) :
    locateName { w with tree := t } p = w.locateName p := by
  have hstart := not_isPrefix_start hdir hfree
  have hagree' : ∀ loc, ¬ dir ++ [name] <+: loc → t.node? loc = w.tree.node? loc := by
    intro loc hloc
    apply hagree
    rintro rfl
    exact hloc List.prefix_rfl
  have hstep : ∀ loc, ∀ s ∈ (namedSegments p).dropLast, ¬ dir ++ [name] <+: loc →
      ¬ dir ++ [name] <+: step loc s := by
    intro loc s hs hloc
    apply not_isPrefix_step hloc
    rintro rfl
    exact hname ((namedSegments_isPrefix p).subset (List.dropLast_subset _ hs))
  have hfollow := follow_congr hagree' hstep hstart
  have hstart' : start { w with tree := t } p = w.start p := rfl
  unfold locateName
  simp only [reach_eq_follow, hstart', hfollow]
  cases hfound : follow w.tree (w.start p) (namedSegments p).dropLast with
  | error e => rfl
  | ok found =>
    have hnode : t.node? found = w.tree.node? found := by
      rw [eq_foldl_of_follow hfound]
      exact hagree' _ (foldl_step hstep hstart)
    simp only [hnode]

theorem putFile_of_isDirectory {c : Contents} (hname : Path.IsEntryName name)
    (hdir : t.node? dir = some .directory)
    (hfile : t.node? (dir ++ [name]) = some .directory) :
    t.putFile dir name c hname = .error .isADirectory := by
  unfold FileTree.putFile
  split
  · simp_all
  · simp_all
  · exact dif_pos hfile

/-- Putting a file where it is put in a tree with the same nodes makes the same nodes. -/
theorem map_putFile_congr (hagree : ∀ loc, t'.node? loc = t.node? loc)
    (hdir : t.node? dir = some .directory) (hname : Path.IsEntryName name) (c : Contents) :
    (t'.putFile dir name c hname).map FileTree.node? =
      (t.putFile dir name c hname).map FileTree.node? := by
  by_cases hfile : t.node? (dir ++ [name]) = some .directory
  · rw [putFile_of_isDirectory hname hdir hfile,
      putFile_of_isDirectory hname ((hagree _).trans hdir) ((hagree _).trans hfile)]
  · obtain ⟨u, hu⟩ := FileTree.exists_putFile hname hdir hfile c
    obtain ⟨u', hu'⟩ := FileTree.exists_putFile hname ((hagree _).trans hdir)
      (fun h => hfile ((hagree _).symm.trans h)) c
    rw [hu, hu']
    refine congrArg Except.ok (funext fun loc => ?_)
    rw [(node?_of_putFile hu).2, (node?_of_putFile hu').2, hagree]

/-- A new file that is removed again leaves a tree as it was. -/
theorem node?_removeFile_of_putFile {c : Contents} {hname : Path.IsEntryName name}
    (hfree : t.node? (dir ++ [name]) = none) (hput : t.putFile dir name c hname = .ok t')
    (loc : Location) : (t'.removeFile (dir ++ [name])).node? loc = t.node? loc := by
  obtain ⟨-, hnode⟩ := node?_of_putFile hput
  have hthere : t'.node? (dir ++ [name]) = some (.file c) := by rw [hnode, if_pos rfl]
  rw [FileTree.node?_removeFile hthere, hnode]
  split
  · rename_i heq
    rw [heq, hfree]
  · rfl

/-- A file that is moved to a path takes the place that a text takes that is put there. -/
theorem map_moveFile (hdir : w.isDirectory (directoryOf p))
    (hfree : w.tree.node? (dir ++ [interim.1]) = none) (hinterim : interim.1 ∉ p.segments)
    (hput : w.tree.putFile dir interim.1 (.text contents) interim.2 = .ok t) :
    (moveFile { w with tree := t } (dir ++ [interim.1]) p).map view =
      (w.replaceFile p contents).map view := by
  obtain ⟨-, hnode⟩ := node?_of_putFile hput
  have hsource : t.node? (dir ++ [interim.1]) = some (.file (.text contents)) := by
    rw [hnode, if_pos rfl]
  have hlocate := locateName_eq hdir hfree hinterim fun loc hloc => by rw [hnode, if_neg hloc]
  unfold moveFile replaceFile
  rw [hlocate]
  simp only [hsource]
  cases hname : w.locateName p with
  | error e => cases e <;> rfl
  | ok found =>
    obtain ⟨above, last⟩ := found
    dsimp only
    split
    · rename_i hlast
      split
      · rfl
      · obtain ⟨-, -, -, -, -, habove⟩ := of_locateName hname hlast
        have hagree := node?_removeFile_of_putFile hfree hput
        have hmap := map_putFile_congr hagree habove hlast (.text contents)
        revert hmap
        cases (t.removeFile (dir ++ [interim.1])).putFile above last (.text contents) hlast <;>
          cases w.tree.putFile above last (.text contents) hlast <;>
          simp [Except.map, view]
    · rfl

theorem view_replaceThrough (hdir : w.isDirectory (directoryOf p))
    (hfree : w.tree.node? (w.target (directoryOf p) ++ [interim.1]) = none)
    (hinterim : interim.1 ∉ p.segments) (contents : Text) :
    (w.replaceThrough interim p contents).map view id =
      match w.replaceFile p contents with
      | .error e => (w.view, .error e)
      | .ok w' => (w'.view, .ok ()) := by
  have habove := node?_target (isDirectory_iff.1 hdir)
  obtain ⟨t, hput⟩ := FileTree.exists_putFile interim.2 habove
    (fun h => by rw [hfree] at h; cases h) (.text contents)
  have hmove := map_moveFile hdir hfree hinterim hput
  have hremove : view { w with tree := t.removeFile (w.target (directoryOf p) ++ [interim.1]) } =
      w.view :=
    congrArg (w.home, ·) (funext (node?_removeFile_of_putFile hfree hput))
  unfold replaceThrough
  simp only [hput]
  revert hmove
  cases moveFile { w with tree := t } (w.target (directoryOf p) ++ [interim.1]) p <;>
    cases w.replaceFile p contents <;> simp [Except.map, hremove]

/-- Nothing is left of an interim file: a text is written through it as in one step. -/
theorem view_writeThrough (h : w.IsFreeBeside p interim) (contents : Text) :
    (w.writeThrough interim p contents).map view id = (w.write p contents).map view id := by
  obtain ⟨hinterim, hfree⟩ := h
  have hhome := (madeAlong_makeDirectories w (directoryOf p)).home
  unfold writeThrough write
  cases hmake : w.makeDirectories (directoryOf p) with
  | mk w' result =>
    rw [hmake] at hfree hhome
    rw [← target_eq_of_home hhome] at hfree
    cases result with
    | error e => rfl
    | ok _ =>
      have hreplace := view_replaceThrough
        (isDirectory_of_makeDirectories hmake (isEmpty_directoryOf p)) hfree hinterim contents
      dsimp only
      revert hreplace
      rcases w'.replaceThrough interim p contents with ⟨w'', _ | _⟩ <;>
        cases w'.replaceFile p contents <;> simp +contextual

theorem view_writeIfChangedThrough (h : w.IsFreeBeside p interim) (contents : Text) :
    (w.writeIfChangedThrough interim p contents).map view id =
      (w.writeIfChanged p contents).map view id := by
  unfold writeIfChangedThrough writeIfChanged
  split
  · have hwrite := view_writeThrough h contents
    revert hwrite
    rcases w.writeThrough interim p contents with ⟨w', _ | _⟩ <;>
      rcases w.write p contents with ⟨w'', _ | _⟩ <;> simp +contextual
  · rfl

theorem isEntryName_replicate (n : Nat) : Path.IsEntryName (List.replicate (n + 1) '~') := by
  simp [Path.IsEntryName, Path.IsName, Path.isStill, List.replicate_succ]

instance : Infinite InterimName := by
  refine .of_injective (fun n : Nat => ⟨List.replicate (n + 1) '~', isEntryName_replicate n⟩) ?_
  intro m n h
  simpa using congrArg (fun name : InterimName => name.1.length) h

/-- There is a name for an interim file whatever stands in the tree. -/
theorem exists_isFreeBeside (w : Workspace) (p : Path) : ∃ interim, w.IsFreeBeside p interim := by
  let t := (w.makeDirectories (directoryOf p)).1.tree
  let taken := p.segments ++ t.entries.filterMap fun e => e.1.getLast?
  obtain ⟨interim, hnew⟩ := Infinite.exists_notMem_finset (taken.toFinset.subtype Path.IsEntryName)
  rw [Finset.mem_subtype, List.mem_toFinset, List.mem_append, not_or] at hnew
  refine ⟨interim, hnew.1, ?_⟩
  cases hnode : t.node? (w.target (directoryOf p) ++ [interim.1]) with
  | none => rfl
  | some node =>
    have hmem := FileTree.mem_entries_iff.2 ⟨by simp, hnode⟩
    exact absurd (List.mem_filterMap.2 ⟨_, hmem, by simp⟩) hnew.2

end through

end Workspace

end CatalogueSync
