import CatalogueSync.Proofs.Workspace.Creation
import Mathlib.Data.List.TakeWhile

/-!
# Room for files

There is room for a file at a path when its directory is there, its name can be a name, and no
directory stands in its place. Writing cannot fail there (`Workspace.HasRoom.exists_write`) and
takes the room of no other file (`Workspace.HasRoom.of_write`).
-/

set_option autoImplicit false

namespace CatalogueSync

namespace Path

/-- A part of a path is written out in a part of its text. -/
theorem joinSegments_isPrefix {segments segments' : List Text} (h : segments <+: segments') :
    joinSegments segments <+: joinSegments segments' := by
  obtain ⟨more, rfl⟩ := h
  induction segments with
  | nil => exact List.nil_prefix
  | cons s ss ih =>
    cases ss with
    | nil =>
      cases more with
      | nil => exact List.prefix_rfl
      | cons t ts => exact List.prefix_append ..
    | cons t ts => exact (List.prefix_append_right_inj s).2 ((List.prefix_cons_inj '/').2 ih)

theorem byteLength_le_of_isPrefix {s t : Text} (h : s <+: t) : s.byteLength ≤ t.byteLength := by
  obtain ⟨more, rfl⟩ := h
  rw [Text.byteLength_append]
  exact Nat.le_add_right ..

end Path

namespace Workspace

/-- A path ends in a name, its directory is there, and no directory stands at its end. -/
def HasRoom (w : Workspace) (p : Path) : Prop :=
  obstacle? p = none ∧ ∃ base name dir, p = ⟨base ++ [name]⟩ ∧ Path.IsName name ∧
    Path.isLongName name = false ∧ follow w.tree (w.start p) base = .ok dir ∧
    w.tree.node? dir = some .directory ∧ w.tree.node? (dir ++ [name]) ≠ some .directory

variable {w w' : Workspace} {p q : Path} {base : List Text} {name : Text} {dir : Location}

theorem obstacle?_eq_none_iff :
    obstacle? p = none ↔ p.isImpossible = false ∧ p.isLong = false ∧ p.isEmpty = false := by
  unfold obstacle?
  cases p.isImpossible <;> cases p.isLong <;> cases p.isEmpty <;> simp

theorem obstacle?_of_isPrefix (h : obstacle? p = none) (hbegin : q.segments <+: p.segments)
    (hne : q.isEmpty = false) : obstacle? q = none := by
  obtain ⟨hpossible, hshort, -⟩ := obstacle?_eq_none_iff.1 h
  refine obstacle?_eq_none_iff.2 ⟨?_, ?_, hne⟩
  · rw [Path.isImpossible, List.any_eq_false] at hpossible ⊢
    exact fun s hs => hpossible s (hbegin.subset hs)
  · rw [Path.isLong, decide_eq_false_iff_not, Nat.not_lt] at hshort ⊢
    exact (Path.byteLength_le_of_isPrefix (Path.joinSegments_isPrefix hbegin)).trans hshort

/-- A name at the end of a path that can be followed is one that a file can have. -/
theorem isEntryName_of_obstacle? (h : obstacle? ⟨base ++ [name]⟩ = none)
    (hname : Path.IsName name) : Path.IsEntryName name := by
  obtain ⟨hpossible, -, -⟩ := obstacle?_eq_none_iff.1 h
  rw [Path.isImpossible, List.any_eq_false] at hpossible
  refine ⟨hname, fun hslash => hpossible name (by simp) ?_⟩
  exact List.any_eq_true.2 ⟨'/', hslash, by simp⟩

/-- Segments that are no names lead nowhere else. -/
theorem eq_of_follow_of_still {t : FileTree} {loc : Location} {segments : List Text}
    (h : follow t loc segments = .ok dir) (hstill : ∀ s ∈ segments, Path.isStill s = true) :
    dir = loc := by
  rw [eq_foldl_of_follow h]
  clear h
  induction segments with
  | nil => rfl
  | cons s ss ih =>
    obtain ⟨hs, hss⟩ := List.forall_mem_cons.1 hstill
    rw [List.foldl_cons, step, if_pos hs, ih hss]

theorem follow_of_still {t : FileTree} {loc : Location} {segments : List Text}
    (hloc : t.node? loc = some .directory) (hstill : ∀ s ∈ segments, Path.isStill s = true) :
    follow t loc segments = .ok loc := by
  induction segments with
  | nil => rfl
  | cons s ss ih =>
    obtain ⟨hs, hss⟩ := List.forall_mem_cons.1 hstill
    have hshort : Path.isLongName s = false := by
      simp only [Path.isStill, Bool.or_eq_true, decide_eq_true_iff] at hs
      rcases hs with rfl | rfl <;> decide
    simp [follow, hloc, hshort, step, hs, ih hss]

theorem exists_namedSegments_append (p : Path) :
    ∃ rest, p.segments = namedSegments p ++ rest ∧ ∀ s ∈ rest, Path.isStill s = true := by
  refine ⟨(p.segments.reverse.takeWhile List.isEmpty).reverse, ?_, ?_⟩
  · rw [namedSegments, ← List.reverse_append, List.takeWhile_append_dropWhile,
      List.reverse_reverse]
  · intro s hs
    have hempty := List.mem_takeWhile_imp (List.mem_reverse.1 hs)
    simp [Path.isStill, List.isEmpty_iff.1 hempty]

/-- A directory that is there cannot be made. -/
theorem makeDirectory_of_isDirectory (h : w.isDirectory p) :
    w.makeDirectory p = .error .alreadyExists := by
  obtain ⟨hobstacle, loc, hfollow, hdirectory⟩ := node?_eq_some_iff.1 (isDirectory_iff.1 h)
  unfold makeDirectory locateName
  rw [hobstacle]
  cases hlast : (namedSegments p).getLast? with
  | none => rfl
  | some name =>
    obtain ⟨rest, hsegments, hstill⟩ := exists_namedSegments_append p
    obtain ⟨above, habove⟩ := List.getLast?_eq_some_iff.1 hlast
    rw [hsegments, follow_append_eq_ok_iff] at hfollow
    obtain ⟨middle, hmiddle, hrest⟩ := hfollow
    obtain rfl := eq_of_follow_of_still hrest hstill
    rw [habove] at hmiddle
    obtain ⟨dir, hdir, hdirectory', hshort, rfl⟩ := follow_concat_eq_ok_iff.1 hmiddle
    simp only [habove, List.dropLast_concat, reach_eq_follow, hdir, hdirectory', hshort,
      Bool.false_eq_true, if_false]
    split
    · rename_i hname
      rw [step_name hname.1] at hdirectory
      have hmake : w.tree.makeDirectory dir name hname = .error .alreadyExists := by
        unfold FileTree.makeDirectory
        split
        · simp_all
        · simp_all
        · rw [hdirectory]
          rfl
      rw [hmake]
      rfl
    · rfl

theorem makeDirectories_of_isDirectory (h : w.isDirectory p) :
    w.makeDirectories p = (w, .ok ()) := by
  rw [makeDirectories, makeDirectory_of_isDirectory h]
  simp [h]

theorem isDirectory_directoryOf (hname : Path.IsName name)
    (hobstacle : obstacle? ⟨base ++ [name]⟩ = none)
    (hfollow : follow w.tree (w.start ⟨base ++ [name]⟩) base = .ok dir)
    (hdirectory : w.tree.node? dir = some .directory) :
    w.isDirectory (directoryOf ⟨base ++ [name]⟩) := by
  obtain ⟨hne, habsolute, hsegments⟩ := of_directoryOf hname base
  rw [← start_eq_of_home rfl habsolute] at hfollow
  have hstart : w.tree.node? (w.start (directoryOf ⟨base ++ [name]⟩)) = some .directory :=
    isDirectory_of_leadsThrough hfollow hdirectory ⟨[], List.nil_prefix, rfl⟩
  apply isDirectory_iff.2
  apply node?_eq_some_iff.2
  rcases hsegments with hbegin | hhere | htop
  · refine ⟨obstacle?_of_isPrefix hobstacle (hbegin.trans (List.prefix_append ..)) hne, ?_⟩
    obtain ⟨loc, hloc⟩ := follow_of_isPrefix hbegin ⟨dir, hfollow⟩
    exact ⟨loc, hloc, isDirectory_of_leadsThrough hfollow hdirectory
      ⟨_, hbegin, eq_foldl_of_follow hloc⟩⟩
  · rw [hhere] at hstart ⊢
    exact ⟨by decide, _, follow_of_still hstart (by simp [Path.here, Path.isStill]), hstart⟩
  · rw [htop] at hstart ⊢
    exact ⟨by decide, _, follow_of_still hstart (by simp [Path.isStill]), hstart⟩

theorem HasRoom.exists_write (h : w.HasRoom p) (contents : Text) :
    ∃ w', w.write p contents = (w', .ok ()) := by
  obtain ⟨hobstacle, base, name, dir, rfl, hname, hshort, hfollow, hdirectory, hfile⟩ := h
  have hlocate : w.locateName ⟨base ++ [name]⟩ = .ok (dir, name) := by
    unfold locateName
    rw [hobstacle, namedSegments_name hname]
    simp [reach_eq_follow, hfollow, hdirectory, hshort]
  have hentry := isEntryName_of_obstacle? hobstacle hname
  obtain ⟨t, ht⟩ := FileTree.exists_putFile hentry hdirectory hfile (.text contents)
  refine ⟨{ w with tree := t }, ?_⟩
  unfold write replaceFile
  rw [makeDirectories_of_isDirectory (isDirectory_directoryOf hname hobstacle hfollow hdirectory)]
  simp [hlocate, hentry, hname.ne_nil, ht, Except.map]

/-- Writing where there is room makes no directory. -/
theorem HasRoom.of_write {contents : Text} (h : w.HasRoom p) (h' : w.HasRoom q)
    (hwrite : w.write p contents = (w', .ok ())) : w'.HasRoom q := by
  obtain ⟨-, base, name, dir, rfl, -, -, hfollow, hdirectory, -⟩ := h
  obtain ⟨base', name', dir', hpath, -, hwritten⟩ := exists_written_of_write hwrite
  obtain ⟨rfl, hname⟩ := List.append_inj' (Path.mk.inj hpath) rfl
  obtain rfl := (List.cons.inj hname).1
  obtain ⟨hobstacle, other, last, loc, rfl, hlast, hshort, hfollow', hdirectory', hfile⟩ := h'
  refine ⟨hobstacle, other, last, loc, rfl, hlast, hshort, ?_, ?_, ?_⟩
  · rw [start_eq_of_home hwritten.home rfl]
    exact follow_of_keepsDirectories hwritten.keepsDirectories hfollow'
  · exact hwritten.keepsDirectories loc hdirectory'
  · intro hnew
    rcases hwritten.isDirectory_iff.1 hnew with hold | hthrough
    · exact hfile hold
    · exact hfile (isDirectory_of_leadsThrough hfollow hdirectory hthrough)

end Workspace

end CatalogueSync
