import CatalogueSync.Proofs.Workspace.Following

/-!
# What a write changes

A write puts one file and makes directories on the way to it. Whatever else there was stays
(`Workspace.Written`). The directories that are made stand where the segments of the path lead
(`Workspace.LiesAlong`).
-/

set_option autoImplicit false

namespace CatalogueSync

namespace Workspace

/-- A location to which some segments lead on the way, by a name. -/
def LiesAlong (t : FileTree) (start : Location) (segments : List Text) (loc : Location) : Prop :=
  ∃ above name, above ++ [name] <+: segments ∧ Path.IsName name ∧
    follow t start (above ++ [name]) = .ok loc

/-- The difference that making directories makes: what was there stays, and all that is new are
directories along the segments. -/
structure MadeAlong (start : Location) (segments : List Text) (w w' : Workspace) : Prop where
  home : w'.home = w.home
  kept : ∀ loc node, w.tree.node? loc = some node → w'.tree.node? loc = some node
  made : ∀ loc node, w.tree.node? loc = none → w'.tree.node? loc = some node →
    node = .directory ∧ LiesAlong w'.tree start segments loc

section making

variable {start : Location} {segments : List Text} {w w' w'' : Workspace} {p : Path}

theorem LiesAlong.mono {t t' : FileTree} {segments' : List Text} {loc : Location}
    (h : LiesAlong t start segments loc) (ht : t.KeepsDirectories t')
    (hsegments : segments <+: segments') : LiesAlong t' start segments' loc := by
  obtain ⟨above, name, hbegin, hname, hfollow⟩ := h
  exact ⟨above, name, hbegin.trans hsegments, hname, follow_of_keepsDirectories ht hfollow⟩

theorem MadeAlong.keepsDirectories (h : MadeAlong start segments w w') :
    w.tree.KeepsDirectories w'.tree :=
  fun loc => h.kept loc .directory

theorem MadeAlong.refl (start : Location) (segments : List Text) (w : Workspace) :
    MadeAlong start segments w w := by
  refine ⟨rfl, fun _ _ h => h, ?_⟩
  intro loc node hnone hsome
  rw [hnone] at hsome
  cases hsome

theorem MadeAlong.trans (h : MadeAlong start segments w w')
    (h' : MadeAlong start segments w' w'') : MadeAlong start segments w w'' := by
  refine ⟨h'.home.trans h.home,
    fun loc node hnode => h'.kept loc node (h.kept loc node hnode), ?_⟩
  intro loc node hnone hsome
  cases hmiddle : w'.tree.node? loc with
  | none => exact h'.made loc node hmiddle hsome
  | some node' =>
    obtain ⟨rfl, halong⟩ := h.made loc node' hnone hmiddle
    rw [h'.kept loc _ hmiddle] at hsome
    exact ⟨(Option.some.inj hsome).symm, halong.mono h'.keepsDirectories List.prefix_rfl⟩

theorem MadeAlong.mono {segments' : List Text} (h : MadeAlong start segments w w')
    (hsegments : segments <+: segments') : MadeAlong start segments' w w' := by
  refine ⟨h.home, h.kept, ?_⟩
  intro loc node hnone hsome
  obtain ⟨hnode, halong⟩ := h.made loc node hnone hsome
  exact ⟨hnode, halong.mono (fun _ hloc => hloc) hsegments⟩

/-- Nothing can be made along segments that are no names. -/
theorem MadeAlong.of_still {segments' : List Text} (h : MadeAlong start segments w w')
    (hstill : ∀ s ∈ segments, Path.isStill s = true) : MadeAlong start segments' w w' := by
  refine ⟨h.home, h.kept, ?_⟩
  intro loc node hnone hsome
  obtain ⟨-, above, name, hbegin, hname, -⟩ := h.made loc node hnone hsome
  have hmem : name ∈ segments := hbegin.subset (by simp)
  exact absurd (hname.1.symm.trans (hstill name hmem)) Bool.false_ne_true

theorem namedSegments_isPrefix (p : Path) : namedSegments p <+: p.segments := by
  rw [namedSegments, ← List.reverse_suffix, List.reverse_reverse]
  exact List.dropWhile_suffix _

/-- A name that can be put in a directory is the last segment, and the others lead to that
directory. -/
theorem of_locateName {dir : Location} {name : Text} (h : w.locateName p = .ok (dir, name))
    (hname : Path.IsEntryName name) :
    obstacle? p = none ∧ Path.isLongName name = false ∧
      ∃ above, namedSegments p = above ++ [name] ∧
        follow w.tree (w.start p) above = .ok dir ∧ w.tree.node? dir = some .directory := by
  unfold locateName at h
  split at h
  · cases h
  · obtain ⟨-, rfl⟩ := Prod.mk.inj (Except.ok.inj h)
    exact absurd hname (by decide)
  · rename_i last hobstacle hlast
    rw [reach_eq_follow] at h
    split at h
    · cases h
    · rename_i found hfound
      split at h
      · cases h
      · cases h
      · rename_i hdirectory
        split at h
        · cases h
        · rename_i hshort
          obtain ⟨rfl, rfl⟩ := Prod.mk.inj (Except.ok.inj h)
          refine ⟨hobstacle, Bool.eq_false_iff.2 hshort, _, ?_, hfound, hdirectory⟩
          obtain ⟨above, habove⟩ := List.getLast?_eq_some_iff.1 hlast
          rw [habove, List.dropLast_concat]

theorem node?_of_makeDirectory {t t' : FileTree} {dir : Location} {name : Text}
    {hname : Path.IsEntryName name} (h : t.makeDirectory dir name hname = .ok t') :
    t.node? (dir ++ [name]) = none ∧
      ∀ loc, t'.node? loc = if loc = dir ++ [name] then some .directory else t.node? loc := by
  unfold FileTree.makeDirectory at h
  split at h
  · cases h
  · cases h
  · split at h
    · cases h
    · rename_i hnone
      obtain rfl := Except.ok.inj h
      exact ⟨by simpa using hnone, FileTree.node?_withNode⟩

theorem of_makeDirectory (h : w.makeDirectory p = .ok w') :
    ∃ dir name t, ∃ hname : Path.IsEntryName name, w.locateName p = .ok (dir, name) ∧
      w.tree.makeDirectory dir name hname = .ok t ∧ w' = { w with tree := t } := by
  unfold makeDirectory at h
  split at h
  · cases h
  · rename_i dir name hlocate
    split at h
    · rename_i hname
      cases hmake : w.tree.makeDirectory dir name hname with
      | error e =>
        rw [hmake] at h
        cases h
      | ok t =>
        rw [hmake] at h
        exact ⟨dir, name, t, hname, hlocate, hmake, (Except.ok.inj h).symm⟩
    · cases h

theorem madeAlong_of_makeDirectory (h : w.makeDirectory p = .ok w') :
    MadeAlong (w.start p) p.segments w w' := by
  obtain ⟨dir, name, t, hname, hlocate, hmake, rfl⟩ := of_makeDirectory h
  obtain ⟨-, hshort, above, habove, hdir, hdirectory⟩ := of_locateName hlocate hname
  obtain ⟨hnone, hnode⟩ := node?_of_makeDirectory hmake
  have hkept : ∀ loc node, w.tree.node? loc = some node → t.node? loc = some node := by
    intro loc node hloc
    rw [hnode, if_neg, hloc]
    rintro rfl
    rw [hnone] at hloc
    cases hloc
  refine ⟨rfl, hkept, ?_⟩
  intro loc node hloc hsome
  have hloc' : loc = dir ++ [name] := by
    by_contra hne
    rw [show t.node? loc = none by rw [hnode, if_neg hne, hloc]] at hsome
    cases hsome
  rw [show t.node? loc = some .directory by rw [hnode, if_pos hloc']] at hsome
  refine ⟨(Option.some.inj hsome).symm, above, name, ?_, hname.1, ?_⟩
  · exact habove ▸ namedSegments_isPrefix p
  · apply follow_of_keepsDirectories fun loc => hkept loc .directory
    exact follow_concat_eq_ok_iff.2
      ⟨dir, hdir, hdirectory, hshort, (step_name hname.1 dir).trans hloc'.symm⟩

theorem madeAlong_makeLastDirectory (w : Workspace) (p : Path) :
    MadeAlong (w.start p) p.segments w (w.makeLastDirectory p).1 := by
  unfold makeLastDirectory
  split
  · rename_i hmake
    exact madeAlong_of_makeDirectory hmake
  · exact .refl _ _ w

theorem start_eq_of_home {q : Path} (hhome : w'.home = w.home)
    (habsolute : q.isAbsolute = p.isAbsolute) : w'.start q = w.start p := by
  rw [start, start, hhome, habsolute]

theorem isDirectory_of_keepsDirectories (hkeeps : w.tree.KeepsDirectories w'.tree)
    (hhome : w'.home = w.home) (h : w.isDirectory p) : w'.isDirectory p := by
  obtain ⟨hobstacle, loc, hfollow, hdirectory⟩ := node?_eq_some_iff.1 (isDirectory_iff.1 h)
  apply isDirectory_iff.2
  apply node?_eq_some_iff.2
  rw [start_eq_of_home hhome rfl]
  exact ⟨hobstacle, loc, follow_of_keepsDirectories hkeeps hfollow, hkeeps loc hdirectory⟩

/-- Making a directory and those above it makes nothing elsewhere, whether or not it succeeds. -/
theorem madeAlong_makeDirectories (w : Workspace) (p : Path) :
    MadeAlong (w.start p) p.segments w (w.makeDirectories p).1 := by
  induction hn : p.components.length using Nat.strongRecOn generalizing w p with
  | ind n ih =>
    subst hn
    rw [makeDirectories]
    split
    · exact .refl _ _ w
    · split
      · rename_i hmake
        exact madeAlong_of_makeDirectory hmake
      · split
        · exact .refl _ _ w
        · rename_i above habove
          obtain ⟨habsolute, hsegments⟩ := Path.of_parent?_eq_some habove
          have hmade := ih _ (Path.components_length_parent?_lt habove) w above rfl
          rw [start_eq_of_home rfl habsolute] at hmade
          have hmade' : MadeAlong (w.start p) p.segments w (w.makeDirectories above).1 := by
            rcases hsegments with hbegin | rfl | rfl
            · exact hmade.mono (hbegin.trans (List.dropLast_prefix _))
            · exact hmade.of_still (by simp [Path.empty, Path.isStill])
            · exact hmade.of_still (by simp [Path.isStill])
          split
          · rename_i w' hw'
            rw [hw'] at hmade'
            have hlast := madeAlong_makeLastDirectory w' p
            rw [start_eq_of_home hmade'.home rfl] at hlast
            exact hmade'.trans hlast
          · rename_i w' e hw'
            rw [hw'] at hmade'
            exact hmade'
      · exact .refl _ _ w

end making

/-- The difference that writing a text makes to a workspace, where the path is `base` and a name:
the file stands in the directory where `base` leads, other things stay, and all else that is new
are directories along `base`. -/
structure Written (base : List Text) (name contents : Text) (dir : Location) (w w' : Workspace) :
    Prop where
  home : w'.home = w.home
  writable : obstacle? ⟨base ++ [name]⟩ = none ∧ Path.isLongName name = false
  follow : follow w'.tree (w.start ⟨base ++ [name]⟩) base = .ok dir
  file : w'.tree.node? (dir ++ [name]) = some (.file (.text contents))
  replaced : w.tree.node? (dir ++ [name]) ≠ some .directory
  kept : ∀ loc node, loc ≠ dir ++ [name] → w.tree.node? loc = some node →
    w'.tree.node? loc = some node
  made : ∀ loc node, loc ≠ dir ++ [name] → w.tree.node? loc = none →
    w'.tree.node? loc = some node →
      LiesAlong w'.tree (w.start ⟨base ++ [name]⟩) base loc

section writing

variable {base : List Text} {name contents : Text} {dir : Location} {w w' w'' : Workspace}

theorem Written.keepsDirectories (h : Written base name contents dir w w') :
    w.tree.KeepsDirectories w'.tree := by
  intro loc hloc
  apply h.kept loc _ _ hloc
  rintro rfl
  exact h.replaced hloc

/-- What was written stands at the path. -/
theorem Written.node? (h : Written base name contents dir w w') (hname : Path.IsName name) :
    w'.node? ⟨base ++ [name]⟩ = some (.file (.text contents)) := by
  have hfollow := h.follow
  rw [← start_eq_of_home h.home rfl] at hfollow
  exact (node?_name_eq_some_iff hname).2
    ⟨h.writable.1, h.writable.2, dir, hfollow, h.file⟩

theorem node?_of_putFile {t t' : FileTree} {contents : Contents} {hname : Path.IsEntryName name}
    (h : t.putFile dir name contents hname = .ok t') :
    t.node? (dir ++ [name]) ≠ some .directory ∧
      ∀ loc, t'.node? loc = if loc = dir ++ [name] then some (.file contents)
        else t.node? loc := by
  unfold FileTree.putFile at h
  split at h
  · cases h
  · cases h
  · split at h
    · cases h
    · rename_i hfile
      obtain rfl := Except.ok.inj h
      exact ⟨hfile, FileTree.node?_withNode⟩

theorem exists_parent?_name (hname : Path.IsName name) (base : List Text) :
    ∃ above, (⟨base ++ [name]⟩ : Path).parent? = some above := by
  cases base with
  | nil => exact ⟨.empty, if_neg hname.ne_nil⟩
  | cons s ss => simp [Path.parent?, hname.1]

theorem of_directoryOf (hname : Path.IsName name) (base : List Text) :
    (directoryOf ⟨base ++ [name]⟩).isEmpty = false ∧
      (directoryOf ⟨base ++ [name]⟩).isAbsolute = (⟨base ++ [name]⟩ : Path).isAbsolute ∧
      ((directoryOf ⟨base ++ [name]⟩).segments <+: base ∨
        directoryOf ⟨base ++ [name]⟩ = .here ∨ directoryOf ⟨base ++ [name]⟩ = ⟨[[], []]⟩) := by
  obtain ⟨above, habove⟩ := exists_parent?_name hname base
  obtain ⟨habsolute, hsegments⟩ := Path.of_parent?_eq_some habove
  rw [List.dropLast_concat] at hsegments
  unfold directoryOf
  rw [habove]
  by_cases hempty : above.isEmpty
  · simp only [hempty, if_true]
    rw [← habsolute, Path.isAbsolute_of_isEmpty hempty]
    exact ⟨rfl, rfl, .inr (.inl trivial)⟩
  · simp only [hempty]
    refine ⟨Bool.eq_false_iff.2 hempty, habsolute, ?_⟩
    rcases hsegments with hbegin | rfl | rfl
    · exact .inl hbegin
    · exact absurd rfl hempty
    · exact .inr (.inr rfl)

/-- On the way to a file, directories are made along the path without its name. -/
theorem madeAlong_directoryOf (hname : Path.IsName name) (w : Workspace) :
    MadeAlong (w.start ⟨base ++ [name]⟩) base w
      (w.makeDirectories (directoryOf ⟨base ++ [name]⟩)).1 := by
  obtain ⟨-, habsolute, hsegments⟩ := of_directoryOf hname base
  have hmade := madeAlong_makeDirectories w (directoryOf ⟨base ++ [name]⟩)
  rw [start_eq_of_home rfl habsolute] at hmade
  rcases hsegments with hbegin | hhere | htop
  · exact hmade.mono hbegin
  · exact hmade.of_still (by simp [hhere, Path.here, Path.isStill])
  · exact hmade.of_still (by simp [htop, Path.isStill])

theorem of_replaceFile {p : Path} (h : w.replaceFile p contents = .ok w') :
    ∃ dir last t, ∃ hlast : Path.IsEntryName last, w.locateName p = .ok (dir, last) ∧
      p.segments.getLast? ≠ some [] ∧ w.tree.putFile dir last (.text contents) hlast = .ok t ∧
        w' = { w with tree := t } := by
  unfold replaceFile at h
  split at h
  · cases h
  · cases h
  · rename_i dir last hlocate
    split at h
    · rename_i hlast
      split at h
      · cases h
      · rename_i hends
        cases hput : w.tree.putFile dir last (.text contents) hlast with
        | error e =>
          rw [hput] at h
          cases h
        | ok t =>
          rw [hput] at h
          exact ⟨dir, last, t, hlast, hlocate, hends, hput, (Except.ok.inj h).symm⟩
    · cases h

theorem namedSegments_name (hname : Path.IsName name) (base : List Text) :
    namedSegments ⟨base ++ [name]⟩ = base ++ [name] := by
  have hne : List.isEmpty name = false := by simpa using hname.ne_nil
  simp [namedSegments, hne]

theorem written_of_replaceFile (hname : Path.IsName name)
    (hmade : MadeAlong (w.start ⟨base ++ [name]⟩) base w w')
    (h : w'.replaceFile ⟨base ++ [name]⟩ contents = .ok w'') :
    ∃ dir, Written base name contents dir w w'' := by
  obtain ⟨dir, last, t, hlast, hlocate, -, hput, rfl⟩ := of_replaceFile h
  obtain ⟨hobstacle, hshort, above, hsegments, hdir, -⟩ := of_locateName hlocate hlast
  rw [namedSegments_name hname] at hsegments
  obtain ⟨rfl, hsame⟩ := List.append_inj' hsegments rfl
  obtain rfl := (List.cons.inj hsame).1
  rw [start_eq_of_home hmade.home rfl] at hdir
  obtain ⟨hreplaced, hnode⟩ := node?_of_putFile hput
  have hkept : ∀ loc node, loc ≠ dir ++ [name] → w'.tree.node? loc = some node →
      t.node? loc = some node := by
    intro loc node hne hloc
    rw [hnode, if_neg hne, hloc]
  have hdirectories : w'.tree.KeepsDirectories t := by
    intro loc hloc
    apply hkept loc _ _ hloc
    rintro rfl
    exact hreplaced hloc
  refine ⟨dir, hmade.home, ⟨hobstacle, hshort⟩, ?_, ?_, ?_, ?_, ?_⟩
  · exact follow_of_keepsDirectories hdirectories hdir
  · rw [hnode, if_pos rfl]
  · exact fun hdirectory => hreplaced (hmade.kept _ _ hdirectory)
  · exact fun loc node hne hloc => hkept loc node hne (hmade.kept loc node hloc)
  · intro loc node hne hnone hsome
    rw [show t.node? loc = w'.tree.node? loc by rw [hnode, if_neg hne]] at hsome
    exact (hmade.made loc node hnone hsome).2.mono hdirectories List.prefix_rfl

theorem written_of_write (hname : Path.IsName name)
    (h : w.write ⟨base ++ [name]⟩ contents = (w'', .ok ())) :
    ∃ dir, Written base name contents dir w w'' := by
  have hmade : MadeAlong (w.start ⟨base ++ [name]⟩) base w _ := madeAlong_directoryOf hname w
  unfold write at h
  split at h
  · cases h
  · rename_i w' hw'
    rw [hw'] at hmade
    split at h
    · cases h
    · rename_i found hreplace
      obtain ⟨rfl, -⟩ := Prod.mk.inj h
      exact written_of_replaceFile hname hmade hreplace

/-- A file that would not change has the text already. -/
theorem node?_of_not_wouldChange {p : Path} (h : w.wouldChange p contents = false)
    (hne : contents ≠ []) : w.node? p = some (.file (.text contents)) := by
  unfold wouldChange at h
  split at h
  · rename_i s hread
    rw [readText_eq_ok_iff] at hread
    rw [hread, bne_eq_false_iff_eq.1 h]
  · rw [Bool.not_eq_false', List.isEmpty_iff] at h
    exact absurd h hne

/-- A text that is written unless it is there is there already or is written. -/
theorem of_writeIfChanged {p : Path} {changed : Bool}
    (h : w.writeIfChanged p contents = (w', .ok changed)) :
    (w' = w ∧ w.wouldChange p contents = false) ∨ w.write p contents = (w', .ok ()) := by
  unfold writeIfChanged at h
  split at h
  · right
    split at h
    · rename_i hwrite
      rw [hwrite, (Prod.mk.inj h).1]
    · cases (Prod.mk.inj h).2
  · rename_i hsame
    exact .inl ⟨(Prod.mk.inj h).1.symm, Bool.eq_false_iff.2 hsame⟩

end writing

end Workspace

end CatalogueSync
