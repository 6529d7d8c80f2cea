import CatalogueSync.Proofs.Workspace.Writing
import Mathlib.Data.List.Infix

/-!
# What stays as it was when a file is written

A path can lead elsewhere after a write, through directories that the write has made. It does not
if every directory of the written path that is left again by going up was there before
(`Workspace.HasParts`). Then the other files beside the written one are what they were
(`Workspace.Written.node?_beside`), and so is whatever has a name that the write has made no
directory of (`Workspace.Written.node?_part`).
-/

set_option autoImplicit false

namespace CatalogueSync

namespace Workspace

/-- Wherever one of the names comes among some segments, a directory is there. -/
def HasParts (w : Workspace) (names segments : List Text) : Prop :=
  ∀ above name, above ++ [name] <+: segments → name ∈ names → w.isDirectory ⟨above ++ [name]⟩

theorem HasParts.mono {w : Workspace} {names segments segments' : List Text}
    (h : w.HasParts names segments') (hbegin : segments <+: segments') :
    w.HasParts names segments :=
  fun above name habove => h above name (habove.trans hbegin)

theorem HasParts.of_subset {w : Workspace} {names names' segments : List Text}
    (h : w.HasParts names' segments) (hsub : names ⊆ names') : w.HasParts names segments :=
  fun above name habove hmem => h above name habove (hsub hmem)

theorem hasParts_iff {w : Workspace} {names segments : List Text} :
    w.HasParts names segments ↔
      ∀ part ∈ segments.inits, ∀ name ∈ part.getLast?, name ∈ names → w.isDirectory ⟨part⟩ := by
  constructor
  · intro h part hpart name hname hmem
    obtain ⟨above, rfl⟩ := List.getLast?_eq_some_iff.1 hname
    exact h above name ((List.mem_inits _ _).1 hpart) hmem
  · intro h above name habove hmem
    exact h _ ((List.mem_inits _ _).2 habove) name (by simp) hmem

instance (w : Workspace) (names segments : List Text) : Decidable (w.HasParts names segments) :=
  decidable_of_iff _ hasParts_iff.symm

theorem isAbsolute_of_isPrefix {above segments : List Text} {name : Text}
    (hbegin : above ++ [name] <+: segments) (hne : name ≠ []) :
    (⟨above ++ [name]⟩ : Path).isAbsolute = (⟨segments⟩ : Path).isAbsolute := by
  obtain ⟨more, rfl⟩ := hbegin
  obtain ⟨c, s, rfl⟩ := List.exists_cons_of_ne_nil hne
  match above with
  | [] => rfl
  | (_ :: _) :: _ => rfl
  | [[]] => rfl
  | [] :: _ :: _ => rfl

theorem isAbsolute_name (base : List Text) (name other : Text) :
    (⟨base ++ [name]⟩ : Path).isAbsolute = (⟨base ++ [other]⟩ : Path).isAbsolute := by
  match base with
  | [] => cases name <;> cases other <;> rfl
  | (_ :: _) :: _ => rfl
  | [[]] => rfl
  | [] :: _ :: _ => rfl

section along

variable {t t' : FileTree} {start dir loc : Location} {segments : List Text}

/-- Wherever some segments go up, they lead somewhere. -/
def GoesUp (t : FileTree) (start : Location) (segments : List Text) : Prop :=
  ∀ above, above ++ [['.', '.']] <+: segments →
    ∃ loc, follow t start (above ++ [['.', '.']]) = .ok loc

/-- Segments lead where they lead in a larger tree, if that is a directory already. -/
theorem follow_of_goesUp (hkeeps : t.KeepsDirectories t') (hup : GoesUp t start segments)
    (hfollow : follow t' start segments = .ok dir) (hdir : t.node? dir = some .directory) :
    follow t start segments = .ok dir := by
  induction segments using List.reverseRecOn generalizing dir with
  | nil => exact hfollow
  | append_singleton ss s ih =>
    have hup' : GoesUp t start ss := fun above h => hup above (h.trans (List.prefix_append ..))
    obtain ⟨middle, hmiddle, -, hshort, hstep⟩ := follow_concat_eq_ok_iff.1 hfollow
    by_cases hdots : s = ['.', '.']
    · subst hdots
      obtain ⟨loc, hloc⟩ := hup ss List.prefix_rfl
      rw [hloc, follow_inj_of_keepsDirectories hkeeps hloc hfollow]
    · have hmiddleDirectory : t.node? middle = some .directory := by
        unfold step at hstep
        split at hstep
        · rwa [hstep]
        · exact FileTree.node?_of_node?_append (hstep ▸ hdir)
      exact follow_concat_eq_ok_iff.2
        ⟨middle, ih hup' hmiddle hmiddleDirectory, hmiddleDirectory, hshort, hstep⟩

/-- Segments do not leave a directory again that was not there before. -/
theorem prefix_of_goesUp (hkeeps : t.KeepsDirectories t') {more : List Text}
    (hup : GoesUp t start (segments ++ more)) (hloc : follow t' start segments = .ok loc)
    (hnew : t.node? loc ≠ some .directory)
    (hfollow : follow t' start (segments ++ more) = .ok dir) : loc <+: dir := by
  induction more using List.reverseRecOn generalizing dir with
  | nil =>
    rw [List.append_nil, hloc] at hfollow
    exact Except.ok.inj hfollow ▸ List.prefix_rfl
  | append_singleton ss s ih =>
    rw [← List.append_assoc] at hup hfollow
    have hup' : GoesUp t start (segments ++ ss) :=
      fun above h => hup above (h.trans (List.prefix_append ..))
    obtain ⟨middle, hmiddle, -, -, rfl⟩ := follow_concat_eq_ok_iff.1 hfollow
    have hbegin := ih hup' hmiddle
    unfold step
    split
    · exact hbegin
    · split
      · rename_i hdots
        subst hdots
        -- going up from here would mean that the new directory was there
        obtain ⟨loc', hloc'⟩ := hup (segments ++ ss) List.prefix_rfl
        rw [List.append_assoc, follow_append_eq_ok_iff] at hloc'
        obtain ⟨old, hold, hrest⟩ := hloc'
        obtain rfl := follow_inj_of_keepsDirectories hkeeps hold hloc
        exact absurd (node?_of_follow hrest (by simp)) hnew
      · exact hbegin.trans (List.prefix_append ..)

end along

section written

variable {w w' : Workspace} {base names : List Text} {name contents other : Text}
  {dir loc : Location}

/-- A part that is there is the directory to which the segments lead on the way. -/
theorem HasParts.exists_follow (h : w.HasParts names base) {above : List Text}
    (hbegin : above ++ [other] <+: base) (hmem : other ∈ names) (hne : other ≠ []) :
    ∃ loc, follow w.tree (w.start ⟨base ++ [name]⟩) (above ++ [other]) = .ok loc ∧
      w.tree.node? loc = some .directory := by
  obtain ⟨-, loc, hloc, hdirectory⟩ :=
    node?_eq_some_iff.1 (isDirectory_iff.1 (h above other hbegin hmem))
  have habsolute := isAbsolute_of_isPrefix (hbegin.trans (List.prefix_append base [name])) hne
  rw [start_eq_of_home rfl habsolute] at hloc
  exact ⟨loc, hloc, hdirectory⟩

theorem HasParts.goesUp (h : w.HasParts names base) (hup : ['.', '.'] ∈ names) :
    GoesUp w.tree (w.start ⟨base ++ [name]⟩) base := by
  intro above hbegin
  obtain ⟨loc, hloc, -⟩ := h.exists_follow hbegin hup (by simp)
  exact ⟨loc, hloc⟩

/-- A path that leads to a directory in a larger tree leads there already, if the directory was
there. -/
theorem HasParts.isDirectory {p : Path} (h : w.HasParts names p.segments)
    (hup : ['.', '.'] ∈ names) (hkeeps : w.tree.KeepsDirectories w'.tree)
    (hhome : w'.home = w.home) (hdir : w'.isDirectory p)
    (hold : ∀ loc, follow w'.tree (w.start p) p.segments = .ok loc →
      w.tree.node? loc = some .directory) : w.isDirectory p := by
  obtain ⟨hobstacle, loc, hloc, -⟩ := node?_eq_some_iff.1 (isDirectory_iff.1 hdir)
  rw [start_eq_of_home hhome rfl] at hloc
  have hgoesUp : GoesUp w.tree (w.start p) p.segments := by
    intro above hbegin
    obtain ⟨-, middle, hmiddle, -⟩ :=
      node?_eq_some_iff.1 (isDirectory_iff.1 (h above _ hbegin hup))
    rw [start_eq_of_home rfl (isAbsolute_of_isPrefix hbegin (by simp))] at hmiddle
    exact ⟨middle, hmiddle⟩
  have hfollow := follow_of_goesUp hkeeps hgoesUp hloc (hold loc hloc)
  exact isDirectory_iff.2 (node?_eq_some_iff.2 ⟨hobstacle, loc, hfollow, hold loc hloc⟩)

/-- Nothing else changes but where a directory is made. -/
theorem Written.node?_eq (h : Written base name contents dir w w') (hne : loc ≠ dir ++ [name])
    (hnew : w.tree.node? loc = none →
      ¬ LiesAlong w'.tree (w.start ⟨base ++ [name]⟩) base loc) :
    w'.tree.node? loc = w.tree.node? loc := by
  cases hold : w.tree.node? loc with
  | some node => exact h.kept loc node hne hold
  | none =>
    cases hnode : w'.tree.node? loc with
    | none => rfl
    | some node => exact absurd (h.made loc node hne hold hnode) (hnew hold)

/-- What a write makes lies on the way to the file. -/
theorem Written.prefix_of_liesAlong (h : Written base name contents dir w w')
    (hparts : w.HasParts names base) (hup : ['.', '.'] ∈ names)
    (hnone : w.tree.node? loc = none)
    (halong : LiesAlong w'.tree (w.start ⟨base ++ [name]⟩) base loc) : loc <+: dir := by
  obtain ⟨above, last, ⟨more, hmore⟩, -, hloc⟩ := halong
  have hgoesUp : GoesUp w.tree (w.start ⟨base ++ [name]⟩) base := hparts.goesUp hup
  have hfollow := h.follow
  subst hmore
  apply prefix_of_goesUp h.keepsDirectories hgoesUp hloc _ hfollow
  rw [hnone]
  simp

/-- Other files beside the written one are what they were. -/
theorem Written.node?_beside (h : Written base name contents dir w w')
    (hparts : w.HasParts names base) (hup : ['.', '.'] ∈ names) (hother : Path.IsName other)
    (hne : other ≠ name) : w'.node? ⟨base ++ [other]⟩ = w.node? ⟨base ++ [other]⟩ := by
  have hstart : w.start ⟨base ++ [other]⟩ = w.start ⟨base ++ [name]⟩ :=
    start_eq_of_home rfl (isAbsolute_name ..)
  have hne' : dir ++ [other] ≠ dir ++ [name] := by simpa using hne
  -- nothing is made beside the file, since it would not be on the way to it
  have hsame : w'.tree.node? (dir ++ [other]) = w.tree.node? (dir ++ [other]) := by
    apply h.node?_eq hne'
    intro hnone halong
    have hlength := (h.prefix_of_liesAlong hparts hup hnone halong).length_le
    rw [List.length_append, List.length_singleton] at hlength
    omega
  apply Option.ext
  intro node
  rw [node?_name_eq_some_iff hother, node?_name_eq_some_iff hother,
    start_eq_of_home h.home rfl, hstart]
  refine and_congr_right fun _ => and_congr_right fun _ => ⟨?_, ?_⟩
  · rintro ⟨found, hfound, hnode⟩
    rw [h.follow] at hfound
    obtain rfl := Except.ok.inj hfound
    rw [hsame] at hnode
    exact ⟨dir, follow_of_goesUp h.keepsDirectories (hparts.goesUp hup) h.follow
      (FileTree.node?_of_node?_append hnode), hnode⟩
  · rintro ⟨found, hfound, hnode⟩
    obtain rfl := follow_inj_of_keepsDirectories h.keepsDirectories hfound h.follow
    exact ⟨found, h.follow, hsame.trans hnode⟩

/-- Where a path leads to a directory already, whatever has one of the names there is what it
was. -/
theorem Written.node?_part (h : Written base name contents dir w w')
    (hparts : w.HasParts names base) (hother : Path.IsName other) (hmem : other ∈ names)
    (hne : other ≠ name) {above : List Text}
    (habove : ∃ loc, Workspace.follow w.tree (w.start ⟨above ++ [other]⟩) above = .ok loc) :
    w'.node? ⟨above ++ [other]⟩ = w.node? ⟨above ++ [other]⟩ := by
  obtain ⟨loc, hloc⟩ := habove
  have hloc' := follow_of_keepsDirectories h.keepsDirectories hloc
  have hne' : loc ++ [other] ≠ dir ++ [name] := by
    intro heq
    exact hne (List.cons.inj (List.append_inj' heq rfl).2).1
  have hsame : w'.tree.node? (loc ++ [other]) = w.tree.node? (loc ++ [other]) := by
    apply h.node?_eq hne'
    rintro hnone ⟨before, last, hbegin, hlast, hfollow⟩
    obtain ⟨middle, -, -, -, hstep⟩ := follow_concat_eq_ok_iff.1 hfollow
    rw [step_name hlast] at hstep
    obtain rfl := (List.cons.inj (List.append_inj' hstep rfl).2).1
    -- a directory of this name was there already
    obtain ⟨found, hfound, hdirectory⟩ := hparts.exists_follow hbegin hmem hlast.ne_nil
    rw [← follow_inj_of_keepsDirectories h.keepsDirectories hfound hfollow, hdirectory] at hnone
    cases hnone
  apply Option.ext
  intro node
  rw [node?_name_eq_some_iff hother, node?_name_eq_some_iff hother,
    start_eq_of_home h.home rfl, hloc, hloc']
  simp [hsame]

end written

end Workspace

end CatalogueSync
