import CatalogueSync.Proofs.Workspace.Interim

/-!
# Writing a text unless it is there

When a text was written to a path unless it was there already, the path has it: the text is that of
the file there, or it is empty and nothing is there (`Workspace.Has`). There is one exception, since
a path that cannot be read is taken for one where nothing is: an empty text is not written in the
place of a file that is no text or of a directory
(`Workspace.has_writeIfChanged_iff`). All else holds without exception: the flag says whether the
tree has changed, and whether it would, and the next time nothing changes (`Workspace.Settles`).
-/

set_option autoImplicit false

namespace CatalogueSync

namespace Workspace

/-- A path has a text when a file with it is there, or nothing if the text is empty. -/
def Has (w : Workspace) (p : Path) (contents : Text) : Prop :=
  w.node? p = some (.file (.text contents)) ∨ w.node? p = none ∧ contents = []

/-- Something is at a path that is no text. -/
def HasNoText (w : Workspace) (p : Path) : Prop :=
  ∃ node, w.node? p = some node ∧ ∀ s, node ≠ .file (.text s)

/-- What comes of writing a text to a path unless it is there, if that succeeds: the flag says
whether anything has changed and whether it would, a second time changes nothing, and no other file
is touched. -/
structure Settles (p : Path) (contents : Text) (changed : Bool) (w w' : Workspace) : Prop where
  foretold : w.wouldChange p contents = changed
  changed_iff : changed = true ↔ w'.view ≠ w.view
  again : w'.writeIfChanged p contents = (w', .ok false)
  others : ∀ loc, loc ≠ w.target p → w'.tree.contents? loc = w.tree.contents? loc

variable {w w' : Workspace} {p : Path} {contents : Text}

/-- A text would not be written just when the path has it already or it is empty and the path cannot
be read. -/
theorem not_wouldChange_iff :
    w.wouldChange p contents = false ↔ w.Has p contents ∨ contents = [] ∧ w.HasNoText p := by
  rw [wouldChange_eq, Has, HasNoText]
  split
  · rename_i s hnode
    simp [hnode]
  · rename_i hno
    cases hnode : w.node? p with
    | none => simp
    | some node =>
      have hno' : ∀ s, node ≠ .file (.text s) := by
        rintro s rfl
        exact hno s hnode
      simp [hno']

theorem has_of_write (h : w.write p contents = (w', .ok ())) : w'.Has p contents :=
  .inl (leaves_of_write h).2

theorem not_hasNoText_of_has (h : w.Has p contents) : ¬ w.HasNoText p := by
  rintro ⟨node, hnode, hno⟩
  rcases h with hfile | ⟨hnone, -⟩
  · rw [hnode] at hfile
    exact hno contents (Option.some.inj hfile)
  · rw [hnode] at hnone
    cases hnone

theorem writeIfChanged_of_not_wouldChange (h : w.wouldChange p contents = false) :
    w.writeIfChanged p contents = (w, .ok false) := by
  rw [writeIfChanged, h]
  rfl

theorem settles_of_write (hdiffers : w.wouldChange p contents = true)
    (h : w.write p contents = (w', .ok ())) : Settles p contents true w w' where
  foretold := hdiffers
  changed_iff := by
    refine iff_of_true rfl fun hview => ?_
    have hnode := (node?_eq_of_view hview p).symm.trans (leaves_of_write h).2
    have hhas : w.Has p contents := .inl hnode
    rw [not_wouldChange_iff.2 (.inl hhas)] at hdiffers
    cases hdiffers
  again := writeIfChanged_of_not_wouldChange (not_wouldChange_iff.2 (.inl (has_of_write h)))
  others := (leaves_of_write h).1.files

theorem settles_of_not_wouldChange (h : w.wouldChange p contents = false) :
    Settles p contents false w w where
  foretold := h
  changed_iff := by simp
  again := writeIfChanged_of_not_wouldChange h
  others := fun _ _ => rfl

/-- A text that is written to a path unless it is there is settled, and the path has it afterwards.
Only an empty text is not written where there is something that is no text. A write that fails
leaves all files, and no interim file is ever left. -/
theorem has_writeIfChanged_iff (w : Workspace) (p : Path) (contents : Text) :
    (match w.writeIfChanged p contents with
      | (w', .ok changed) =>
        Settles p contents changed w w' ∧
          (w'.Has p contents ↔ ¬ (contents = [] ∧ w.HasNoText p)) ∧
          (¬ w'.Has p contents → w' = w ∧ changed = false)
      | (w', .error _) => ∀ loc, w'.tree.contents? loc = w.tree.contents? loc) ∧
    (∃ interim, w.IsFreeBeside p interim) ∧
    ∀ interim, w.IsFreeBeside p interim →
      (w.writeIfChangedThrough interim p contents).map view id =
        (w.writeIfChanged p contents).map view id := by
  refine ⟨?_, exists_isFreeBeside w p, fun _ hfree => view_writeIfChangedThrough hfree contents⟩
  cases hdiffers : w.wouldChange p contents with
  | false =>
    rw [writeIfChanged_of_not_wouldChange hdiffers]
    refine ⟨settles_of_not_wouldChange hdiffers, ?_, fun _ => ⟨rfl, rfl⟩⟩
    constructor
    · exact fun hhas hexception => not_hasNoText_of_has hhas hexception.2
    · exact fun hregular => (not_wouldChange_iff.1 hdiffers).resolve_right hregular
  | true =>
    rw [writeIfChanged, if_pos hdiffers]
    cases hwrite : w.write p contents with
    | mk w' result =>
      cases result with
      | error e => exact fun loc => (leaves_of_write_error hwrite).files loc not_false
      | ok _ =>
        have hhas := has_of_write hwrite
        refine ⟨settles_of_write hdiffers hwrite, iff_of_true hhas ?_, absurd hhas⟩
        intro hexception
        rw [not_wouldChange_iff.2 (.inr hexception)] at hdiffers
        cases hdiffers

/-- A file with one byte that is no text stays when an empty text is written, and so does a
directory. Neither is reported. -/
theorem not_has_writeIfChanged_nil :
    let w : Workspace := ⟨.ofEntries [(["a".toList], .file (.binary [0xff])),
      (["d".toList], .directory)], []⟩
    (w.writeIfChanged (.ofText "a".toList) []).2 = .ok false ∧
      ¬ (w.writeIfChanged (.ofText "a".toList) []).1.Has (.ofText "a".toList) [] ∧
      (w.writeIfChanged (.ofText "d".toList) []).2 = .ok false ∧
      ¬ (w.writeIfChanged (.ofText "d".toList) []).1.Has (.ofText "d".toList) [] := by
  intro w
  have hfile : w.node? (.ofText "a".toList) = some (.file (.binary [0xff])) := by decide +kernel
  have hdirectory : w.node? (.ofText "d".toList) = some .directory := by decide +kernel
  have hno : w.HasNoText (.ofText "a".toList) := ⟨_, hfile, by simp⟩
  have hno' : w.HasNoText (.ofText "d".toList) := ⟨_, hdirectory, by simp⟩
  have hsame := writeIfChanged_of_not_wouldChange (not_wouldChange_iff.2 (.inr ⟨rfl, hno⟩))
  have hsame' := writeIfChanged_of_not_wouldChange (not_wouldChange_iff.2 (.inr ⟨rfl, hno'⟩))
  rw [hsame, hsame']
  exact ⟨rfl, fun hhas => not_hasNoText_of_has hhas hno, rfl,
    fun hhas => not_hasNoText_of_has hhas hno'⟩

end Workspace

end CatalogueSync
