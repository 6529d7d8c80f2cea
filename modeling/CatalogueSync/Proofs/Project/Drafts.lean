import CatalogueSync.Proofs.Project.Plan
import CatalogueSync.Proofs.Workspace.Effect

/-!
# Applying drafts

Whatever a synchronisation plans is a list of drafts, the reference first
(`Command.of_gives_sync`). Looking gives the drafts that differ from the workspace
it finds (`Draft.gives_applyAll_true`); writing starts with the first of these, so that it writes
something exactly when looking finds something (`Draft.applyAll_eq_nil_iff`).
-/

set_option autoImplicit false

namespace CatalogueSync

/-- Whether a draft differs from what stands at its path. -/
def Draft.Differs (w : Workspace) (d : Draft) : Prop :=
  w.wouldChange d.path d.text = true

namespace Draft

variable {p : Project} {w w' w'' : Workspace} {d : Draft} {ds ds' : List Draft}
  {files : List Text} {file? : Option Text} {checkOnly : Bool}

instance (w : Workspace) (d : Draft) : Decidable (d.Differs w) :=
  inferInstanceAs (Decidable (_ = _))

theorem gives_apply_true_iff :
    (d.apply p true).Gives w file? w' ↔
      file? = (if d.Differs w then some (p.shown d.path) else none) ∧ w' = w := by
  unfold Session.Gives apply Differs
  by_cases h : w.wouldChange d.path d.text = true <;> simp [h, Reported.ok, eq_comm]

theorem gives_apply_false_iff :
    (d.apply p false).Gives w file? w' ↔
      (¬ d.Differs w ∧ file? = none ∧ w' = w) ∨
        (d.Differs w ∧ file? = some (p.shown d.path) ∧
          w.write d.path d.text = (w', .ok ())) := by
  unfold Session.Gives apply Differs Workspace.writeIfChanged
  cases w.wouldChange d.path d.text with
  | false => simp [Reported.ok, eq_comm]
  | true =>
    rcases w.write d.path d.text with ⟨w'', e | u⟩
    · simp [Reported.fail]
    · simp [eq_comm]

theorem gives_applyAll_nil_iff :
    (applyAll p checkOnly []).Gives w files w' ↔ files = [] ∧ w' = w := by
  rw [applyAll, Session.gives_pure_iff, eq_comm, @eq_comm _ w]

theorem gives_applyAll_cons_iff :
    (applyAll p checkOnly (d :: ds)).Gives w files w' ↔
      ∃ file? middle files', (d.apply p checkOnly).Gives w file? middle ∧
        (applyAll p checkOnly ds).Gives middle files' w' ∧ files = file?.toList ++ files' := by
  simp only [applyAll, Session.gives_bind_iff, Session.gives_pure_iff]
  constructor
  · rintro ⟨file?, middle, happly, files', _, happlyAll, rfl, rfl⟩
    exact ⟨file?, middle, files', happly, happlyAll, rfl⟩
  · rintro ⟨file?, middle, files', happly, happlyAll, rfl⟩
    exact ⟨file?, middle, happly, files', w', happlyAll, rfl, rfl⟩

theorem gives_applyAll_append_iff :
    (applyAll p checkOnly (ds ++ ds')).Gives w files w' ↔
      ∃ files₁ middle files₂, (applyAll p checkOnly ds).Gives w files₁ middle ∧
        (applyAll p checkOnly ds').Gives middle files₂ w' ∧ files = files₁ ++ files₂ := by
  induction ds generalizing w files with
  | nil =>
    simp only [List.nil_append, gives_applyAll_nil_iff]
    constructor
    · intro h
      exact ⟨[], w, files, ⟨rfl, rfl⟩, h, rfl⟩
    · rintro ⟨_, _, files₂, ⟨rfl, rfl⟩, h, rfl⟩
      exact h
  | cons d ds ih =>
    simp only [List.cons_append, gives_applyAll_cons_iff, ih]
    constructor
    · rintro ⟨file?, middle, _, hd, ⟨files₁, middle', files₂, hds, hds', rfl⟩, rfl⟩
      exact ⟨_, middle', files₂, ⟨file?, middle, files₁, hd, hds, rfl⟩, hds',
        (List.append_assoc ..).symm⟩
    · rintro ⟨_, middle', files₂, ⟨file?, middle, files₁, hd, hds, rfl⟩, hds', rfl⟩
      exact ⟨file?, middle, _, hd, ⟨files₁, middle', files₂, hds, hds', rfl⟩,
        List.append_assoc ..⟩

/-- Directories may be new, and each file is as it was or has the whole text of a draft. -/
structure WritesOnly (ds : List Draft) (w w' : Workspace) : Prop where
  home : w'.home = w.home
  directories : w.tree.KeepsDirectories w'.tree
  files : ∀ loc, w'.tree.contents? loc = w.tree.contents? loc ∨
    ∃ d ∈ ds, loc = w.target d.path ∧ w'.tree.node? loc = some (.file (.text d.text))

theorem WritesOnly.leaves (h : WritesOnly ds w w') :
    Workspace.Leaves (fun loc => ∃ d ∈ ds, loc = w.target d.path) w w' := by
  refine ⟨h.home, h.directories, fun loc hloc => (h.files loc).resolve_right ?_⟩
  rintro ⟨d, hd, heq, -⟩
  exact hloc ⟨d, hd, heq⟩

theorem WritesOnly.of_leaves (h : Workspace.Leaves (fun _ => False) w w') (ds : List Draft) :
    WritesOnly ds w w' :=
  ⟨h.home, h.directories, fun loc => .inl (h.files loc not_false)⟩

theorem WritesOnly.trans (h : WritesOnly ds w w') (h' : WritesOnly ds w' w'') :
    WritesOnly ds w w'' where
  home := h'.home.trans h.home
  directories := fun loc hloc => h'.directories loc (h.directories loc hloc)
  files := by
    intro loc
    rcases h'.files loc with hsame | ⟨d, hd, hloc, hnode⟩
    · rcases h.files loc with hsame' | ⟨d, hd, hloc, hnode⟩
      · exact .inl (hsame.trans hsame')
      · refine .inr ⟨d, hd, hloc, ?_⟩
        rwa [← FileTree.contents?_eq_some_iff, hsame, FileTree.contents?_eq_some_iff]
    · exact .inr ⟨d, hd, hloc.trans (Workspace.target_eq_of_home h.home), hnode⟩

theorem WritesOnly.mono (h : WritesOnly ds w w') (hsub : ∀ d ∈ ds, d ∈ ds') :
    WritesOnly ds' w w' := by
  refine ⟨h.home, h.directories, fun loc => (h.files loc).imp_right ?_⟩
  rintro ⟨d, hd, hloc⟩
  exact ⟨d, hsub d hd, hloc⟩

theorem WritesOnly.of_write (h : w.write d.path d.text = (w', .ok ())) :
    WritesOnly [d] w w' := by
  obtain ⟨hleaves, hnode⟩ := Workspace.leaves_of_write h
  refine ⟨hleaves.home, hleaves.directories, fun loc => ?_⟩
  by_cases hloc : loc = w.target d.path
  · refine .inr ⟨d, List.mem_singleton_self d, hloc, ?_⟩
    rw [hloc, ← Workspace.target_eq_of_home hleaves.home]
    exact Workspace.node?_target hnode
  · exact .inl (hleaves.files loc hloc)

theorem writesOnly_of_gives_apply (h : (d.apply p false).Gives w file? w') :
    WritesOnly [d] w w' := by
  rcases gives_apply_false_iff.1 h with ⟨-, -, rfl⟩ | ⟨-, -, hwrite⟩
  · exact .of_leaves (.refl _ _) _
  · exact .of_write hwrite

theorem exists_node?_of_differs (h : d.Differs w) (htext : d.text = []) :
    ∃ s, w.node? d.path = some (.file (.text s)) := by
  rw [Differs, Workspace.wouldChange_eq, htext] at h
  split at h
  · exact ⟨_, ‹_›⟩
  · cases h

theorem node?_of_gives_apply (htext : d.text ≠ [])
    (h : (d.apply p false).Gives w file? w') :
    w'.node? d.path = some (.file (.text d.text)) := by
  rcases gives_apply_false_iff.1 h with ⟨hsame, -, rfl⟩ | ⟨-, -, hwrite⟩
  · exact Workspace.node?_of_not_wouldChange (Bool.eq_false_iff.2 hsame) htext
  · exact (Workspace.leaves_of_write hwrite).2

/-- Applying drafts writes nothing but them. -/
theorem writesOnly_of_gives_applyAll (h : (applyAll p false ds).Gives w files w') :
    WritesOnly ds w w' := by
  induction ds generalizing w files with
  | nil =>
    obtain ⟨-, rfl⟩ := gives_applyAll_nil_iff.1 h
    exact .of_leaves (.refl _ _) _
  | cons d ds ih =>
    obtain ⟨file?, middle, files', hd, hds, -⟩ := gives_applyAll_cons_iff.1 h
    have hfirst := writesOnly_of_gives_apply hd
    exact (hfirst.mono (by simp)).trans ((ih hds).mono fun d' => List.mem_cons_of_mem d)

/-- Looking names every draft that differs and leaves the workspace as it is. -/
theorem gives_applyAll_true (p : Project) (w : Workspace) (ds : List Draft) :
    (applyAll p true ds).Gives w
      ((ds.filter fun d => d.Differs w).map fun d => p.shown d.path) w := by
  induction ds with
  | nil => exact gives_applyAll_nil_iff.2 ⟨rfl, rfl⟩
  | cons d ds ih =>
    refine gives_applyAll_cons_iff.2 ⟨_, w, _, gives_apply_true_iff.2 ⟨rfl, rfl⟩, ih, ?_⟩
    by_cases hd : d.Differs w <;> simp [hd]

/-- Writing writes nothing exactly when no draft differs from the workspace that it finds. A draft
that differs only after another one was written makes no difference here. -/
theorem applyAll_eq_nil_iff (h : (applyAll p false ds).Gives w files w') :
    files = [] ↔ ∀ d ∈ ds, ¬ d.Differs w := by
  induction ds generalizing w files with
  | nil => simp [(gives_applyAll_nil_iff.1 h).1]
  | cons d ds ih =>
    obtain ⟨file?, middle, files', hd, hds, rfl⟩ := gives_applyAll_cons_iff.1 h
    rcases gives_apply_false_iff.1 hd with ⟨hsame, rfl, rfl⟩ | ⟨hdiffers, rfl, -⟩
    · simpa [hsame] using ih hds
    · simp [hdiffers]

theorem applyAll_of_not_differs (p : Project) (h : ∀ d ∈ ds, ¬ d.Differs w) :
    (applyAll p false ds).Gives w [] w := by
  induction ds with
  | nil => exact gives_applyAll_nil_iff.2 ⟨rfl, rfl⟩
  | cons d ds ih =>
    obtain ⟨hd, hds⟩ := List.forall_mem_cons.1 h
    exact gives_applyAll_cons_iff.2
      ⟨none, w, [], gives_apply_false_iff.2 (.inl ⟨hd, rfl, rfl⟩), ih hds, rfl⟩

/-- Nothing is changed where nothing is written. -/
theorem eq_of_applyAll_nil (h : (applyAll p false ds).Gives w [] w') : w' = w := by
  have hagain := applyAll_of_not_differs p ((applyAll_eq_nil_iff h).1 rfl)
  exact h.2.symm.trans hagain.2

end Draft

/-- What is reported of a reference plan that was carried out. -/
def ReferencePlan.outcome (p : Project) (plan : ReferencePlan) (changed : Bool) :
    ReferenceOutcome where
  templates := plan.templates
  messages := plan.catalogue.size
  file := p.shown plan.draft.path
  changed := changed
  unreachable := plan.unreachable

/-- What is reported of a locale's plan when these files were or would be written. -/
def LocalePlan.outcome (l : LocalePlan) (files : List Text) : LocaleOutcome where
  locale := l.locale
  translated := l.update.reconciliation.translatedCount
  total := l.total
  pending := l.update.reconciliation.pending.length
  revived := l.update.reconciliation.revived.length
  demoted := l.update.reconciliation.demoted.length
  discarded := l.update.reconciliation.discarded.length
  changedFiles := files

/-- What is reported of a locale apart from its files: its numbers. -/
def LocaleOutcome.withoutFiles (l : LocaleOutcome) : LocaleOutcome :=
  { l with changedFiles := [] }

section plans

variable {p : Project} {w w' : Workspace} {checkOnly : Bool}

theorem ReferencePlan.gives_apply_iff {plan : ReferencePlan} {reference : ReferenceOutcome} :
    (plan.apply p checkOnly).Gives w reference w' ↔
      ∃ file?, (plan.draft.apply p checkOnly).Gives w file? w' ∧
        reference = plan.outcome p file?.isSome := by
  simp only [apply, Session.gives_bind_iff, Session.gives_pure_iff]
  constructor
  · rintro ⟨file?, _, hfile, rfl, rfl⟩
    exact ⟨file?, hfile, rfl⟩
  · rintro ⟨file?, hfile, rfl⟩
    exact ⟨file?, w', hfile, rfl, rfl⟩

theorem LocalePlan.gives_apply_iff {l : LocalePlan} {outcome : LocaleOutcome} :
    (l.apply p checkOnly).Gives w outcome w' ↔
      ∃ files, (Draft.applyAll p checkOnly (l.drafts p)).Gives w files w' ∧
        outcome = l.outcome files := by
  simp only [apply, Session.gives_bind_iff, Session.gives_pure_iff]
  constructor
  · rintro ⟨files, _, hfiles, rfl, rfl⟩
    exact ⟨files, hfiles, rfl⟩
  · rintro ⟨files, hfiles, rfl⟩
    exact ⟨files, w', hfiles, rfl, rfl⟩

theorem LocalePlan.of_gives_applyAll {ls : List LocalePlan} {outcomes : List LocaleOutcome}
    (h : (applyAll p checkOnly ls).Gives w outcomes w') :
    (Draft.applyAll p checkOnly (ls.flatMap (drafts p))).Gives w
        (outcomes.flatMap fun l => l.changedFiles) w' ∧
      outcomes.map LocaleOutcome.withoutFiles = ls.map fun l => l.outcome [] := by
  induction ls generalizing w outcomes with
  | nil =>
    obtain ⟨rfl, rfl⟩ := Session.gives_pure_iff.1 h
    exact ⟨Draft.gives_applyAll_nil_iff.2 ⟨rfl, rfl⟩, rfl⟩
  | cons l ls ih =>
    simp only [applyAll, Session.gives_bind_iff, Session.gives_pure_iff] at h
    obtain ⟨outcome, middle, hl, outcomes', _, hls, rfl, rfl⟩ := h
    obtain ⟨files, hfiles, rfl⟩ := gives_apply_iff.1 hl
    obtain ⟨hrest, hnumbers⟩ := ih hls
    refine ⟨?_, congrArg (l.outcome [] :: ·) hnumbers⟩
    exact Draft.gives_applyAll_append_iff.2 ⟨files, middle, _, hfiles, hrest, rfl⟩

theorem LocalePlan.exists_gives_applyAll {ls : List LocalePlan} {files : List Text}
    (h : (Draft.applyAll p checkOnly (ls.flatMap (drafts p))).Gives w files w') :
    ∃ outcomes, (applyAll p checkOnly ls).Gives w outcomes w' ∧
      files = outcomes.flatMap fun l => l.changedFiles := by
  induction ls generalizing w files with
  | nil =>
    obtain ⟨rfl, rfl⟩ := Draft.gives_applyAll_nil_iff.1 h
    exact ⟨[], Session.gives_pure_iff.2 ⟨rfl, rfl⟩, rfl⟩
  | cons l ls ih =>
    obtain ⟨files₁, middle, files₂, hl, hls, rfl⟩ := Draft.gives_applyAll_append_iff.1 h
    obtain ⟨outcomes, houtcomes, rfl⟩ := ih hls
    refine ⟨l.outcome files₁ :: outcomes, ?_, rfl⟩
    simp only [applyAll, Session.gives_bind_iff, Session.gives_pure_iff]
    exact ⟨_, middle, gives_apply_iff.2 ⟨files₁, hl, rfl⟩, outcomes, w', houtcomes, rfl, rfl⟩

end plans

namespace Command

/-- All that a synchronisation writes: the reference, then the files of each locale. -/
def drafts (p : Project) (plan : ReferencePlan) (plans : List LocalePlan) : List Draft :=
  plan.draft :: plans.flatMap (LocalePlan.drafts p)

variable {o : ProjectOptions} {w w' : Workspace} {requested : List Text} {checkOnly : Bool}

/-- A synchronisation plans, applies the drafts of its plan and reports on them. -/
theorem of_gives_sync {r : RunResult} (h : (run (sync o requested checkOnly)).Gives w r w') :
    ∃ p plan plans file? outcomes, (Project.openAt o w).result = .ok p ∧
      (planSync p requested w).result = .ok (plan, plans) ∧
      (Draft.applyAll p checkOnly (drafts p plan plans)).Gives w
        (Option.toList file? ++ outcomes.flatMap fun l => l.changedFiles) w' ∧
      outcomes.map LocaleOutcome.withoutFiles = (plans.map fun l => l.outcome []) ∧
      r = ⟨plan.issues ++ plans.flatMap LocalePlan.issues,
        .synchronised checkOnly (plan.outcome p file?.isSome) outcomes⟩ := by
  obtain ⟨p, plan, plans, middle, _, outcomes, hp, hplans, happly, happlyAll, rfl⟩ :=
    gives_sync_iff.1 h
  obtain ⟨file?, hfile, rfl⟩ := ReferencePlan.gives_apply_iff.1 happly
  obtain ⟨hfiles, hnumbers⟩ := LocalePlan.of_gives_applyAll happlyAll
  refine ⟨p, plan, plans, file?, outcomes, hp, hplans, ?_, hnumbers, rfl⟩
  exact Draft.gives_applyAll_cons_iff.2 ⟨file?, middle, _, hfile, hfiles, rfl⟩

/-- Whoever can apply the drafts of a plan can synchronise. -/
theorem exists_gives_sync {p : Project} {plan : ReferencePlan} {plans : List LocalePlan}
    {files : List Text} (hp : (Project.openAt o w).result = .ok p)
    (hplans : (planSync p requested w).result = .ok (plan, plans))
    (h : (Draft.applyAll p checkOnly (drafts p plan plans)).Gives w files w') :
    ∃ file? outcomes, files = Option.toList file? ++ (outcomes.flatMap fun l => l.changedFiles) ∧
      outcomes.map LocaleOutcome.withoutFiles = (plans.map fun l => l.outcome []) ∧
      (run (sync o requested checkOnly)).Gives w ⟨plan.issues ++ plans.flatMap LocalePlan.issues,
        .synchronised checkOnly (plan.outcome p file?.isSome) outcomes⟩ w' := by
  obtain ⟨file?, middle, _, hfile, hfiles, rfl⟩ := Draft.gives_applyAll_cons_iff.1 h
  obtain ⟨outcomes, houtcomes, rfl⟩ := LocalePlan.exists_gives_applyAll hfiles
  refine ⟨file?, outcomes, rfl, (LocalePlan.of_gives_applyAll houtcomes).2, ?_⟩
  exact gives_sync_iff.2 ⟨p, plan, plans, middle, _, outcomes, hp, hplans,
    ReferencePlan.gives_apply_iff.2 ⟨file?, hfile, rfl⟩, houtcomes, rfl⟩

end Command

end CatalogueSync
