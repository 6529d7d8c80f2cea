import CatalogueSync.Command.Basic

/-!
# Runs that succeed

A session gives a value and leaves a workspace (`Session.Gives`). A command gives a result exactly
when every part of it gives what the next part goes on with.
-/

set_option autoImplicit false

namespace CatalogueSync

namespace Session

variable {α β : Type}

/-- A session succeeds with a value and leaves a workspace. -/
def Gives (s : Session α) (w : Workspace) (a : α) (w' : Workspace) : Prop :=
  (s w).2.result = .ok a ∧ (s w).1 = w'

variable {w w' : Workspace}

theorem gives_bind_iff {s : Session α} {f : α → Session β} {b : β} :
    (s >>= f).Gives w b w' ↔ ∃ a middle, s.Gives w a middle ∧ (f a).Gives middle b w' := by
  unfold Gives
  rw [result_bind_eq_ok]
  constructor
  · rintro ⟨⟨a, ha, hb⟩, hw'⟩
    rw [workspace_bind_of_ok ha] at hw'
    exact ⟨a, _, ⟨ha, rfl⟩, hb, hw'⟩
  · rintro ⟨a, _, ⟨ha, rfl⟩, hb, hw'⟩
    exact ⟨⟨a, ha, hb⟩, (workspace_bind_of_ok ha).trans hw'⟩

theorem gives_pure_iff {a b : α} : (pure a : Session α).Gives w b w' ↔ a = b ∧ w = w' := by
  show Except.ok a = .ok b ∧ w = w' ↔ _
  rw [Except.ok.injEq]

theorem gives_look_iff {f : Workspace → Reported α} {a : α} :
    (look f).Gives w a w' ↔ (f w).result = .ok a ∧ w = w' :=
  Iff.rfl

end Session

namespace Command

open Session

variable {o : ProjectOptions} {w w' : Workspace} {r : RunResult}

theorem gives_extract_iff :
    (run (extract o)).Gives w r w' ↔
      ∃ p plan reference, (Project.openAt o w).result = .ok p ∧
        (ReferencePlan.make p w).result = .ok plan ∧
        (plan.apply p false).Gives w reference w' ∧
        r = ⟨plan.issues, .extracted reference⟩ := by
  simp only [run, gives_bind_iff, gives_look_iff, gives_pure_iff]
  constructor
  · rintro ⟨p, _, ⟨hp, rfl⟩, plan, _, ⟨hplan, rfl⟩, reference, _, happly, rfl, rfl⟩
    exact ⟨p, plan, reference, hp, hplan, happly, rfl⟩
  · rintro ⟨p, plan, reference, hp, hplan, happly, rfl⟩
    exact ⟨p, w, ⟨hp, rfl⟩, plan, w, ⟨hplan, rfl⟩, reference, w', happly, rfl, rfl⟩

theorem result_planSync_iff {p : Project} {requested : List Text} {plan : ReferencePlan}
    {plans : List LocalePlan} :
    (planSync p requested w).result = .ok (plan, plans) ↔
      ∃ locales, p.selectLocales w requested = .ok locales ∧
        (ReferencePlan.make p w).result = .ok plan ∧
        LocalePlan.makeAll p w plan.catalogue locales = .ok plans := by
  unfold planSync
  simp only [Reported.result_bind_eq_ok]
  constructor
  · rintro ⟨locales, hlocales, plan', hplan, plans', hplans, heq⟩
    obtain ⟨rfl, rfl⟩ := Prod.mk.inj (Except.ok.inj heq)
    exact ⟨locales, hlocales, hplan, hplans⟩
  · rintro ⟨locales, hlocales, hplan, hplans⟩
    exact ⟨locales, hlocales, plan, hplan, plans, hplans, rfl⟩

theorem gives_sync_iff {requested : List Text} {checkOnly : Bool} :
    (run (sync o requested checkOnly)).Gives w r w' ↔
      ∃ p plan plans middle reference outcomes, (Project.openAt o w).result = .ok p ∧
        (planSync p requested w).result = .ok (plan, plans) ∧
        (plan.apply p checkOnly).Gives w reference middle ∧
        (LocalePlan.applyAll p checkOnly plans).Gives middle outcomes w' ∧
        r = ⟨plan.issues ++ plans.flatMap LocalePlan.issues,
          .synchronised checkOnly reference outcomes⟩ := by
  simp only [run, gives_bind_iff, gives_look_iff, gives_pure_iff]
  constructor
  · rintro ⟨p, _, ⟨hp, rfl⟩, ⟨plan, plans⟩, _, ⟨hplans, rfl⟩, reference, middle, happly, outcomes,
      _, happlyAll, rfl, rfl⟩
    exact ⟨p, plan, plans, middle, reference, outcomes, hp, hplans, happly, happlyAll, rfl⟩
  · rintro ⟨p, plan, plans, middle, reference, outcomes, hp, hplans, happly, happlyAll, rfl⟩
    exact ⟨p, w, ⟨hp, rfl⟩, ⟨plan, plans⟩, w, ⟨hplans, rfl⟩, reference, middle, happly, outcomes,
      w', happlyAll, rfl, rfl⟩

theorem gives_merge_iff {locale : Text} {reference? : Option Path} :
    (run (merge o locale reference?)).Gives w r w' ↔
      ∃ p plan outcome, (Project.openAt o w).result = .ok p ∧
        planMerge p locale ((reference?.map p.messagesRoot.join).getD p.referencePath) w =
          .ok plan ∧
        (plan.apply p false).Gives w outcome w' ∧
        r = ⟨plan.issues, .merged outcome⟩ := by
  simp only [run, gives_bind_iff, gives_look_iff, gives_pure_iff]
  constructor
  · rintro ⟨p, _, ⟨hp, rfl⟩, plan, _, ⟨hplan, rfl⟩, outcome, _, happly, rfl, rfl⟩
    exact ⟨p, plan, outcome, hp, hplan, happly, rfl⟩
  · rintro ⟨p, plan, outcome, hp, hplan, happly, rfl⟩
    exact ⟨p, w, ⟨hp, rfl⟩, plan, w, ⟨hplan, rfl⟩, outcome, w', happly, rfl, rfl⟩

theorem gives_stats_iff {requested : List Text} :
    (run (stats o requested)).Gives w r w' ↔
      ∃ p progress, (Project.openAt o w).result = .ok p ∧ count p requested w = .ok progress ∧
        r = ⟨[], .counted progress⟩ ∧ w' = w := by
  simp only [run, gives_bind_iff, gives_look_iff, gives_pure_iff]
  constructor
  · rintro ⟨p, _, ⟨hp, rfl⟩, progress, _, ⟨hprogress, rfl⟩, rfl, rfl⟩
    exact ⟨p, progress, hp, hprogress, rfl, rfl⟩
  · rintro ⟨p, progress, hp, hprogress, rfl, rfl⟩
    exact ⟨p, _, ⟨hp, rfl⟩, progress, _, ⟨hprogress, rfl⟩, rfl, rfl⟩

end Command

end CatalogueSync
