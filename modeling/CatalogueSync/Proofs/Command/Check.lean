import CatalogueSync.Command.Execution
import CatalogueSync.Proofs.Command.Merge
import CatalogueSync.Proofs.Project.Drafts
import CatalogueSync.Proofs.Report.Lines

/-!
# Checks

A check looks what a synchronisation would write. Its lines name as many files as the number that
it ends with says (`Printed.countP_synchronised`), and its exit status says whether there are any
(`Outcome.status_eq_one_iff`). It finds files that are out of date exactly when the synchronisation
writes any (`Command.check_of_gives_sync`).
-/

set_option autoImplicit false

namespace CatalogueSync

section report

variable {reference : ReferenceOutcome} {outcomes : List LocaleOutcome}

namespace Outcome

theorem isOutOfDate_iff :
    (synchronised true reference outcomes).isOutOfDate ↔ 0 < changedCount reference outcomes := by
  unfold isOutOfDate changedCount
  rw [Bool.or_eq_true, List.any_eq_true, Nat.add_pos_iff_pos_or_pos, List.length_pos_iff_ne_nil,
    ne_eq, List.flatMap_eq_nil_iff]
  refine or_congr (by cases reference.changed <;> simp) ?_
  simp

theorem status_eq_one_iff :
    (synchronised true reference outcomes).status = 1 ↔ 0 < changedCount reference outcomes := by
  rw [← isOutOfDate_iff, status]
  split <;> simp [*]

theorem status_eq_zero_iff :
    (synchronised true reference outcomes).status = 0 ↔ changedCount reference outcomes = 0 := by
  have hcount : changedCount reference outcomes = 0 ↔ ¬ 0 < changedCount reference outcomes := by
    omega
  rw [hcount, ← isOutOfDate_iff, status]
  split <;> simp [*]

end Outcome

end report

namespace Command

variable {o : ProjectOptions} {w w' : Workspace} {requested : List Text} {r : RunResult}

/-- How a run that succeeds is carried out. -/
theorem execute_of_gives {c : Command} (h : (run c).Gives w r w') (colours verbose : Bool) :
    (execute colours verbose c w).workspace = w' ∧
      (execute colours verbose c w).output =
        (Report.ofRun verbose r.issues r.outcome).render colours ∧
      (execute colours verbose c w).status = r.outcome.status ∧
      (execute colours verbose c w).failure? = none := by
  obtain ⟨hresult, rfl⟩ := h
  unfold execute
  rcases hrun : run c w with ⟨w'', notices, result⟩
  rw [hrun] at hresult
  simp only at hresult
  subst hresult
  exact ⟨rfl, rfl, rfl, rfl⟩

theorem changedCount_outcome (p : Project) (plan : ReferencePlan) (file? : Option Text)
    (outcomes : List LocaleOutcome) :
    Outcome.changedCount (plan.outcome p file?.isSome) outcomes =
      (file?.toList ++ outcomes.flatMap fun l => l.changedFiles).length := by
  rw [Outcome.changedCount, List.length_append]
  cases file? <;> rfl

/-- Where a synchronisation succeeds, a check finds the same but writes nothing, and both print what
they found. The exit status of the check is 1 exactly when the synchronisation writes a file, and
agrees with what the check prints. -/
theorem check_of_gives_sync (h : (run (sync o requested false)).Gives w r w')
    (colours verbose : Bool) :
    ∃ issues reference outcomes reference' outcomes',
      r = ⟨issues, .synchronised false reference outcomes⟩ ∧
      (run (sync o requested true)).Gives w
        ⟨issues, .synchronised true reference' outcomes'⟩ w ∧
      { reference' with changed := reference.changed } = reference ∧
      outcomes'.map LocaleOutcome.withoutFiles = outcomes.map LocaleOutcome.withoutFiles ∧
      (execute colours verbose (sync o requested false) w).output =
        (Printed.synchronised colours verbose false issues reference outcomes).flatten ∧
      let e := execute colours verbose (sync o requested true) w
      let lines := Printed.synchronised colours verbose true issues reference' outcomes'
      e.workspace = w ∧ e.failure? = none ∧ e.output = lines.flatten ∧
      (e.status = 0 ∨ e.status = 1) ∧
      (e.status = 1 ↔ 0 < Outcome.changedCount reference outcomes) ∧
      (e.status = 0 → w' = w) ∧
      (∀ n, Printed.outOfDate colours n ∈ lines →
        n = lines.countP (Printed.saysWouldUpdate colours)) ∧
      (e.status = 1 ↔ ∃ n, Printed.outOfDate colours n ∈ lines ∧ 0 < n) ∧
      (e.status = 0 ↔ Printed.upToDate colours ∈ lines) := by
  obtain ⟨p, plan, plans, file?, outcomes, hp, hplans, happly, hnumbers, rfl⟩ := of_gives_sync h
  obtain ⟨file?', outcomes', hfiles, hnumbers', hcheck⟩ :=
    exists_gives_sync hp hplans (Draft.gives_applyAll_true p w (drafts p plan plans))
  refine ⟨_, _, outcomes, plan.outcome p file?'.isSome, outcomes', rfl, hcheck, rfl,
    hnumbers'.trans hnumbers.symm, ?_, ?_⟩
  · obtain ⟨-, houtput, -⟩ := execute_of_gives h colours verbose
    exact houtput.trans (Report.render_synchronised ..)
  intro e lines
  obtain ⟨hworkspace, houtput, hstatus, hfailure⟩ := execute_of_gives hcheck colours verbose
  have hcount := changedCount_outcome p plan file? outcomes
  have hcount' := changedCount_outcome p plan file?' outcomes'
  -- one of them writes nothing exactly when the other has nothing to name
  have hiff : Outcome.changedCount (plan.outcome p file?'.isSome) outcomes' = 0 ↔
      Outcome.changedCount (plan.outcome p file?.isSome) outcomes = 0 := by
    rw [hcount, hcount', ← hfiles, List.length_eq_zero_iff, List.length_eq_zero_iff,
      Draft.applyAll_eq_nil_iff happly]
    simp [List.filter_eq_nil_iff]
  refine ⟨hworkspace, hfailure, houtput.trans (Report.render_synchronised ..), ?_, ?_, ?_, ?_, ?_,
    ?_⟩
  · rw [hstatus]
    exact (ite_eq_or_eq ..).symm
  · rw [hstatus, Outcome.status_eq_one_iff, Nat.pos_iff_ne_zero, Nat.pos_iff_ne_zero, ne_eq, hiff]
  · intro hzero
    rw [hstatus, Outcome.status_eq_zero_iff, hiff, hcount, List.length_eq_zero_iff] at hzero
    exact Draft.eq_of_applyAll_nil (hzero ▸ happly)
  · intro n hmem
    rw [Printed.countP_synchronised, (Printed.outOfDate_mem_synchronised_iff.1 hmem).1]
  · rw [hstatus, Outcome.status_eq_one_iff]
    simp only [lines, Printed.outOfDate_mem_synchronised_iff]
    constructor
    · intro hpos
      exact ⟨_, ⟨rfl, hpos.ne'⟩, hpos⟩
    · rintro ⟨n, ⟨rfl, -⟩, hpos⟩
      exact hpos
  · rw [hstatus, Outcome.status_eq_zero_iff, Printed.upToDate_mem_synchronised_iff]

/-- A locale that is asked for twice is written once but named twice. -/
theorem check_of_gives_sync_repeated :
    let o : ProjectOptions := {}
    let w := Workspace.ofTexts [("data/pages/t", "\x7b\x7b 'a'|trans \x7d\x7d"),
      ("data/page-l10n/de", "\x7b%msg%\x7dx\x7b%en%\x7db\x7b%endmsg%\x7d")]
    let files := ["data/page-l10n/de".toList, "data/page-l10n/de.unused".toList]
    let reference : ReferenceOutcome := ⟨1, 1, "data/page-l10n/reference.messages".toList, true, 0⟩
    let issues : List Issue :=
      [.pending "de".toList "a".toList, .demoted "de".toList "b".toList]
    let outcome : List Text → LocaleOutcome := .mk ⟨"de".toList, 0, 1⟩ 1 0 1 0
    let e := execute false false (sync o ["de".toList, "de".toList] true) w
    (run (sync o ["de".toList, "de".toList] false) w).2.result =
        .ok ⟨issues ++ issues, .synchronised false reference [outcome files, outcome []]⟩ ∧
      (run (sync o ["de".toList, "de".toList] true) w).2.result =
        .ok ⟨issues ++ issues, .synchronised true reference [outcome files, outcome files]⟩ ∧
      e.workspace = w ∧ e.status = 1 := by
  intro o w files reference issues outcome e
  have hresult : (run (sync o ["de".toList, "de".toList] false) w).2.result =
      .ok ⟨issues ++ issues, .synchronised false reference [outcome files, outcome []]⟩ := by
    decide +kernel
  obtain ⟨_, _, _, _, _, hr, -, -, -, -, hworkspace, -, -, -, hstatus, -⟩ :=
    check_of_gives_sync ⟨hresult, rfl⟩ false false
  obtain ⟨-, hreference, houtcomes⟩ := Outcome.synchronised.inj (RunResult.mk.inj hr).2
  refine ⟨hresult, by decide +kernel, hworkspace, hstatus.2 ?_⟩
  rw [← hreference, ← houtcomes]
  decide +kernel

end Command

end CatalogueSync
