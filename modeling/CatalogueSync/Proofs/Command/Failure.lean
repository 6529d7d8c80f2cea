import CatalogueSync.Proofs.Command.Merge
import CatalogueSync.Proofs.Project.Drafts
import CatalogueSync.Proofs.Workspace.Room

/-!
# Runs that fail

A run that fails before it writes leaves the workspace as it was. The files are written one after
the other, so that a write that fails leaves those before it: every file is as it was or has the
whole text that was planned for it (`Command.of_fails_run`). This takes a file for which there was
no room; a run can find that out when it has written another one (`Command.fails_run_half_way`).
-/

set_option autoImplicit false

namespace CatalogueSync

namespace Session

variable {α β : Type} {w w' : Workspace}

/-- A session fails and leaves a workspace. -/
def Fails (s : Session α) (w : Workspace) (f : Failure) (w' : Workspace) : Prop :=
  (s w).2.result = .error f ∧ (s w).1 = w'

variable {f : Failure} {s : Session α}

theorem Fails.not_gives {a : α} {w'' : Workspace} (h : s.Fails w f w') : ¬ s.Gives w a w'' := by
  rintro ⟨hresult, -⟩
  rw [h.1] at hresult
  cases hresult

theorem fails_bind_iff {g : α → Session β} :
    (s >>= g).Fails w f w' ↔
      s.Fails w f w' ∨ ∃ a middle, s.Gives w a middle ∧ (g a).Fails middle f w' := by
  unfold Fails Gives
  simp only [bind, andThen]
  rcases s w with ⟨middle, notices, e | a⟩ <;> simp

theorem not_fails_pure {a : α} : ¬ (pure a : Session α).Fails w f w' := by
  rintro ⟨hresult, -⟩
  cases hresult

/-- A session that first looks at the workspace changes nothing if it fails at that. -/
theorem of_fails_look_bind {g : Workspace → Reported α} {k : α → Session β}
    (h : (look g >>= k).Fails w f w') :
    w' = w ∨ ∃ a, (g w).result = .ok a ∧ (k a).Fails w f w' := by
  rcases fails_bind_iff.1 h with hlook | ⟨a, _, ⟨ha, rfl⟩, hk⟩
  · exact .inl hlook.2.symm
  · exact .inr ⟨a, ha, hk⟩

end Session

namespace Draft

variable {p : Project} {w w' : Workspace} {d : Draft} {ds ds' : List Draft} {f : Failure}

theorem fails_apply_iff :
    (d.apply p false).Fails w f w' ↔
      d.Differs w ∧
        ∃ cause, f = .unwritable cause ∧ w.write d.path d.text = (w', .error cause) := by
  unfold Session.Fails apply Differs Workspace.writeIfChanged
  cases w.wouldChange d.path d.text with
  | false => simp [Reported.ok]
  | true =>
    rcases w.write d.path d.text with ⟨w'', e | u⟩
    · simp [Reported.fail, eq_comm]
    · simp

theorem fails_applyAll_cons_iff :
    (applyAll p false (d :: ds)).Fails w f w' ↔
      (d.apply p false).Fails w f w' ∨
        ∃ file? middle, (d.apply p false).Gives w file? middle ∧
          (applyAll p false ds).Fails middle f w' := by
  simp only [applyAll, Session.fails_bind_iff, Session.not_fails_pure, and_false, exists_false,
    or_false]

theorem fails_applyAll_append_iff :
    (applyAll p false (ds ++ ds')).Fails w f w' ↔
      (applyAll p false ds).Fails w f w' ∨
        ∃ files middle, (applyAll p false ds).Gives w files middle ∧
          (applyAll p false ds').Fails middle f w' := by
  induction ds generalizing w with
  | nil => simp [applyAll, Session.not_fails_pure, Session.gives_pure_iff]
  | cons d ds ih =>
    simp only [List.cons_append, fails_applyAll_cons_iff, gives_applyAll_cons_iff, ih]
    constructor
    · rintro (hd | ⟨file?, middle, hd, hds | ⟨files, middle', hds, hds'⟩⟩)
      · exact .inl (.inl hd)
      · exact .inl (.inr ⟨file?, middle, hd, hds⟩)
      · exact .inr ⟨_, middle', ⟨file?, middle, files, hd, hds, rfl⟩, hds'⟩
    · rintro ((hd | ⟨file?, middle, hd, hds⟩) |
        ⟨_, middle', ⟨file?, middle, files, hd, hds, -⟩, hds'⟩)
      · exact .inl hd
      · exact .inr ⟨file?, middle, hd, .inl hds⟩
      · exact .inr ⟨file?, middle, hd, .inr ⟨files, middle', hds, hds'⟩⟩

/-- Only writing fails, and it leaves whole files. -/
theorem of_fails_applyAll (h : (applyAll p false ds).Fails w f w') :
    (∃ cause, f = .unwritable cause) ∧ WritesOnly ds w w' := by
  induction ds generalizing w with
  | nil => exact absurd h Session.not_fails_pure
  | cons d ds ih =>
    rcases fails_applyAll_cons_iff.1 h with hd | ⟨file?, middle, hd, hds⟩
    · obtain ⟨-, cause, hf, hwrite⟩ := fails_apply_iff.1 hd
      exact ⟨⟨cause, hf⟩, .of_leaves (Workspace.leaves_of_write_error hwrite) _⟩
    · obtain ⟨hf, happlied⟩ := ih hds
      have hfirst := writesOnly_of_gives_apply hd
      exact ⟨hf, (hfirst.mono (by simp)).trans (happlied.mono fun d' => List.mem_cons_of_mem d)⟩

/-- Where there is room for all files, all can be written. -/
theorem not_fails_applyAll (hroom : ∀ d ∈ ds, w.HasRoom d.path) :
    ¬ (applyAll p false ds).Fails w f w' := by
  induction ds generalizing w with
  | nil => exact Session.not_fails_pure
  | cons d ds ih =>
    obtain ⟨hd, hds⟩ := List.forall_mem_cons.1 hroom
    rw [fails_applyAll_cons_iff]
    rintro (hfails | ⟨file?, middle, hgives, hfails⟩)
    · obtain ⟨-, cause, -, hwrite⟩ := fails_apply_iff.1 hfails
      obtain ⟨w'', hw''⟩ := hd.exists_write d.text
      rw [hw''] at hwrite
      cases (Prod.mk.inj hwrite).2
    · refine ih ?_ hfails
      rcases gives_apply_false_iff.1 hgives with ⟨-, -, rfl⟩ | ⟨-, -, hwrite⟩
      · exact hds
      · exact fun d' hd' => hd.of_write (hds d' hd') hwrite

end Draft

section plans

variable {p : Project} {w w' : Workspace} {f : Failure}

theorem ReferencePlan.fails_apply_iff {plan : ReferencePlan} :
    (plan.apply p false).Fails w f w' ↔ (plan.draft.apply p false).Fails w f w' := by
  simp only [apply, Session.fails_bind_iff, Session.not_fails_pure, and_false, exists_false,
    or_false]

theorem LocalePlan.fails_apply_iff {l : LocalePlan} :
    (l.apply p false).Fails w f w' ↔ (Draft.applyAll p false (l.drafts p)).Fails w f w' := by
  simp only [apply, Session.fails_bind_iff, Session.not_fails_pure, and_false, exists_false,
    or_false]

theorem LocalePlan.fails_applyAll {ls : List LocalePlan}
    (h : (applyAll p false ls).Fails w f w') :
    (Draft.applyAll p false (ls.flatMap (drafts p))).Fails w f w' := by
  induction ls generalizing w with
  | nil => exact absurd h Session.not_fails_pure
  | cons l ls ih =>
    simp only [applyAll, Session.fails_bind_iff, Session.not_fails_pure, and_false, exists_false,
      or_false] at h
    rw [List.flatMap_cons, Draft.fails_applyAll_append_iff]
    rcases h with hl | ⟨outcome, middle, hl, hls⟩
    · exact .inl (fails_apply_iff.1 hl)
    · obtain ⟨files, hfiles, -⟩ := gives_apply_iff.1 hl
      exact .inr ⟨files, middle, hfiles, ih hls⟩

end plans

namespace Command

/-- What a command has planned to write when it starts writing. -/
inductive Plans : Command → Workspace → Project → List Draft → Prop where
  | extract {o : ProjectOptions} {w : Workspace} {p : Project} {plan : ReferencePlan}
      (opened : (Project.openAt o w).result = .ok p)
      (planned : (ReferencePlan.make p w).result = .ok plan) :
      Plans (extract o) w p [plan.draft]
  | sync {o : ProjectOptions} {w : Workspace} {p : Project} {requested : List Text}
      {plan : ReferencePlan} {plans : List LocalePlan}
      (opened : (Project.openAt o w).result = .ok p)
      (planned : (planSync p requested w).result = .ok (plan, plans)) :
      Plans (sync o requested false) w p (drafts p plan plans)
  | merge {o : ProjectOptions} {w : Workspace} {p : Project} {locale : Text}
      {reference? : Option Path} {l : LocalePlan}
      (opened : (Project.openAt o w).result = .ok p)
      (planned : planMerge p locale
        ((reference?.map p.messagesRoot.join).getD p.referencePath) w = .ok l) :
      Plans (merge o locale reference?) w p (l.drafts p)

variable {c : Command} {w w' : Workspace} {f : Failure}

theorem eq_of_fails_writeConfig (h : writeConfig.Fails w f w') : w' = w := by
  obtain ⟨hresult, rfl⟩ := h
  unfold writeConfig at hresult ⊢
  split
  · rfl
  · rename_i hnode
    rw [if_neg hnode] at hresult
    split
    · rfl
    · rename_i hreplace
      rw [hreplace] at hresult
      cases hresult

/-- A run fails before it writes, or when it applies the drafts of its plan. -/
theorem of_fails (h : (run c).Fails w f w') :
    w' = w ∨ ∃ p ds, Plans c w p ds ∧ (Draft.applyAll p false ds).Fails w f w' := by
  cases c with
  | extract o =>
    rcases Session.of_fails_look_bind h with heq | ⟨p, hp, h⟩
    · exact .inl heq
    rcases Session.of_fails_look_bind h with heq | ⟨plan, hplan, h⟩
    · exact .inl heq
    rcases Session.fails_bind_iff.1 h with happly | ⟨_, _, -, hpure⟩
    · refine .inr ⟨p, _, .extract hp hplan, ?_⟩
      exact Draft.fails_applyAll_cons_iff.2 (.inl (ReferencePlan.fails_apply_iff.1 happly))
    · exact absurd hpure Session.not_fails_pure
  | sync o requested checkOnly =>
    have hfails := h
    rcases Session.of_fails_look_bind h with heq | ⟨p, hp, h⟩
    · exact .inl heq
    rcases Session.of_fails_look_bind h with heq | ⟨⟨plan, plans⟩, hplans, h⟩
    · exact .inl heq
    cases checkOnly with
    | true =>
      -- nothing can fail when nothing is written
      obtain ⟨_, _, -, -, hcheck⟩ := exists_gives_sync hp hplans
        (Draft.gives_applyAll_true p w _)
      exact absurd hcheck hfails.not_gives
    | false =>
      refine .inr ⟨p, _, .sync hp hplans, ?_⟩
      rw [drafts, Draft.fails_applyAll_cons_iff]
      rcases Session.fails_bind_iff.1 h with happly | ⟨_, middle, hreference, h⟩
      · exact .inl (ReferencePlan.fails_apply_iff.1 happly)
      · obtain ⟨file?, hfile, -⟩ := ReferencePlan.gives_apply_iff.1 hreference
        rcases Session.fails_bind_iff.1 h with happlyAll | ⟨_, _, -, hpure⟩
        · exact .inr ⟨file?, middle, hfile, LocalePlan.fails_applyAll happlyAll⟩
        · exact absurd hpure Session.not_fails_pure
  | merge o locale reference? =>
    rcases Session.of_fails_look_bind h with heq | ⟨p, hp, h⟩
    · exact .inl heq
    rcases Session.of_fails_look_bind h with heq | ⟨l, hl, h⟩
    · exact .inl heq
    rcases Session.fails_bind_iff.1 h with happly | ⟨_, _, -, hpure⟩
    · exact .inr ⟨p, _, .merge hp hl, LocalePlan.fails_apply_iff.1 happly⟩
    · exact absurd hpure Session.not_fails_pure
  | stats o requested =>
    rcases Session.of_fails_look_bind h with heq | ⟨p, -, h⟩
    · exact .inl heq
    rcases Session.of_fails_look_bind h with heq | ⟨progress, -, hpure⟩
    · exact .inl heq
    · exact absurd hpure Session.not_fails_pure
  | init =>
    rcases Session.fails_bind_iff.1 h with hwrite | ⟨_, _, -, hpure⟩
    · exact .inl (eq_of_fails_writeConfig hwrite)
    · exact absurd hpure Session.not_fails_pure

/-- A run that fails leaves the workspace as it was, unless a file cannot be written for which there
is no room. Even then each file is as it was or has the whole text that was planned for it. -/
theorem of_fails_run (h : (run c).Fails w f w') :
    w' = w ∨ ∃ p ds cause, f = .unwritable cause ∧ Plans c w p ds ∧
      (∃ d ∈ ds, ¬ w.HasRoom d.path) ∧ Draft.WritesOnly ds w w' := by
  rcases of_fails h with heq | ⟨p, ds, hplans, hfails⟩
  · exact .inl heq
  · obtain ⟨⟨cause, hcause⟩, happlied⟩ := Draft.of_fails_applyAll hfails
    refine .inr ⟨p, ds, cause, hcause, hplans, ?_, happlied⟩
    by_contra hroom
    push Not at hroom
    exact Draft.not_fails_applyAll hroom hfails

/-- The second locale cannot be read, so that nothing is written for the first one. -/
theorem of_fails_run_malformed :
    let w := Workspace.ofTexts [("data/pages/t", "\x7b\x7b 'a'|trans \x7d\x7d"),
      ("data/page-l10n/fr", "\x7b%msg%\x7dx\x7b%en%\x7db")]
    let c := sync {} ["de".toList, "fr".toList] false
    let cause : ParseError := .unterminatedBlock 1 ["plural".toList, "endmsg".toList]
    (run c).Fails w (.malformed ⟨"data/page-l10n/fr".toList, cause⟩) w := by
  intro w c cause
  have hresult : (run c w).2.result = .error (.malformed ⟨"data/page-l10n/fr".toList, cause⟩) := by
    decide +kernel
  rcases of_fails_run ⟨hresult, rfl⟩ with heq | ⟨_, _, _, hf, -⟩
  · exact ⟨hresult, heq⟩
  · cases hf

/-- The reference is configured to stand where the catalogue of a locale would have to be a
directory. It is written before that is found out. -/
theorem fails_run_half_way :
    let w := Workspace.ofTexts [(".l10nrc.json", "\x7b\"referenceFile\": \"de/x\"\x7d"),
      ("data/pages/t", "\x7b\x7b 'a'|trans \x7d\x7d")]
    let c := sync {} ["de".toList] false
    let loc := ["data".toList, "page-l10n".toList, "de".toList, "x".toList]
    ∃ w', (run c).Fails w
        (.unwritable (.replaceFile (.ofText "./data/page-l10n/de".toList) .isADirectory)) w' ∧
      w.tree.contents? loc = none ∧
      w'.tree.contents? loc =
        some (.text "\x7b% msg t#L1 %\x7d\n\x7b% en %\x7d\na\n\x7b% endmsg %\x7d\n".toList) := by
  intro w c loc
  exact ⟨_, ⟨by decide +kernel, rfl⟩, by decide +kernel, by decide +kernel⟩

end Command

end CatalogueSync
