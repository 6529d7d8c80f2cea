import CatalogueSync.Proofs.Command.Check
import CatalogueSync.Proofs.Command.Failure

/-!
# The reference after an extraction

Statistics and merges need the file of the reference and ask users to extract first if it is not
there. An extraction writes the reference before anything else, and a file that is there stays a
file whatever else is written (`Draft.WritesOnly.isFile`). So the advice helps, as long as the
reference has messages or a file already and the same project is opened afterwards
(`Command.adviceHelps_of_extracts`). An empty text is not written, so that without messages there
may be no file, and a directory that is made on the way can hide the configuration.
-/

set_option autoImplicit false

namespace CatalogueSync

section files

variable {p : Project} {w w' : Workspace} {d : Draft} {ds : List Draft} {files : List Text}
  {path : Path}

/-- A file that is there may get another text but stays a file. -/
theorem Draft.WritesOnly.isFile (h : WritesOnly ds w w') (hfile : w.isFile path) :
    w'.isFile path := by
  unfold Workspace.isFile at hfile
  split at hfile
  · rename_i contents hnode
    obtain ⟨hobstacle, loc, hfollow, hloc⟩ := Workspace.node?_eq_some_iff.1 hnode
    obtain ⟨contents', hloc'⟩ : ∃ contents', w'.tree.node? loc = some (.file contents') := by
      rcases h.files loc with hsame | ⟨d, -, -, htext⟩
      · refine ⟨contents, ?_⟩
        rwa [← FileTree.contents?_eq_some_iff, hsame, FileTree.contents?_eq_some_iff]
      · exact ⟨_, htext⟩
    rw [← Workspace.start_eq_of_home h.home rfl] at hfollow
    have hfollow' := Workspace.follow_of_keepsDirectories h.directories hfollow
    exact Workspace.isFile_of_node?
      (Workspace.node?_eq_some_iff.2 ⟨hobstacle, loc, hfollow', hloc'⟩)
  · cases hfile

/-- The first draft stands in a file once all are applied, if it has a text or had a file. -/
theorem Draft.isFile_of_gives_applyAll (h : (applyAll p false (d :: ds)).Gives w files w')
    (hd : d.text ≠ [] ∨ w.isFile d.path) : w'.isFile d.path := by
  obtain ⟨file?, middle, files', hfirst, hrest, -⟩ := gives_applyAll_cons_iff.1 h
  apply (writesOnly_of_gives_applyAll hrest).isFile
  rcases hd with htext | hfile
  · exact Workspace.isFile_of_node? (node?_of_gives_apply htext hfirst)
  · exact (writesOnly_of_gives_apply hfirst).isFile hfile

end files

section errors

variable {p : Project} {w : Workspace} {f : Failure} {file : Text}

theorem Project.ne_referenceNotFound_of_readCatalogue {path : Path}
    (h : p.readCatalogue w path = .error f) : f ≠ .referenceNotFound file := by
  unfold readCatalogue at h
  split at h
  · split at h
    · obtain rfl := Except.error.inj h
      simp
    · split at h
      · obtain rfl := Except.error.inj h
        simp
      · cases h
  · cases h

theorem Project.ne_referenceNotFound_of_selectLocales {requested : List Text}
    (h : p.selectLocales w requested = .error f) : f ≠ .referenceNotFound file := by
  unfold selectLocales at h
  split at h
  · cases h
  · split at h
    · obtain rfl := Except.error.inj h
      simp
    · cases h

theorem Config.ne_referenceNotFound_of_read {path : Path} (h : read w path = .error f) :
    f ≠ .referenceNotFound file := by
  unfold read at h
  split at h
  · obtain rfl := Except.error.inj h
    simp
  · split at h
    · obtain rfl := Except.error.inj h
      simp
    · split at h
      · obtain rfl := Except.error.inj h
        simp
      · cases h

theorem Project.ne_referenceNotFound_of_openAt {o : ProjectOptions}
    (h : (openAt o w).result = .error f) : f ≠ .referenceNotFound file := by
  unfold openAt Config.load at h
  split at h
  · split at h
    · rename_i path _
      simp only [bind, Reported.andThen, Reported.ofExcept] at h
      cases hread : Config.read w path with
      | error f' =>
        rw [hread] at h
        obtain rfl := Except.error.inj h
        exact Config.ne_referenceNotFound_of_read hread
      | ok c =>
        rw [hread] at h
        cases h
    · cases h
  · obtain rfl := Except.error.inj h
    simp

theorem LocalePlan.ne_referenceNotFound_of_make {reference : ReferenceCatalogue} {locale : Text}
    (h : make p w reference locale = .error f) : f ≠ .referenceNotFound file := by
  unfold make at h
  split at h
  · obtain rfl := Except.error.inj h
    exact Project.ne_referenceNotFound_of_readCatalogue ‹_›
  · split at h
    · obtain rfl := Except.error.inj h
      exact Project.ne_referenceNotFound_of_readCatalogue ‹_›
    · cases h

theorem Command.ne_referenceNotFound_of_progressAll {keys locales : List Text}
    (h : progressAll p w keys locales = .error f) : f ≠ .referenceNotFound file := by
  induction locales with
  | nil => cases h
  | cons locale locales ih =>
    unfold progressAll progress at h
    split at h
    · rename_i hprogress
      obtain rfl := Except.error.inj h
      split at hprogress
      · obtain rfl := Except.error.inj hprogress
        exact Project.ne_referenceNotFound_of_readCatalogue ‹_›
      · cases hprogress
    · cases hall : progressAll p w keys locales with
      | error f' =>
        rw [hall] at h
        obtain rfl := Except.error.inj h
        exact ih hall
      | ok as =>
        rw [hall] at h
        cases h

/-- Statistics find the reference where its file is. -/
theorem Command.ne_referenceNotFound_of_count {requested : List Text}
    (hfile : w.isFile p.referencePath) (h : count p requested w = .error f) :
    f ≠ .referenceNotFound file := by
  unfold count at h
  rw [if_pos hfile] at h
  split at h
  · obtain rfl := Except.error.inj h
    exact Project.ne_referenceNotFound_of_readCatalogue ‹_›
  · split at h
    · obtain rfl := Except.error.inj h
      exact Project.ne_referenceNotFound_of_selectLocales ‹_›
    · exact ne_referenceNotFound_of_progressAll h

/-- A merge finds the reference where its file is. -/
theorem Command.ne_referenceNotFound_of_planMerge {locale : Text} {path : Path}
    (hfile : w.isFile path) (h : planMerge p locale path w = .error f) :
    f ≠ .referenceNotFound file := by
  unfold planMerge at h
  split at h
  · obtain rfl := Except.error.inj h
    exact Project.ne_referenceNotFound_of_selectLocales ‹_›
  · rw [if_pos hfile] at h
    split at h
    · obtain rfl := Except.error.inj h
      exact Project.ne_referenceNotFound_of_readCatalogue ‹_›
    · exact LocalePlan.ne_referenceNotFound_of_make h

end errors

namespace Command

variable {o : ProjectOptions} {p : Project} {w w' : Workspace} {c c' : Command} {f : Failure}
  {plan : ReferencePlan} {colours verbose : Bool}

/-- The commands that extract the reference of a project. -/
inductive Extracts (o : ProjectOptions) : Command → Prop where
  | extract : Extracts o (extract o)
  | sync (requested : List Text) (checkOnly : Bool) : Extracts o (sync o requested checkOnly)

/-- The commands that need the reference of a project to be there. -/
inductive NeedsReference (o : ProjectOptions) : Command → Prop where
  | stats (requested : List Text) : NeedsReference o (stats o requested)
  | merge (locale : Text) : NeedsReference o (merge o locale none)

theorem fails_of_failure? (h : (execute colours verbose c w).failure? = some f) :
    (run c).Fails w f (run c w).1 := by
  refine ⟨?_, rfl⟩
  unfold execute at h
  rcases hrun : run c w with ⟨w', notices, e | r⟩
  · rw [hrun] at h
    exact congrArg Except.error (Option.some.inj h)
  · rw [hrun] at h
    cases h

theorem workspace_execute : (execute colours verbose c w).workspace = (run c w).1 := by
  unfold execute
  rcases run c w with ⟨w', notices, e | r⟩ <;> rfl

/-- The exit status of success stands for a result in which nothing is out of date. -/
theorem exists_gives_of_status (h : (execute colours verbose c w).status = 0) :
    ∃ r, (run c).Gives w r (execute colours verbose c w).workspace ∧ r.outcome.status = 0 := by
  rcases hrun : run c w with ⟨w', notices, e | r⟩
  · unfold execute at h
    rw [hrun] at h
    cases h
  · have hgives : (run c).Gives w r w' := by
      rw [Session.Gives, hrun]
      exact ⟨rfl, rfl⟩
    obtain ⟨hworkspace, -, hstatus, -⟩ := execute_of_gives hgives colours verbose
    exact ⟨r, hworkspace ▸ hgives, hstatus ▸ h⟩

/-- The reference is the first of the drafts that are applied. After a check that has found nothing
out of date applying them would have changed nothing. -/
theorem Extracts.exists_applyAll (hc : Extracts o c)
    (h : (execute colours verbose c w).status = 0) :
    ∃ p plan ds files, (Project.openAt o w).result = .ok p ∧
      (ReferencePlan.make p w).result = .ok plan ∧
      (Draft.applyAll p false (plan.draft :: ds)).Gives w files
        (execute colours verbose c w).workspace := by
  obtain ⟨r, hgives, hstatus⟩ := exists_gives_of_status h
  cases hc with
  | extract =>
    obtain ⟨p, plan, reference, hp, hplan, happly, -⟩ := gives_extract_iff.1 hgives
    obtain ⟨file?, hfile, -⟩ := ReferencePlan.gives_apply_iff.1 happly
    exact ⟨p, plan, [], _, hp, hplan, Draft.gives_applyAll_cons_iff.2
      ⟨file?, _, [], hfile, Draft.gives_applyAll_nil_iff.2 ⟨rfl, rfl⟩, rfl⟩⟩
  | sync requested checkOnly =>
    obtain ⟨p, plan, plans, file?, outcomes, hp, hplans, happly, -, rfl⟩ := of_gives_sync hgives
    obtain ⟨-, -, hplan, -⟩ := result_planSync_iff.1 hplans
    refine ⟨p, plan, plans.flatMap (LocalePlan.drafts p),
      file?.toList ++ outcomes.flatMap fun l => l.changedFiles, hp, hplan, ?_⟩
    cases checkOnly with
    | false => exact happly
    | true =>
      rw [Outcome.status_eq_zero_iff, changedCount_outcome, List.length_eq_zero_iff] at hstatus
      rw [hstatus] at happly ⊢
      obtain ⟨hresult, hworkspace⟩ := Draft.gives_applyAll_true p w (drafts p plan plans)
      rw [happly.1, Except.ok.injEq] at hresult
      have hsame : ∀ d ∈ drafts p plan plans, ¬ d.Differs w := by
        simpa [List.filter_eq_nil_iff] using hresult.symm
      rw [← happly.2, hworkspace]
      exact Draft.applyAll_of_not_differs p hsame

/-- What needs the reference finds it in a project that has its file. -/
theorem NeedsReference.not_fails {file : Text} (hc : NeedsReference o c)
    (hfile : ∀ p, (Project.openAt o w).result = .ok p → w.isFile p.referencePath) :
    ¬ (run c).Fails w (.referenceNotFound file) w' := by
  intro h
  cases hc with
  | stats requested =>
    rcases Session.fails_bind_iff.1 h with hopen | ⟨p, _, ⟨hp, rfl⟩, h⟩
    · exact Project.ne_referenceNotFound_of_openAt hopen.1 rfl
    rcases Session.fails_bind_iff.1 h with hcount | ⟨_, _, -, hpure⟩
    · exact ne_referenceNotFound_of_count (hfile p hp) hcount.1 rfl
    · exact Session.not_fails_pure hpure
  | merge locale =>
    rcases Session.fails_bind_iff.1 h with hopen | ⟨p, _, ⟨hp, rfl⟩, h⟩
    · exact Project.ne_referenceNotFound_of_openAt hopen.1 rfl
    rcases Session.fails_bind_iff.1 h with hplan | ⟨l, _, -, h⟩
    · exact ne_referenceNotFound_of_planMerge (hfile p hp) hplan.1 rfl
    rcases Session.fails_bind_iff.1 h with happly | ⟨_, _, -, hpure⟩
    · obtain ⟨⟨cause, hcause⟩, -⟩ := Draft.of_fails_applyAll (LocalePlan.fails_apply_iff.1 happly)
      cases hcause
    · exact Session.not_fails_pure hpure

/-- After a run that has succeeded, nothing that needs the reference asks to extract it first. -/
def AdviceHelps (o : ProjectOptions) (c : Command) (w : Workspace) : Prop :=
  ∀ colours verbose, (execute colours verbose c w).status = 0 →
    ∀ c', NeedsReference o c' → ∀ colours' verbose' file,
      (execute colours' verbose' c' (execute colours verbose c w).workspace).failure? ≠
        some (.referenceNotFound file)

/-- Extracting first helps, as long as there are messages or the reference has a file already, and
no other project is opened afterwards. -/
theorem adviceHelps_of_extracts (hc : Extracts o c) (hp : (Project.openAt o w).result = .ok p)
    (hreference : ∀ plan, (ReferencePlan.make p w).result = .ok plan →
      plan.catalogue.entries ≠ [] ∨ w.isFile p.referencePath)
    (hsame : ∀ p', (Project.openAt o (run c w).1).result = .ok p' → p' = p) :
    AdviceHelps o c w := by
  intro colours verbose hstatus c' hc' colours' verbose' file hfailure
  obtain ⟨p', plan, ds, files, hp', hplan, happly⟩ := hc.exists_applyAll hstatus
  obtain rfl := Except.ok.inj (hp.symm.trans hp')
  obtain ⟨hdraft, ts, hx⟩ := ReferencePlan.of_make hplan
  have hfile : (execute colours verbose c w).workspace.isFile p.referencePath := by
    have hstored := Draft.isFile_of_gives_applyAll happly
    rw [hdraft] at hstored
    refine hstored ((hreference plan hplan).imp_left fun hne => ?_)
    exact ReferenceCatalogue.print_ne_nil p.sourceTag (Extraction.of_ofTemplates hx).1 hne
  refine hc'.not_fails ?_ (fails_of_failure? hfailure)
  intro p' hopen
  rw [workspace_execute] at hopen
  rwa [hsame p' hopen]

/-- Templates that have lost their messages leave a reference without text, which is found. -/
theorem adviceHelps_of_extracts_emptied :
    let w := Workspace.ofTexts [("data/pages/t", "plain"),
      ("data/page-l10n/reference.messages", "\x7b%msg%\x7dx\x7b%en%\x7da\x7b%endmsg%\x7d")]
    let e := execute false false (extract {}) w
    e.workspace.tree.contents?
        ["data".toList, "page-l10n".toList, "reference.messages".toList] = some (.text []) ∧
      e.status = 0 ∧ AdviceHelps {} (extract {}) w := by
  intro w e
  let p : Project := ⟨{}, .here, .ofText "./data/pages".toList, .ofText "./data/page-l10n".toList⟩
  have hp : (Project.openAt {} w).result = .ok p := by decide +kernel
  have hp' : (Project.openAt {} (run (extract {}) w).1).result = .ok p := by decide +kernel
  have hfile : w.isFile p.referencePath := by decide +kernel
  exact ⟨by decide +kernel, by decide +kernel,
    adviceHelps_of_extracts .extract hp (fun _ _ => .inr hfile)
      fun _ hopen => Except.ok.inj (hopen.symm.trans hp')⟩

/-- Without messages no file is made for the reference, and a directory that is made on the way to
it can hide the configuration. -/
theorem not_adviceHelps :
    let w := Workspace.ofTexts [("data/pages/t", "plain")]
    let w' := Workspace.ofTexts [(".l10nrc.json", "\x7b\"messagesRoot\": \".git/l10n\"\x7d"),
      ("sub/data/pages/t", "\x7b\x7b 'a'|trans \x7d\x7d")]
    let inner : ProjectOptions := { root := .ofText "sub".toList }
    ¬ AdviceHelps {} (extract {}) w ∧ ¬ AdviceHelps {} (sync {} ["de".toList] false) w ∧
      ¬ AdviceHelps inner (extract inner) w' := by
  intro w w' inner
  let file := "data/page-l10n/reference.messages".toList
  refine ⟨?_, ?_, ?_⟩
  · intro h
    exact h false false (by decide +kernel) _ (.stats []) false false file (by decide +kernel)
  · intro h
    exact h false false (by decide +kernel) _ (.merge "de".toList) false false file
      (by decide +kernel)
  · intro h
    exact h false false (by decide +kernel) _ (.stats []) false false file (by decide +kernel)

end Command

end CatalogueSync
