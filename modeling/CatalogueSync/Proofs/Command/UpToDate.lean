import CatalogueSync.Proofs.Command.Check
import CatalogueSync.Proofs.Project.Locales
import CatalogueSync.Proofs.Project.Search

/-!
# Synchronising again

A project that was just synchronised is up to date: its templates and its locales are found again,
the written catalogues are read back and planned anew with the same texts
(`Command.staysUpToDate_of_hasParts`).
-/

set_option autoImplicit false

namespace CatalogueSync

variable {o : ProjectOptions} {p : Project} {w w' : Workspace} {requested locales : List Text}
  {plan : ReferencePlan} {plans : List LocalePlan} {ds : List Draft}

section found

/-- The drafts for a directory that the templates are not above change no template. -/
theorem ReferencePlan.make_of_writesOnly (h : Draft.WritesOnly ds w w')
    (hds : Draft.ShareDirectory p.messagesRoot.base ds) (hroot : w.isDirectory p.templatesRoot)
    (hapart : ¬ w.target p.templatesRoot <+: w.target p.messagesRoot) :
    make p w' = make p w := by
  have hroot' := Workspace.isDirectory_of_keepsDirectories h.directories h.home hroot
  refine make_of_beside h.home (hroot'.trans hroot.symm) hapart fun loc => ?_
  refine (h.files loc).imp_right ?_
  rintro ⟨d, hd, rfl, -⟩
  obtain ⟨name, hpath, hname, -⟩ := hds.named d hd
  exact ⟨name, by rw [hpath, Workspace.target_base_name hname]⟩

/-- The names of what a synchronisation writes in the place of locales are those of its locales. -/
theorem Command.exists_of_isLocaleFile (hdraft : plan.draft.path = p.referencePath)
    (hplain : Path.IsPlainName p.config.referenceFile)
    (hnames : ∀ l ∈ plans, p.Distinguishes l.locale) {d : Draft} (hd : d ∈ drafts p plan plans)
    {name : Text} (hname : p.isLocaleFile name)
    (hpath : d.path = ⟨p.messagesRoot.base ++ [name]⟩) : ∃ l ∈ plans, l.locale = name := by
  simp only [Project.isLocaleFile, Bool.and_eq_true, Bool.not_eq_true', bne_iff_ne] at hname
  obtain ⟨⟨⟨hreference, -⟩, hunused⟩, -⟩ := hname
  rcases mem_drafts_iff.1 hd with rfl | ⟨l, hl, rfl | rfl⟩
  · rw [hdraft, Project.referencePath, Project.join_ofText hplain.1, Project.path_name_inj] at hpath
    exact absurd hpath.symm hreference
  · rw [Project.localePath_eq (hnames l hl), Project.path_name_inj] at hpath
    exact ⟨l, hl, hpath⟩
  · rw [Project.unusedPath_eq (hnames l hl), Project.path_name_inj] at hpath
    have hsuffix := List.isSuffixOf_iff_suffix.2 (List.suffix_append l.locale Locale.unusedSuffix)
    rw [← hpath] at hunused
    exact absurd (hunused.symm.trans hsuffix) Bool.false_ne_true

/-- Beside each other there are the same locales as before, if all that were synchronised were there
already and no way to the catalogues goes up through a directory that is new. -/
theorem Command.locales_of_goesUp (h : Draft.WritesOnly (drafts p plan plans) w w')
    (hdraft : plan.draft.path = p.referencePath)
    (hplain : Path.IsPlainName p.config.referenceFile)
    (hds : Draft.ShareDirectory p.messagesRoot.base (drafts p plan plans))
    (hnames : ∀ l ∈ plans, p.Distinguishes l.locale)
    (hfound : ∀ l ∈ plans, l.locale ∈ p.locales w)
    (hparts : w.HasParts [['.', '.']] p.messagesRoot.segments) :
    p.locales w' = p.locales w := by
  have hbeside : ∀ name, p.isLocaleFile name →
      (w'.tree.contents? (w.target p.messagesRoot ++ [name])).isSome =
        (w.tree.contents? (w.target p.messagesRoot ++ [name])).isSome := by
    intro name hname
    rcases h.files (w.target p.messagesRoot ++ [name]) with hsame | ⟨d, hd, htarget, hnode⟩
    · rw [hsame]
    · obtain ⟨name', hpath, hname', -⟩ := hds.named d hd
      rw [hpath, Workspace.target_base_name hname'] at htarget
      obtain rfl := (List.cons.inj (List.append_cancel_left htarget)).1
      obtain ⟨l, hl, rfl⟩ := exists_of_isLocaleFile hdraft hplain hnames hd hname hpath
      have hmem := hfound l hl
      rw [Project.locales_eq] at hmem
      split at hmem
      · obtain ⟨_, hold⟩ := FileTree.mem_fileNames_iff.1 (List.mem_of_mem_filter hmem)
        rw [FileTree.contents?_eq_some_iff.2 hnode, FileTree.contents?_eq_some_iff.2 hold]
        rfl
      · cases hmem
  cases hdir : w.isDirectory p.messagesRoot with
  | true =>
    have hdir' := Workspace.isDirectory_of_keepsDirectories h.directories h.home hdir
    exact Project.locales_of_contents? h.home (hdir'.trans hdir.symm) hbeside
  | false =>
    -- where the catalogues can be reached only now there are none of locales
    rw [Project.locales_eq p w, hdir, Project.locales_eq]
    split
    · rename_i hdir'
      rw [if_neg Bool.false_ne_true, List.filter_eq_nil_iff]
      intro name hmem hname
      obtain ⟨_, hnew⟩ := FileTree.mem_fileNames_iff.1 hmem
      rw [Workspace.target_eq_of_home h.home] at hnew
      have hsome := hbeside name hname
      rw [FileTree.contents?_eq_some_iff.2 hnew] at hsome
      obtain ⟨contents, hold⟩ := Option.isSome_iff_exists.1 hsome.symm
      rw [FileTree.contents?_eq_some_iff] at hold
      have hdirectory := FileTree.node?_of_node?_append hold
      have hreached := hparts.isDirectory List.mem_cons_self h.directories h.home hdir'
        fun loc hloc => Workspace.eq_foldl_of_follow hloc ▸ hdirectory
      rw [hdir] at hreached
      cases hreached
    · rfl

theorem Command.locales_of_writesOnly (h : Draft.WritesOnly (drafts p plan plans) w w')
    (hdraft : plan.draft.path = p.referencePath)
    (hplain : Path.IsPlainName p.config.referenceFile)
    (hds : Draft.ShareDirectory p.messagesRoot.base (drafts p plan plans))
    (hnames : ∀ l ∈ plans, p.Distinguishes l.locale)
    (hfound : ∀ l ∈ plans, l.locale ∈ p.locales w)
    (hparts : w.HasParts (['.', '.'] :: Config.searched) p.messagesRoot.segments) :
    p.locales w' = p.locales w :=
  locales_of_goesUp h hdraft hplain hds hnames hfound (hparts.of_subset (by simp))

/-- A run after a synchronisation is about the same locales. -/
theorem Command.selectLocales_of_goesUp (h : Draft.WritesOnly (drafts p plan plans) w w')
    (hdraft : plan.draft.path = p.referencePath)
    (hplain : Path.IsPlainName p.config.referenceFile)
    (hds : Draft.ShareDirectory p.messagesRoot.base (drafts p plan plans))
    (hnames : ∀ l ∈ plans, p.Distinguishes l.locale) (hmade : ∀ l ∈ plans, l.locale ∈ locales)
    (hlocales : p.selectLocales w requested = .ok locales)
    (hparts : requested = [] → w.HasParts [['.', '.']] p.messagesRoot.segments) :
    p.selectLocales w' requested = .ok locales := by
  rcases Project.of_selectLocales hlocales with ⟨rfl, rfl⟩ | ⟨hne, -, -⟩
  · exact congrArg Except.ok
      (locales_of_goesUp h hdraft hplain hds hnames hmade (hparts rfl))
  · exact (Project.selectLocales_congr hne).trans hlocales

end found

section again

variable {x : Extraction} {ts : List Template}

/-- A locale whose files were written is planned anew with the same texts. -/
theorem LocalePlan.make_of_settled {locale : Text} {l : LocalePlan}
    (htag : IsReadable p.sourceTag) (hx : Extraction.ofTemplates ts = .ok x)
    (hlacks : x.LacksEndmsg) (hmake : make p w x.catalogue locale = .ok l)
    (hsettled : ∀ d ∈ l.drafts p, d.Settled w w') :
    ∃ l', make p w' x.catalogue locale = .ok l' ∧ l'.drafts p = l.drafts p := by
  obtain ⟨existing, unused, hexisting, hunused, rfl⟩ := make_eq_ok_iff.1 hmake
  have hl := Project.isWritable_of_readCatalogue hexisting
  have hu := Project.isWritable_of_readCatalogue hunused
  obtain ⟨hparse, hparse'⟩ := Step.parse_update htag hx hlacks hl hu
  rw [drafts, List.forall_mem_cons, List.forall_mem_singleton] at hsettled
  have hexisting' := Project.readCatalogue_of_settled hsettled.1 hexisting hparse
  have hunused' := Project.readCatalogue_of_settled hsettled.2 hunused hparse'
  refine ⟨_, make_eq_ok_iff.2 ⟨_, _, hexisting', hunused', rfl⟩, ?_⟩
  simp only [drafts, Locale.update,
    Reconciliation.reconcile_reconcile (Extraction.of_ofTemplates hx).1 hl.lawful hu.lawful]

theorem LocalePlan.makeAll_of_settled (htag : IsReadable p.sourceTag)
    (hx : Extraction.ofTemplates ts = .ok x) (hlacks : x.LacksEndmsg)
    (hmake : makeAll p w x.catalogue locales = .ok plans)
    (hsettled : ∀ d ∈ plans.flatMap (drafts p), d.Settled w w') :
    ∃ plans', makeAll p w' x.catalogue locales = .ok plans' ∧
      plans'.flatMap (drafts p) = plans.flatMap (drafts p) := by
  simp only [makeAll_eq_ok_iff] at hmake ⊢
  induction hmake with
  | nil => exact ⟨[], .nil, rfl⟩
  | cons hl _ ih =>
    simp only [List.flatMap_cons, List.mem_append] at hsettled ⊢
    obtain ⟨l', hl', hdrafts⟩ := make_of_settled htag hx hlacks hl fun d hd => hsettled d (.inl hd)
    obtain ⟨plans', hplans', hall⟩ := ih fun d hd => hsettled d (.inr hd)
    exact ⟨l' :: plans', .cons hl' hplans', by rw [List.flatMap_cons, hdrafts, hall]⟩

end again

namespace Command

/-- A check finds nothing to write, and a synchronisation changes nothing. -/
structure UpToDate (o : ProjectOptions) (requested : List Text) (w : Workspace) : Prop where
  check : ∃ issues reference outcomes,
    (run (sync o requested true)).Gives w ⟨issues, .synchronised true reference outcomes⟩ w ∧
      reference.changed = false ∧ ∀ l ∈ outcomes, l.changedFiles = []
  status : ∀ colours verbose, (execute colours verbose (sync o requested true) w).status = 0
  again : ∃ r, (run (sync o requested false)).Gives w r w

/-- Once a project has been synchronised it is up to date. -/
def StaysUpToDate (o : ProjectOptions) (requested : List Text) (w : Workspace) : Prop :=
  ∀ r w', (run (sync o requested false)).Gives w r w' → UpToDate o requested w'

/-- A project whose catalogues survive being written: the reference is a file of its own, no message
holds the tag that ends an entry, the templates are not found above the catalogues, and no locale
that is asked for is hidden. -/
structure Repeatable (o : ProjectOptions) (requested : List Text) (w : Workspace) (p : Project) :
    Prop where
  opened : (Project.openAt o w).result = .ok p
  readable : IsReadable p.sourceTag
  plain : Path.IsPlainName p.config.referenceFile
  visible : ∀ locale ∈ requested, locale.head? ≠ some '.'
  apart : ¬ w.target p.templatesRoot <+: w.target p.messagesRoot
  lacks : ∀ plan, (ReferencePlan.make p w).result = .ok plan → plan.extraction.LacksEndmsg

/-- The drafts of a plan that was carried out differ from nothing. -/
theorem upToDate_of_not_differs (hp : (Project.openAt o w).result = .ok p)
    (hplans : (planSync p requested w).result = .ok (plan, plans))
    (hsame : ∀ d ∈ drafts p plan plans, ¬ d.Differs w) : UpToDate o requested w := by
  have hlook := Draft.gives_applyAll_true p w (drafts p plan plans)
  have hnone : ((drafts p plan plans).filter fun d => d.Differs w) = [] := by
    simpa [List.filter_eq_nil_iff] using hsame
  rw [hnone, List.map_nil] at hlook
  obtain ⟨file?, outcomes, hfiles, -, hcheck⟩ := exists_gives_sync hp hplans hlook
  obtain ⟨_, _, -, -, hagain⟩ :=
    exists_gives_sync hp hplans (Draft.applyAll_of_not_differs p hsame)
  obtain ⟨hfile, houtcomes⟩ := List.append_eq_nil_iff.1 hfiles.symm
  refine ⟨⟨_, _, outcomes, hcheck, ?_, ?_⟩, ?_, ⟨_, hagain⟩⟩
  · rw [ReferencePlan.outcome, Option.toList_eq_nil_iff.1 hfile]
    rfl
  · exact List.flatMap_eq_nil_iff.1 houtcomes
  · intro colours verbose
    obtain ⟨-, -, hstatus, -⟩ := execute_of_gives hcheck colours verbose
    rw [hstatus, Outcome.status_eq_zero_iff, changedCount_outcome, hfile, houtcomes]
    rfl

/-- A project that was synchronised stays up to date, as long as the path of the messages directory
neither goes up nor comes to a name that the search for a configuration looks for, where no
directory is yet. -/
theorem staysUpToDate_of_hasParts (h : Repeatable o requested w p)
    (hparts : w.HasParts (['.', '.'] :: Config.searched) p.messagesRoot.segments) :
    StaysUpToDate o requested w := by
  intro r w' hsync
  obtain ⟨p', plan, plans, _, _, hp, hplans, happly, -, -⟩ := of_gives_sync hsync
  rw [h.opened] at hp
  obtain rfl := Except.ok.inj hp
  obtain ⟨locales, hlocales, hplan, hmake⟩ := result_planSync_iff.1 hplans
  obtain ⟨hroot, herror⟩ := Project.of_openAt h.opened
  obtain ⟨hdraft, ts, hx⟩ := ReferencePlan.of_make hplan
  have hdraft : plan.draft.path = p.referencePath := by rw [hdraft]
  have hmade := LocalePlan.of_mem_makeAll hmake
  have hnames : ∀ l ∈ plans, p.Distinguishes l.locale ∧ l.locale.head? ≠ some '.' := fun l hl =>
    Project.distinguishes_of_selectLocales hlocales h.visible l.locale (hmade l hl).1
  have hds := shareDirectory_drafts hdraft h.plain herror hnames (LocalePlan.eq_of_makeAll hmake)
  obtain ⟨hspares, hsettled⟩ :=
    Draft.spares_of_gives_applyAll hds (hparts.mono (Path.base_isPrefix _)) happly
  have hwrites := Draft.writesOnly_of_gives_applyAll happly
  -- everything that the plan was made from is found again
  have hopen : Project.openAt o w' = Project.openAt o w :=
    Project.openAt_of_kept hspares.directories hspares.home hspares.search hroot
  have hreference : ReferencePlan.make p w' = ReferencePlan.make p w :=
    ReferencePlan.make_of_writesOnly hwrites hds (ReferencePlan.isDirectory_of_make hplan) h.apart
  have hselect : p.selectLocales w' requested = p.selectLocales w requested := by
    rcases Project.of_selectLocales hlocales with ⟨rfl, rfl⟩ | ⟨hne, -, -⟩
    · have hagain := locales_of_writesOnly hwrites hdraft h.plain hds (fun l hl => (hnames l hl).1)
        (fun l hl => (hmade l hl).1) hparts
      exact congrArg Except.ok hagain
    · exact Project.selectLocales_congr hne
  obtain ⟨plans', hplans', hdrafts⟩ := LocalePlan.makeAll_of_settled h.readable hx
    (h.lacks plan hplan) hmake fun d hd => hsettled d (List.mem_cons_of_mem _ hd)
  have hagain : (planSync p requested w').result = .ok (plan, plans') :=
    result_planSync_iff.2 ⟨locales, hselect.trans hlocales, hreference ▸ hplan, hplans'⟩
  apply upToDate_of_not_differs (hopen ▸ h.opened) hagain
  intro d hd
  rw [drafts, hdrafts] at hd
  exact (hsettled d hd).not_differs

theorem StaysUpToDate.of_isOk (h : StaysUpToDate o requested w)
    (hsync : (run (sync o requested false) w).2.result.isOk) :
    (execute false false (sync o requested true)
      (run (sync o requested false) w).1).status = 0 := by
  cases hresult : (run (sync o requested false) w).2.result with
  | error e =>
    rw [hresult] at hsync
    cases hsync
  | ok r => exact (h r _ ⟨hresult, rfl⟩).status false false

theorem lacksEndmsg_of_entries {ms : List Message}
    (hms : (ReferencePlan.make p w).result.map (fun plan => plan.catalogue.entries) = .ok ms)
    (hlacks : ∀ m ∈ ms, m.LacksEndmsg) (plan : ReferencePlan)
    (hplan : (ReferencePlan.make p w).result = .ok plan) : plan.extraction.LacksEndmsg := by
  rw [hplan] at hms
  obtain rfl := Except.ok.inj hms
  exact hlacks

/-- The catalogues are beside the project, where a locale with a stale message is found. -/
theorem staysUpToDate_beside :
    let o : ProjectOptions := { messagesRoot? := some (.ofText "../l10n".toList) }
    let w : Workspace :=
      { Workspace.ofTexts [("p/data/pages/t", "\x7b\x7b 'a'|trans \x7d\x7d"),
        ("l10n/de", "\x7b%msg%\x7dx\x7b%en%\x7db\x7b%endmsg%\x7d")] with home := ["p".toList] }
    (run (sync o [] false) w).2.result.isOk ∧ StaysUpToDate o [] w := by
  intro o w
  let p : Project := ⟨{}, .here, .ofText "./data/pages".toList, .ofText "./../l10n".toList⟩
  have hlacks : ∀ m ∈ [(⟨"a".toList, ["t#L1".toList], none, none⟩ : Message)], m.LacksEndmsg := by
    decide +kernel
  have hrepeatable : Repeatable o [] w p :=
    ⟨by decide +kernel, isReadable_en, by decide +kernel, by decide, by decide +kernel,
      lacksEndmsg_of_entries (by decide +kernel) hlacks⟩
  exact ⟨by decide +kernel, staysUpToDate_of_hasParts hrepeatable (by decide +kernel)⟩

/-- Directories that are made on the way to the messages directory can stand in the place of a
configuration, can hide the configuration of the directory above, and can open a way to locales
that were out of reach. -/
theorem not_staysUpToDate :
    let w := Workspace.ofTexts [("data/pages/t", "\x7b\x7b 'a'|trans \x7d\x7d"),
      ("l10n/de", "\x7b%msg%\x7dx\x7b%en%\x7da\x7b%endmsg%\x7d")]
    let w' := Workspace.ofTexts [(".l10nrc.json", "\x7b\"messagesRoot\": \".git/l10n\"\x7d"),
      ("sub/data/pages/t", "\x7b\x7b 'a'|trans \x7d\x7d")]
    let named : ProjectOptions := { messagesRoot? := some (.ofText ".l10nrc.json".toList) }
    let inner : ProjectOptions := { root := .ofText "sub".toList }
    let upward : ProjectOptions := { messagesRoot? := some (.ofText "a/../l10n".toList) }
    (Repeatable named ["de".toList] w ⟨{}, .here, .ofText "./data/pages".toList,
        .ofText "./.l10nrc.json".toList⟩ ∧ ¬ StaysUpToDate named ["de".toList] w) ∧
      (Repeatable inner ["de".toList] w' ⟨{ messagesRoot := ".git/l10n".toList },
        .ofText "sub".toList, .ofText "sub/data/pages".toList, .ofText "sub/.git/l10n".toList⟩ ∧
          ¬ StaysUpToDate inner ["de".toList] w') ∧
      (Repeatable upward [] w ⟨{}, .here, .ofText "./data/pages".toList,
        .ofText "./a/../l10n".toList⟩ ∧ ¬ StaysUpToDate upward [] w) := by
  intro w w' named inner upward
  have hlacks : ∀ m ∈ [(⟨"a".toList, ["t#L1".toList], none, none⟩ : Message)], m.LacksEndmsg := by
    decide +kernel
  refine ⟨⟨?_, ?_⟩, ⟨?_, ?_⟩, ⟨?_, ?_⟩⟩
  · exact ⟨by decide +kernel, isReadable_en, by decide +kernel, by decide, by decide +kernel,
      lacksEndmsg_of_entries (by decide +kernel) hlacks⟩
  · intro h
    have hstatus := h.of_isOk (by decide +kernel)
    revert hstatus
    decide +kernel
  · exact ⟨by decide +kernel, isReadable_en, by decide +kernel, by decide, by decide +kernel,
      lacksEndmsg_of_entries (by decide +kernel) hlacks⟩
  · intro h
    have hstatus := h.of_isOk (by decide +kernel)
    revert hstatus
    decide +kernel
  · exact ⟨by decide +kernel, isReadable_en, by decide +kernel, by decide, by decide +kernel,
      lacksEndmsg_of_entries (by decide +kernel) hlacks⟩
  · intro h
    have hstatus := h.of_isOk (by decide +kernel)
    revert hstatus
    decide +kernel

end Command

end CatalogueSync
