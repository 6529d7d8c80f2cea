import CatalogueSync.Proofs.Command.UpToDate
import CatalogueSync.Proofs.Project.Contents
import CatalogueSync.Proofs.Reconciliation.Specification
import CatalogueSync.Proofs.Report.Lines

/-!
# Statistics of what was synchronised

Statistics read the reference and the catalogue of each locale and count the keys that are
translated. A synchronisation reports how many it has translated without reading anything again.
Both come to the same numbers once the files are written
(`Command.countsAsSynchronised_of_hasParts`): every text that is not empty can be read where it was
written, and what is read there is the catalogue that the reconciliation gave.
-/

set_option autoImplicit false

namespace CatalogueSync

/-- Neither the templates nor the catalogues are below the others. -/
def Project.RootsApart (p : Project) (w : Workspace) : Prop :=
  ¬ w.target p.templatesRoot <+: w.target p.messagesRoot ∧
    ¬ w.target p.messagesRoot <+: w.target p.templatesRoot

instance (p : Project) (w : Workspace) : Decidable (p.RootsApart w) :=
  inferInstanceAs (Decidable (_ ∧ _))

/-- The progress of locales that a run has found. -/
def RunResult.progress (r : RunResult) : List Progress :=
  match r.outcome with
  | .synchronised _ _ ls => ls.map LocaleOutcome.toProgress
  | .merged l => [l.toProgress]
  | .counted ps => ps
  | .extracted _ | .initialised => []

section share

variable {p : Progress}

theorem ReportLine.percent_le (h : p.translated ≤ p.total) : percent p ≤ 100 := by
  unfold percent
  split
  · exact Nat.le_refl _
  · exact Nat.div_le_of_le_mul (Nat.mul_comm p.total 100 ▸ Nat.mul_le_mul_right 100 h)

/-- Nothing short of all messages is rounded up to all of them. -/
theorem ReportLine.percent_eq_iff (h : p.translated ≤ p.total) :
    percent p = 100 ↔ p.translated = p.total := by
  unfold percent
  split
  · omega
  · rename_i htotal
    have hpos : 0 < p.total := Nat.pos_of_ne_zero htotal
    constructor
    · intro hpercent
      have hle := (Nat.le_div_iff_mul_le hpos).1 hpercent.ge
      omega
    · intro hall
      rw [hall, Nat.mul_div_cancel_left 100 hpos]

/-- How the line of a locale ends whose messages are all translated. -/
def Printed.allTranslated (colours : Bool) : Text :=
  " (".toList ++ painted colours "32" "100%" ++ ")\n".toList

/-- The end of a line that gives a smaller share. -/
def Printed.partlyTranslated (colours : Bool) (percent : Nat) : Text :=
  " (".toList ++ painted colours "33" (String.ofList (Text.ofNat percent) ++ "%") ++ ")\n".toList

theorem Printed.not_partlyTranslated_isSuffix (colours : Bool) : ∀ percent < 100,
    (partlyTranslated colours percent).length ≤ (allTranslated colours).length ∧
      ¬ partlyTranslated colours percent <:+ allTranslated colours := by
  cases colours <;> decide +kernel

/-- All messages are translated exactly when the printed line says so. -/
theorem Printed.allTranslated_isSuffix_iff (h : p.translated ≤ p.total) (colours : Bool) :
    allTranslated colours <:+
        progress colours p ++ shareEnd colours p.translated p.total ↔
      p.translated = p.total := by
  rw [shareEnd_eq]
  by_cases hall : p.translated = p.total
  · rw [(ReportLine.percent_eq_iff h).2 hall, if_pos hall]
    exact iff_of_true (List.suffix_append ..) hall
  · rw [if_neg hall]
    refine iff_of_false (fun hsuffix => ?_) hall
    have hlt : ReportLine.percent p < 100 :=
      lt_of_le_of_ne (ReportLine.percent_le h) fun heq => hall ((ReportLine.percent_eq_iff h).1 heq)
    obtain ⟨hlength, hnot⟩ := not_partlyTranslated_isSuffix colours _ hlt
    exact hnot (List.suffix_of_suffix_length_le (List.suffix_append ..) hsuffix hlength)

end share

namespace Command

variable {o : ProjectOptions} {p : Project} {w w' : Workspace} {requested locales : List Text}
  {keys : List Text} {plans : List LocalePlan}

section count

/-- Statistics count no more keys than there are. -/
theorem translated_le_of_progress {locale : Text} {a : Progress}
    (h : progress p w keys locale = .ok a) : a.translated ≤ a.total := by
  unfold progress at h
  split at h
  · cases h
  · obtain rfl := Except.ok.inj h
    exact List.countP_le_length

theorem translated_le_of_progressAll {as : List Progress}
    (h : progressAll p w keys locales = .ok as) : ∀ a ∈ as, a.translated ≤ a.total := by
  induction locales generalizing as with
  | nil =>
    obtain rfl := Except.ok.inj h
    simp
  | cons locale locales ih =>
    unfold progressAll at h
    split at h
    · cases h
    · rename_i a ha
      cases hall : progressAll p w keys locales with
      | error e =>
        rw [hall] at h
        cases h
      | ok as' =>
        rw [hall] at h
        obtain rfl := Except.ok.inj h
        exact List.forall_mem_cons.2 ⟨translated_le_of_progress ha, ih hall⟩

/-- A locale whose catalogue was written is counted with the numbers of its plan. -/
theorem progress_of_node? {x : Extraction} {ts : List Template} {locale : Text} {l : LocalePlan}
    (htag : IsReadable p.sourceTag) (hx : Extraction.ofTemplates ts = .ok x)
    (hlacks : x.LacksEndmsg) (hmake : LocalePlan.make p w x.catalogue locale = .ok l)
    (hstored : w'.node? (p.localePath l.locale) =
      some (.file (.text l.update.texts.catalogue))) :
    progress p w' x.catalogue.keys locale = .ok (l.outcome []).toProgress := by
  obtain ⟨existing, unused, hexisting, hunused, rfl⟩ := LocalePlan.make_eq_ok_iff.1 hmake
  have hl := Project.isWritable_of_readCatalogue hexisting
  have hu := Project.isWritable_of_readCatalogue hunused
  have hparse := (Step.parse_update htag hx hlacks hl hu).1
  have hcount := Reconciliation.countP_isTranslated (Extraction.of_ofTemplates hx).1 hl.lawful
    hu.lawful
  have htotal : x.catalogue.keys.length = x.catalogue.size := List.length_map ..
  unfold progress
  rw [Project.readCatalogue_of_node? hstored hparse]
  simp only [hcount, htotal]
  rfl

theorem progressAll_of_node? {x : Extraction} {ts : List Template} (htag : IsReadable p.sourceTag)
    (hx : Extraction.ofTemplates ts = .ok x) (hlacks : x.LacksEndmsg)
    (hmake : LocalePlan.makeAll p w x.catalogue locales = .ok plans)
    (hstored : ∀ l ∈ plans, w'.node? (p.localePath l.locale) =
      some (.file (.text l.update.texts.catalogue))) :
    progressAll p w' x.catalogue.keys locales =
      .ok (plans.map fun l => (l.outcome []).toProgress) := by
  rw [LocalePlan.makeAll_eq_ok_iff] at hmake
  induction hmake with
  | nil => rfl
  | cons hl _ ih =>
    obtain ⟨hfirst, hrest⟩ := List.forall_mem_cons.1 hstored
    rw [progressAll, progress_of_node? htag hx hlacks hl hfirst, ih hrest]
    rfl

/-- Statistics of catalogues that were written give the numbers of their plans. -/
theorem count_of_node? {x : Extraction} {ts : List Template} (htag : IsReadable p.sourceTag)
    (hx : Extraction.ofTemplates ts = .ok x) (hlacks : x.LacksEndmsg)
    (hmake : LocalePlan.makeAll p w x.catalogue locales = .ok plans)
    (hselect : p.selectLocales w' requested = .ok locales)
    (hreference : w'.node? p.referencePath =
      some (.file (.text (x.catalogue.print p.sourceTag))))
    (hstored : ∀ l ∈ plans, w'.node? (p.localePath l.locale) =
      some (.file (.text l.update.texts.catalogue))) :
    count p requested w' = .ok (plans.map fun l => (l.outcome []).toProgress) := by
  have hread : p.readCatalogue w' p.referencePath = .ok x.catalogue.toLocale :=
    Project.readCatalogue_of_node? hreference (Extraction.parse_print_toLocale htag hx hlacks)
  have hkeys : x.catalogue.toLocale.keys = x.catalogue.keys :=
    ReferenceCatalogue.keys_toLocale (Extraction.of_ofTemplates hx).1
  simp only [count, Workspace.isFile_of_node? hreference, if_true, hread, hselect, hkeys]
  exact progressAll_of_node? htag hx hlacks hmake hstored

end count

/-- A project whose catalogues can be read once they were written: the reference is a file of its
own and has messages, none of which holds the tag that ends an entry, and no locale that is asked
for is hidden. -/
structure Countable (o : ProjectOptions) (requested : List Text) (w : Workspace) (p : Project) :
    Prop where
  opened : (Project.openAt o w).result = .ok p
  readable : IsReadable p.sourceTag
  plain : Path.IsPlainName p.config.referenceFile
  visible : ∀ locale ∈ requested, locale.head? ≠ some '.'
  messages : ∀ plan, (ReferencePlan.make p w).result = .ok plan →
    plan.catalogue.entries ≠ [] ∧ plan.extraction.LacksEndmsg

theorem Countable.of_entries {ms : List Message} (hopened : (Project.openAt o w).result = .ok p)
    (hreadable : IsReadable p.sourceTag) (hplain : Path.IsPlainName p.config.referenceFile)
    (hvisible : ∀ locale ∈ requested, locale.head? ≠ some '.')
    (hms : (ReferencePlan.make p w).result.map (fun plan => plan.catalogue.entries) = .ok ms)
    (hne : ms ≠ []) (hlacks : ∀ m ∈ ms, m.LacksEndmsg) : Countable o requested w p := by
  refine ⟨hopened, hreadable, hplain, hvisible, fun plan hplan => ?_⟩
  have hentries := hms
  rw [hplan] at hentries
  obtain rfl := Except.ok.inj hentries
  exact ⟨hne, lacksEndmsg_of_entries hms hlacks plan hplan⟩

/-- Statistics succeed and give the numbers that are reported of some locales. The lines that they
print say of a locale that all messages are translated exactly when they are. -/
structure Counts (o : ProjectOptions) (requested : List Text) (w : Workspace)
    (outcomes : List LocaleOutcome) : Prop where
  gives : (run (stats o requested)).Gives w
    ⟨[], .counted (outcomes.map LocaleOutcome.toProgress)⟩ w
  printed : ∀ colours verbose, (execute colours verbose (stats o requested) w).output =
    (Printed.counted colours (outcomes.map LocaleOutcome.toProgress)).flatten
  le : ∀ l ∈ outcomes, l.translated ≤ l.total
  percent : ∀ l ∈ outcomes, ReportLine.percent l.toProgress = 100 ↔ l.translated = l.total
  share : ∀ l ∈ outcomes, ∀ colours, Printed.allTranslated colours <:+
    Printed.progress colours l.toProgress ++ Printed.shareEnd colours l.translated l.total ↔
      l.translated = l.total

theorem counts_of_count {outcomes : List LocaleOutcome} (hp : (Project.openAt o w).result = .ok p)
    (h : count p requested w = .ok (outcomes.map LocaleOutcome.toProgress)) :
    Counts o requested w outcomes := by
  have hgives := gives_stats_iff.2 ⟨p, _, hp, h, rfl, rfl⟩
  have hle : ∀ l ∈ outcomes, l.translated ≤ l.total := by
    unfold count at h
    split at h
    · split at h
      · cases h
      · split at h
        · cases h
        · exact fun l hl => translated_le_of_progressAll h _ (List.mem_map_of_mem hl)
    · cases h
  refine ⟨hgives, fun colours verbose => ?_, hle, ?_, ?_⟩
  · obtain ⟨-, houtput, -⟩ := execute_of_gives hgives colours verbose
    rw [houtput, Report.render_counted]
  · exact fun l hl => ReportLine.percent_eq_iff (hle l hl)
  · exact fun l hl => Printed.allTranslated_isSuffix_iff (hle l hl)

/-- Statistics agree with the synchronisation before them. -/
def CountsAsSynchronised (o : ProjectOptions) (requested : List Text) (w : Workspace) : Prop :=
  ∀ r w', (run (sync o requested false)).Gives w r w' →
    ∃ reference outcomes, r.outcome = .synchronised false reference outcomes ∧
      Counts o requested w' outcomes

/-- Statistics agree with the synchronisation before them, as long as the path of the messages
directory comes to no name that the search for a configuration looks for where no directory is yet
and, if the locales are to be found, does not go up from there either. -/
theorem countsAsSynchronised_of_hasParts (h : Countable o requested w p)
    (hsearch : w.HasParts Config.searched p.messagesRoot.segments)
    (hup : requested = [] → w.HasParts [['.', '.']] p.messagesRoot.segments) :
    CountsAsSynchronised o requested w := by
  intro r w' hsync
  obtain ⟨p', plan, plans, _, outcomes, hp, hplans, happly, hnumbers, rfl⟩ := of_gives_sync hsync
  rw [h.opened] at hp
  obtain rfl := Except.ok.inj hp
  refine ⟨_, outcomes, rfl, ?_⟩
  obtain ⟨locales, hlocales, hplan, hmake⟩ := result_planSync_iff.1 hplans
  obtain ⟨hroot, herror⟩ := Project.of_openAt h.opened
  obtain ⟨hne, hlacks⟩ := h.messages plan hplan
  obtain ⟨hdraft, ts, hx⟩ := ReferencePlan.of_make hplan
  have hlawful := (Extraction.of_ofTemplates hx).1
  have hmade := LocalePlan.of_mem_makeAll hmake
  have hnames : ∀ l ∈ plans, p.Distinguishes l.locale ∧ l.locale.head? ≠ some '.' := fun l hl =>
    Project.distinguishes_of_selectLocales hlocales h.visible l.locale (hmade l hl).1
  have hds := shareDirectory_drafts (by rw [hdraft]) h.plain herror hnames
    (LocalePlan.eq_of_makeAll hmake)
  have hwrites := Draft.writesOnly_of_gives_applyAll happly
  have hkept := Draft.kept_of_gives_applyAll hds (hsearch.mono (Path.base_isPrefix _)) happly
  have hopen : Project.openAt o w' = Project.openAt o w :=
    Project.openAt_of_kept hwrites.directories hwrites.home hkept hroot
  have hselect := selectLocales_of_goesUp hwrites (by rw [hdraft]) h.plain hds
    (fun l hl => (hnames l hl).1) (fun l hl => (hmade l hl).1) hlocales hup
  -- with messages no text that is counted is empty, so all of them were written
  have hreference : w'.node? p.referencePath =
      some (.file (.text (plan.catalogue.print p.sourceTag))) := by
    have hstored := Draft.node?_of_gives_applyAll (d := plan.draft) hds happly List.mem_cons_self
    rw [hdraft] at hstored
    exact hstored (ReferenceCatalogue.print_ne_nil _ hlawful hne)
  have hcatalogues : ∀ l ∈ plans, w'.node? (p.localePath l.locale) =
      some (.file (.text l.update.texts.catalogue)) := fun l hl =>
    Draft.node?_of_gives_applyAll hds happly (mem_drafts_iff.2 (.inr ⟨l, hl, .inl rfl⟩))
      (LocalePlan.catalogue_ne_nil hlawful hne (hmade l hl).2)
  have hcount := count_of_node? h.readable hx hlacks hmake hselect hreference hcatalogues
  have hprogress := congrArg (List.map LocaleOutcome.toProgress) hnumbers
  rw [List.map_map, List.map_map] at hprogress
  exact counts_of_count (hopen ▸ h.opened) (hcount.trans (congrArg Except.ok hprogress.symm))

/-- The catalogues are beside the project, where a locale with two of three messages is found. -/
theorem countsAsSynchronised_beside :
    let o : ProjectOptions := { messagesRoot? := some (.ofText "../l10n".toList) }
    let w : Workspace :=
      { Workspace.ofTexts [("p/data/pages/t",
          "\x7b\x7b 'a'|trans \x7d\x7d\x7b\x7b 'b'|trans \x7d\x7d\x7b\x7b 'c'|trans \x7d\x7d"),
        ("l10n/de", "\x7b%msg%\x7dA\x7b%en%\x7da\x7b%endmsg%\x7d"),
        ("l10n/de.unused", "\x7b%msg%\x7dC\x7b%en%\x7dc\x7b%endmsg%\x7d")]
        with home := ["p".toList] }
    (run (sync o [] false) w).2.result.map RunResult.progress = .ok [⟨"de".toList, 2, 3⟩] ∧
      CountsAsSynchronised o [] w := by
  intro o w
  let p : Project := ⟨{}, .here, .ofText "./data/pages".toList, .ofText "./../l10n".toList⟩
  have hmessages : (ReferencePlan.make p w).result.map (fun plan => plan.catalogue.entries) =
      .ok [⟨"a".toList, ["t#L1".toList], none, none⟩, ⟨"b".toList, ["t#L1".toList], none, none⟩,
        ⟨"c".toList, ["t#L1".toList], none, none⟩] := by decide +kernel
  have hcountable : Countable o [] w p :=
    .of_entries (by decide +kernel) isReadable_en (by decide +kernel) (by decide) hmessages
      (by decide) (by decide +kernel)
  exact ⟨by decide +kernel, countsAsSynchronised_of_hasParts hcountable (by decide +kernel)
    fun _ => by decide +kernel⟩

theorem CountsAsSynchronised.of_isOk (h : CountsAsSynchronised o requested w)
    (hsync : (run (sync o requested false) w).2.result.isOk) :
    (run (stats o requested) (run (sync o requested false) w).1).2.result.map
        RunResult.progress =
      (run (sync o requested false) w).2.result.map RunResult.progress := by
  cases hresult : (run (sync o requested false) w).2.result with
  | error e =>
    rw [hresult] at hsync
    cases hsync
  | ok r =>
    obtain ⟨_, _, houtcome, hcounts⟩ := h r _ ⟨hresult, rfl⟩
    rw [hcounts.gives.1, Except.map, Except.map, RunResult.progress, RunResult.progress, houtcome]

/-- Directories that are made on the way to the messages directory can stand in the place of a
configuration, can hide the configuration of the directory above, and can open a way to locales
that were out of reach. -/
theorem not_countsAsSynchronised :
    let w := Workspace.ofTexts [("data/pages/t", "\x7b\x7b 'a'|trans \x7d\x7d"),
      ("l10n/de", "\x7b%msg%\x7dx\x7b%en%\x7da\x7b%endmsg%\x7d")]
    let w' := Workspace.ofTexts [(".l10nrc.json", "\x7b\"messagesRoot\": \".git/l10n\"\x7d"),
      ("sub/data/pages/t", "\x7b\x7b 'a'|trans \x7d\x7d")]
    let named : ProjectOptions := { messagesRoot? := some (.ofText ".l10nrc.json".toList) }
    let inner : ProjectOptions := { root := .ofText "sub".toList }
    let upward : ProjectOptions := { messagesRoot? := some (.ofText "a/../l10n".toList) }
    let p : Project := ⟨{}, .here, .ofText "./data/pages".toList, .ofText "./.l10nrc.json".toList⟩
    let p' : Project := ⟨{ messagesRoot := ".git/l10n".toList }, .ofText "sub".toList,
      .ofText "sub/data/pages".toList, .ofText "sub/.git/l10n".toList⟩
    let p'' : Project := ⟨{}, .here, .ofText "./data/pages".toList, .ofText "./a/../l10n".toList⟩
    (Countable named ["de".toList] w p ∧ p.RootsApart w ∧
        ¬ CountsAsSynchronised named ["de".toList] w) ∧
      (Countable inner ["de".toList] w' p' ∧ p'.RootsApart w' ∧
        ¬ CountsAsSynchronised inner ["de".toList] w') ∧
      (Countable upward [] w p'' ∧ p''.RootsApart w ∧ ¬ CountsAsSynchronised upward [] w) := by
  intro w w' named inner upward p p' p''
  have hlacks : ∀ m ∈ [(⟨"a".toList, ["t#L1".toList], none, none⟩ : Message)], m.LacksEndmsg := by
    decide +kernel
  refine ⟨⟨?_, by decide +kernel, ?_⟩, ⟨?_, by decide +kernel, ?_⟩, ⟨?_, by decide +kernel, ?_⟩⟩
  · exact .of_entries (by decide +kernel) isReadable_en (by decide +kernel) (by decide)
      (by decide +kernel) (List.cons_ne_nil _ _) hlacks
  · intro h
    have hprogress := h.of_isOk (by decide +kernel)
    revert hprogress
    decide +kernel
  · exact .of_entries (by decide +kernel) isReadable_en (by decide +kernel) (by decide)
      (by decide +kernel) (List.cons_ne_nil _ _) hlacks
  · intro h
    have hprogress := h.of_isOk (by decide +kernel)
    revert hprogress
    decide +kernel
  · exact .of_entries (by decide +kernel) isReadable_en (by decide +kernel) (by decide)
      (by decide +kernel) (List.cons_ne_nil _ _) hlacks
  · intro h
    have hprogress := h.of_isOk (by decide +kernel)
    revert hprogress
    decide +kernel

end Command

end CatalogueSync
