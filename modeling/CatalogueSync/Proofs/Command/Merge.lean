import CatalogueSync.Proofs.Project.Plan

/-!
# Synchronising at once and in two runs

Synchronising a locale reconciles it with the messages of the templates; extracting and then
merging it reconciles it with the reference file. The merge finds the reference as it was extracted
(`Command.planMerge_of_node?`) and the files of the locale as they were, so that both ways leave
the same workspace and report the same (`Command.mergesAsSynchronised_of_hasParts`).
-/

set_option autoImplicit false

namespace CatalogueSync

deriving instance DecidableEq for Project

/-- A workspace with these files, given by their paths and texts. -/
def Workspace.ofTexts (files : List (String × String)) : Workspace :=
  ⟨.ofEntries (files.map fun f => (Path.splitSegments f.1.toList, .file (.text f.2.toList))), []⟩

namespace Command

variable {o : ProjectOptions} {p : Project} {w w' : Workspace} {locale : Text} {r : RunResult}

/-- A merge finds the reference that an extraction has written. -/
theorem planMerge_of_node? {x : Extraction} {ts : List Template} (htag : IsReadable p.sourceTag)
    (hx : Extraction.ofTemplates ts = .ok x) (hlacks : x.LacksEndmsg)
    (hname : p.isLocaleName locale)
    (hstored : w.node? p.referencePath =
      some (.file (.text (x.catalogue.print p.sourceTag)))) :
    planMerge p locale p.referencePath w = LocalePlan.make p w x.catalogue locale := by
  have hread : p.readCatalogue w p.referencePath = .ok x.catalogue.toLocale := by
    unfold Project.readCatalogue Workspace.hasNode
    rw [hstored, Workspace.readText_eq_ok_iff.2 hstored]
    simp only [Option.isSome_some, if_true, Locale.readFile]
    rw [Extraction.parse_print_toLocale htag hx hlacks]
  unfold planMerge
  rw [Project.selectLocales_singleton_iff.2 ⟨hname, rfl⟩]
  simp only [Workspace.isFile_of_node? hstored, if_true, hread]
  rw [ReferenceCatalogue.ofList_toMessage_toLocale (Extraction.of_ofTemplates hx).1]

/-- If a locale can be synchronised, it can also be extracted and then merged, which leaves the same
workspace and reports the same. -/
def MergesAsSynchronised (o : ProjectOptions) (locale : Text) (w : Workspace) : Prop :=
  ∀ r w'', (run (sync o [locale] false)).Gives w r w'' →
    ∃ w' issues issues' reference outcome,
      r = ⟨issues ++ issues', .synchronised false reference [outcome]⟩ ∧
        (run (extract o)).Gives w ⟨issues, .extracted reference⟩ w' ∧
        (run (merge o locale none)).Gives w' ⟨issues', .merged outcome⟩ w''

/-- A locale of a project whose reference survives being written, in a file of its own: it has
messages, and none of them holds the tag that ends an entry. -/
structure Mergeable (o : ProjectOptions) (locale : Text) (w : Workspace) (p : Project) : Prop where
  opened : (Project.openAt o w).result = .ok p
  readable : IsReadable p.sourceTag
  plain : Path.IsPlainName p.config.referenceFile
  visible : locale.head? ≠ some '.'
  messages : ∀ plan, (ReferencePlan.make p w).result = .ok plan →
    plan.catalogue.entries ≠ [] ∧ plan.extraction.LacksEndmsg

theorem Mergeable.of_entries {ms : List Message} (hopened : (Project.openAt o w).result = .ok p)
    (hreadable : IsReadable p.sourceTag) (hplain : Path.IsPlainName p.config.referenceFile)
    (hvisible : locale.head? ≠ some '.')
    (hms : (ReferencePlan.make p w).result.map (fun plan => plan.catalogue.entries) = .ok ms)
    (hne : ms ≠ []) (hlacks : ∀ m ∈ ms, m.LacksEndmsg) : Mergeable o locale w p := by
  refine ⟨hopened, hreadable, hplain, hvisible, ?_⟩
  intro plan hplan
  rw [hplan] at hms
  obtain rfl := Except.ok.inj hms
  exact ⟨hne, hlacks⟩

/-- Synchronising is extracting and merging, as long as the path of the messages directory neither
goes up nor comes to a name that the search for a configuration looks for, where no directory is
yet. -/
theorem mergesAsSynchronised_of_hasParts (h : Mergeable o locale w p)
    (hparts : w.HasParts (['.', '.'] :: Config.searched) p.messagesRoot.segments) :
    MergesAsSynchronised o locale w := by
  obtain ⟨hp, htag, hplain, hlocale, hmessages⟩ := h
  intro r w'' hsync
  obtain ⟨p', plan, plans, w', reference, outcomes, hp', hplans, happly, happlyAll, rfl⟩ :=
    gives_sync_iff.1 hsync
  rw [hp] at hp'
  obtain rfl := Except.ok.inj hp'
  obtain ⟨locales, hlocales, hplan, hmakeAll⟩ := result_planSync_iff.1 hplans
  obtain ⟨hname, rfl⟩ := Project.selectLocales_singleton_iff.1 hlocales
  obtain ⟨hne, hlacks⟩ := hmessages plan hplan
  obtain ⟨hdraft, ts, hx⟩ := ReferencePlan.of_make hplan
  obtain ⟨l, hl, rfl⟩ := LocalePlan.makeAll_singleton_iff.1 hmakeAll
  obtain ⟨outcome, houtcome, rfl⟩ := LocalePlan.gives_applyAll_singleton_iff.1 happlyAll
  have htext := ReferenceCatalogue.print_ne_nil p.sourceTag (Extraction.of_ofTemplates hx).1 hne
  obtain ⟨hstored, hopen, hkept⟩ :=
    ReferencePlan.of_gives_apply hp hplain hparts hdraft htext happly
  -- the merge plans what the synchronisation has planned
  have hmerge : planMerge p locale p.referencePath w' = .ok l := by
    obtain ⟨hne, hslash, hreference⟩ := Project.of_isLocaleName hname
    rw [planMerge_of_node? htag hx hlacks hname hstored]
    refine (LocalePlan.make_congr _ ?_ ?_).trans hl
    · exact hkept locale hslash (Path.isName_of_head? hne hlocale) hreference
    · apply hkept _ _ (Locale.isName_unusedName locale)
      · exact (Config.referenceFile_of_error? (Project.of_openAt hp).2).2 locale
      · exact fun hmem => (List.mem_append.1 hmem).elim hslash (by decide)
  refine ⟨w', plan.issues, l.issues, reference, outcome, ?_, ?_, ?_⟩
  · rw [List.flatMap_singleton]
  · exact gives_extract_iff.2 ⟨p, plan, reference, hp, hplan, happly, rfl⟩
  · exact gives_merge_iff.2 ⟨p, l, outcome, hopen ▸ hp, hmerge, houtcome, rfl⟩

/-- The catalogues are beside the project, and the locale has a stale message and a pending one. -/
theorem mergesAsSynchronised_beside :
    let o : ProjectOptions := { messagesRoot? := some (.ofText "../l10n".toList) }
    let w : Workspace :=
      { Workspace.ofTexts [("p/data/pages/t", "\x7b\x7b 'a'|trans \x7d\x7d"),
        ("l10n/de", "\x7b%msg%\x7dx\x7b%en%\x7db\x7b%endmsg%\x7d")] with home := ["p".toList] }
    (run (sync o ["de".toList] false) w).2.result.isOk ∧ MergesAsSynchronised o "de".toList w := by
  intro o w
  let p : Project := ⟨{}, .here, .ofText "./data/pages".toList, .ofText "./../l10n".toList⟩
  let m : Message := ⟨"a".toList, ["t#L1".toList], none, none⟩
  have hlacks : ∀ m' ∈ [m], m'.LacksEndmsg := by decide +kernel
  have hmergeable : Mergeable o "de".toList w p :=
    .of_entries (by decide +kernel) isReadable_en (by decide +kernel) (by decide +kernel)
      (by decide +kernel) (List.cons_ne_nil _ _) hlacks
  exact ⟨by decide +kernel, mergesAsSynchronised_of_hasParts hmergeable (by decide +kernel)⟩

theorem MergesAsSynchronised.of_isOk (h : MergesAsSynchronised o locale w)
    (hsync : (run (sync o [locale] false) w).2.result.isOk) :
    (run (merge o locale none) (run (extract o) w).1).2.result.isOk ∧
      (run (merge o locale none) (run (extract o) w).1).1 =
        (run (sync o [locale] false) w).1 := by
  cases hresult : (run (sync o [locale] false) w).2.result with
  | error e =>
    rw [hresult] at hsync
    cases hsync
  | ok r =>
    obtain ⟨_, issues, issues', reference, outcome, -, ⟨-, rfl⟩, hmerge, hworkspace⟩ :=
      h r _ ⟨hresult, rfl⟩
    rw [hmerge]
    exact ⟨rfl, hworkspace⟩

/-- Directories that are made on the way to the messages directory can stand in the place of a
configuration, can hide the configuration of the directory above, and can open a way to
translations that were out of reach. -/
theorem not_mergesAsSynchronised :
    let w := Workspace.ofTexts [("data/pages/t", "\x7b\x7b 'a'|trans \x7d\x7d"),
      ("l10n/de", "\x7b%msg%\x7dx\x7b%en%\x7da\x7b%endmsg%\x7d")]
    let w' := Workspace.ofTexts [(".l10nrc.json", "\x7b\"messagesRoot\": \".git/l10n\"\x7d"),
      ("sub/data/pages/t", "\x7b\x7b 'a'|trans \x7d\x7d")]
    let named : ProjectOptions := { messagesRoot? := some (.ofText ".l10nrc.json".toList) }
    let inner : ProjectOptions := { root := .ofText "sub".toList }
    let upward : ProjectOptions := { messagesRoot? := some (.ofText "a/../l10n".toList) }
    (Mergeable named "de".toList w ⟨{}, .here, .ofText "./data/pages".toList,
        .ofText "./.l10nrc.json".toList⟩ ∧ ¬ MergesAsSynchronised named "de".toList w) ∧
      (Mergeable inner "de".toList w' ⟨{ messagesRoot := ".git/l10n".toList },
        .ofText "sub".toList, .ofText "sub/data/pages".toList, .ofText "sub/.git/l10n".toList⟩ ∧
          ¬ MergesAsSynchronised inner "de".toList w') ∧
      (Mergeable upward "de".toList w ⟨{}, .here, .ofText "./data/pages".toList,
        .ofText "./a/../l10n".toList⟩ ∧ ¬ MergesAsSynchronised upward "de".toList w) := by
  intro w w' named inner upward
  have hlacks : ∀ m ∈ [(⟨"a".toList, ["t#L1".toList], none, none⟩ : Message)], m.LacksEndmsg := by
    decide +kernel
  refine ⟨⟨?_, ?_⟩, ⟨?_, ?_⟩, ⟨?_, ?_⟩⟩
  · exact .of_entries (by decide +kernel) isReadable_en (by decide +kernel) (by decide +kernel)
      (by decide +kernel) (List.cons_ne_nil _ _) hlacks
  · intro h
    have hmerge := (h.of_isOk (by decide +kernel)).1
    revert hmerge
    decide +kernel
  · exact .of_entries (by decide +kernel) isReadable_en (by decide +kernel) (by decide +kernel)
      (by decide +kernel) (List.cons_ne_nil _ _) hlacks
  · intro h
    have hmerge := (h.of_isOk (by decide +kernel)).1
    revert hmerge
    decide +kernel
  · exact .of_entries (by decide +kernel) isReadable_en (by decide +kernel) (by decide +kernel)
      (by decide +kernel) (List.cons_ne_nil _ _) hlacks
  · intro h
    have hworkspace := (h.of_isOk (by decide +kernel)).2
    have hfile := congrArg (fun w => w.tree.node? ["l10n".toList, "de".toList]) hworkspace
    revert hfile
    decide +kernel

end Command

end CatalogueSync
