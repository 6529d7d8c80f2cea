import CatalogueSync.Proofs.Command.Merge
import CatalogueSync.Proofs.Project.Contents
import CatalogueSync.Proofs.Project.Search
import CatalogueSync.Proofs.Workspace.Comparison

/-!
# Locales side by side

What a synchronisation makes of a locale and what it reports on it depends on the reference and on
the files of that locale, not on the other locales: not on their names, their order or their number
(`Command.independent_self`), and not on their files (`Command.independent_of_sameBut`).
-/

set_option autoImplicit false

namespace CatalogueSync

variable {o : ProjectOptions} {p : Project} {w w' v v' : Workspace} {locale : Text}
  {differs : Location → Prop}

section draft

variable {d : Draft} {file? file?' : Option Text} {loc : Location}

theorem Workspace.isDirectory_of_node?_file {q : Path} {contents : Contents}
    (h : w.node? q = some (.file contents))
    (hthrough : LeadsThrough (w.start q) q.segments.dropLast loc) :
    w.tree.node? loc = some .directory := by
  obtain ⟨hobstacle, found, hfollow, -⟩ := node?_eq_some_iff.1 h
  have hne : q.segments ≠ [] := by
    intro hnil
    have hempty : q.isEmpty := by
      rw [Path.isEmpty, Path.toText, hnil]
      rfl
    unfold obstacle? at hobstacle
    rw [hempty] at hobstacle
    split at hobstacle
    · cases hobstacle
    · split at hobstacle <;> cases hobstacle
  rw [← List.dropLast_append_getLast hne] at hfollow
  obtain ⟨dir, hdir, hdirectory, -, -⟩ := follow_concat_eq_ok_iff.1 hfollow
  exact isDirectory_of_leadsThrough hdir hdirectory hthrough

/-- A draft that is applied leaves the directories that were there and those on the way to its
text. -/
theorem Draft.isDirectory_iff_of_gives_apply (h : (d.apply p false).Gives w file? w') :
    w'.tree.node? loc = some .directory ↔ w.tree.node? loc = some .directory ∨
      d.text ≠ [] ∧ Workspace.LeadsThrough (w.start d.path) d.path.segments.dropLast loc := by
  rcases gives_apply_false_iff.1 h with ⟨hsame, -, rfl⟩ | ⟨hdiffers, -, hwrite⟩
  · refine (or_iff_left_of_imp ?_).symm
    rintro ⟨htext, hthrough⟩
    exact Workspace.isDirectory_of_node?_file (node?_of_gives_apply htext h) hthrough
  · obtain ⟨base, name, _, hpath, -, hwritten⟩ := Workspace.exists_written_of_write hwrite
    rw [hwritten.isDirectory_iff, ← hpath]
    have hbase : base = d.path.segments.dropLast := by rw [hpath, List.dropLast_concat]
    rw [hbase]
    constructor
    · rintro (hold | hthrough)
      · exact .inl hold
      · by_cases htext : d.text = []
        · -- an empty text is only written in the place of another text
          obtain ⟨s, hnode⟩ := exists_node?_of_differs hdiffers htext
          exact .inl (Workspace.isDirectory_of_node?_file hnode hthrough)
        · exact .inr ⟨htext, hthrough⟩
    · exact Or.imp_right And.right

/-- Where files differ that a draft is not for, they are all that differs once it is applied. -/
theorem Workspace.SameBut.of_gives_apply (h : SameBut differs w v)
    (hw : (d.apply p false).Gives w file? w') (hv : (d.apply p false).Gives v file?' v') :
    SameBut differs w' v' := by
  have hdirectories (loc : Location) :
      v'.tree.node? loc = some .directory ↔ w'.tree.node? loc = some .directory := by
    rw [Draft.isDirectory_iff_of_gives_apply hw, Draft.isDirectory_iff_of_gives_apply hv,
      h.directories, start_eq_of_home h.home rfl]
  have hleaves := (Draft.writesOnly_of_gives_apply hw).leaves
  have hleaves' := (Draft.writesOnly_of_gives_apply hv).leaves
  have htargets : v.target d.path = w.target d.path := target_eq_of_home h.home
  refine ⟨hleaves'.home.trans (h.home.trans hleaves.home.symm), hdirectories, fun loc hloc => ?_⟩
  by_cases htarget : loc = w.target d.path
  · subst htarget
    have hchange := wouldChange_congr (h.node?_eq hloc) d.text
    rcases Draft.gives_apply_false_iff.1 hw with ⟨hsame, -, rfl⟩ | ⟨hdiffers, -, hwrite⟩
    · rcases Draft.gives_apply_false_iff.1 hv with ⟨-, -, rfl⟩ | ⟨hdiffers, -, -⟩
      · exact h.files _ hloc
      · exact absurd (hchange.symm.trans hdiffers) hsame
    · rcases Draft.gives_apply_false_iff.1 hv with ⟨hsame, -, rfl⟩ | ⟨-, -, hwrite'⟩
      · exact absurd (hchange.trans hdiffers) hsame
      · have hnew := contents?_of_node? hleaves'.home (leaves_of_write hwrite').2
        rw [htargets] at hnew
        rw [hnew, contents?_of_node? hleaves.home (leaves_of_write hwrite).2]
  · have hother : ¬ ∃ d' ∈ [d], loc = w.target d'.path := by simpa using htarget
    have hother' : ¬ ∃ d' ∈ [d], loc = v.target d'.path := by simpa [htargets] using htarget
    rw [hleaves.files loc hother, hleaves'.files loc hother', h.files loc hloc]

end draft

section plan

variable {reference : ReferenceCatalogue} {locales locales' : List Text}
  {plans plans' : List LocalePlan} {l : LocalePlan} {d : Draft}

/-- The locations of the files beside those of a locale. -/
def Project.IsBeside (p : Project) (w : Workspace) (locale : Text) (loc : Location) : Prop :=
  ∃ name ∉ Locale.fileNames locale, loc = w.target p.messagesRoot ++ [name]

/-- Whether the files of a locale are apart from some locations. -/
def Project.IsApart (p : Project) (w : Workspace) (locale : Text) (differs : Location → Prop) :
    Prop :=
  ∀ name ∈ Locale.fileNames locale, ¬ differs (w.target ⟨p.messagesRoot.base ++ [name]⟩)

theorem Project.isApart_isBeside : p.IsApart w locale (p.IsBeside w locale) := by
  rintro name hname ⟨other, hother, heq⟩
  exact hother (Workspace.eq_of_target_eq_concat heq ▸ hname)

theorem Workspace.SameBut.reachesCatalogues_iff (h : SameBut differs w v) :
    p.ReachesCatalogues v ↔ p.ReachesCatalogues w := by
  unfold Project.ReachesCatalogues
  rw [start_eq_of_home h.home rfl]
  exact exists_congr fun dir => h.follow_eq_ok_iff

theorem ReferencePlan.make_of_sameBut (h : w.SameBut (p.IsBeside w locale) v)
    (hapart : ¬ w.target p.templatesRoot <+: w.target p.messagesRoot) : make p v = make p w := by
  refine make_of_beside h.home (h.isDirectory_eq _) hapart fun loc => ?_
  by_cases hbeside : p.IsBeside w locale loc
  · obtain ⟨name, -, hloc⟩ := hbeside
    exact .inr ⟨name, hloc⟩
  · exact .inl (h.files loc hbeside)

/-- The plan for a locale depends on no file but its own. -/
theorem LocalePlan.make_of_sameBut (hlocale : p.Distinguishes locale) (h : w.SameBut differs v)
    (hapart : p.IsApart w locale differs) :
    make p v reference locale = make p w reference locale := by
  apply make_congr reference
  · rw [Project.localePath_eq hlocale]
    exact h.node?_eq (hapart _ List.mem_cons_self)
  · rw [Project.unusedPath_eq hlocale]
    exact h.node?_eq (hapart _ (List.mem_cons_of_mem _ List.mem_cons_self))

/-- The files of a locale come to the same in two workspaces that differ in other files, whatever
other locales are planned for. -/
theorem LocalePlan.CarriedOut.contents?_eq_of_sameBut {before before' : Workspace}
    (h : CarriedOut p reference locales plans before w w')
    (h' : CarriedOut p reference locales' plans' before' v v') (hsame : w.SameBut differs v)
    (hreference : reference.Lawful) (hl : l ∈ plans) (hl' : l ∈ plans') (hd : d ∈ l.drafts p)
    (hbeside : ¬ differs (w.target d.path)) :
    v'.tree.contents? (w.target d.path) = w'.tree.contents? (w.target d.path) := by
  have hcontents := hsame.files _ hbeside
  have hreaches := hsame.reachesCatalogues_iff (p := p)
  by_cases hreached : reference.entries = [] → p.ReachesCatalogues w
  · have hafter := h'.contents?_eq hreference (fun hnil => hreaches.2 (hreached hnil)) hl' hd
    rw [Workspace.target_eq_of_home hsame.home, hcontents] at hafter
    rw [hafter, h.contents?_eq hreference hreached hl hd]
  · push Not at hreached
    obtain ⟨hnil, hnot⟩ := hreached
    obtain rfl := h.eq_of_not_reachesCatalogues hnil hnot
    obtain rfl := h'.eq_of_not_reachesCatalogues hnil fun hreached => hnot (hreaches.1 hreached)
    exact hcontents

end plan

section report

variable {reference : ReferenceCatalogue} {locales : List Text} {plans : List LocalePlan}
  {l : LocalePlan}

/-- The locale that an issue is about, if it is about one. -/
def Issue.locale? : Issue → Option Text
  | duplicateKey _ => none
  | demoted locale _ => some locale
  | revived locale _ => some locale
  | pending locale _ => some locale

/-- What a run reports on a locale that it is asked for some times: as often the same numbers and
the same issues. -/
structure RunResult.ReportsOn (r : RunResult) (locale : Text) (times : Nat)
    (numbers : LocaleOutcome) (issues : List Issue) : Prop where
  numbers : ∃ checkOnly reference outcomes, r.outcome = .synchronised checkOnly reference outcomes ∧
    (outcomes.filter fun l => l.locale = locale).map LocaleOutcome.withoutFiles =
      List.replicate times numbers
  issues : (r.issues.filter fun i => i.locale? = some locale) =
    (List.replicate times issues).flatten

theorem LocalePlan.filter_of_makeAll (hl : make p w reference locale = .ok l)
    (h : makeAll p w reference locales = .ok plans) :
    plans.filter (fun l => l.locale = locale) = List.replicate (locales.count locale) l := by
  rw [makeAll_eq_ok_iff] at h
  induction h with
  | nil => rfl
  | @cons other l' _ _ hl' _ ih =>
    by_cases heq : other = locale
    · subst heq
      obtain rfl := Except.ok.inj (hl.symm.trans hl')
      simp [ih, locale_of_make hl, List.replicate_succ]
    · have hne : l'.locale ≠ locale := locale_of_make hl' ▸ heq
      simp [ih, hne, heq]

theorem LocalePlan.filter_issues (l : LocalePlan) (locale : Text) :
    (l.issues.filter fun i => i.locale? = some locale) =
      if l.locale = locale then l.issues else [] := by
  have hall : ∀ i ∈ l.issues, i.locale? = some l.locale := by
    intro i hi
    simp only [issues, Issue.ofReconciliation, List.mem_append, List.mem_map] at hi
    rcases hi with (⟨_, -, rfl⟩ | ⟨_, -, rfl⟩) | ⟨_, -, rfl⟩ <;> rfl
  split
  · rename_i heq
    exact List.filter_eq_self.2 fun i hi => by simp [hall i hi, heq]
  · rename_i hne
    exact List.filter_eq_nil_iff.2 fun i hi => by simp [hall i hi, hne]

theorem LocalePlan.filter_flatMap_issues (plans : List LocalePlan) (locale : Text) :
    ((plans.flatMap issues).filter fun i => i.locale? = some locale) =
      (plans.filter fun l => l.locale = locale).flatMap issues := by
  induction plans with
  | nil => rfl
  | cons l plans ih =>
    rw [List.flatMap_cons, List.filter_append, ih, filter_issues]
    by_cases heq : l.locale = locale <;> simp [heq]

/-- What is reported on a locale are the numbers and the issues of its plan. -/
theorem LocalePlan.reportsOn_of_makeAll {plan : ReferencePlan} {outcomes : List LocaleOutcome}
    {outcome : ReferenceOutcome} (hl : make p w reference locale = .ok l)
    (h : makeAll p w reference locales = .ok plans)
    (hnumbers : outcomes.map LocaleOutcome.withoutFiles = plans.map fun l => l.outcome []) :
    RunResult.ReportsOn ⟨plan.issues ++ plans.flatMap issues, .synchronised false outcome outcomes⟩
      locale (locales.count locale) (l.outcome []) l.issues := by
  have hfilter := filter_of_makeAll hl h
  refine ⟨⟨_, _, _, rfl, ?_⟩, ?_⟩
  · have hcomm : (outcomes.filter fun l => l.locale = locale).map LocaleOutcome.withoutFiles =
        (outcomes.map LocaleOutcome.withoutFiles).filter fun l => l.locale = locale := by
      rw [List.filter_map]
      rfl
    have hplans : (plans.map fun l => l.outcome []).filter (fun l => l.locale = locale) =
        (plans.filter fun l => l.locale = locale).map fun l => l.outcome [] := by
      rw [List.filter_map]
      rfl
    rw [hcomm, hnumbers, hplans, hfilter, List.map_replicate]
  · have hreference : (plan.issues.filter fun i => i.locale? = some locale) = [] := by
      simp [ReferencePlan.issues, List.filter_map, Issue.locale?, Function.comp_def]
    rw [List.filter_append, hreference, List.nil_append, filter_flatMap_issues, hfilter,
      List.flatMap_replicate]

end report

namespace Command

variable {requested requested' : List Text} {r r' : RunResult}

/-- The locations of the files that a synchronisation is for: the reference and the two files of
each locale. -/
def IsFor (p : Project) (w : Workspace) (requested : List Text) (loc : Location) : Prop :=
  loc = w.target p.referencePath ∨
    ∃ locale ∈ requested,
      loc = w.target (p.localePath locale) ∨ loc = w.target (p.unusedPath locale)

/-- However two synchronisations are asked for a locale, and whatever else they are asked for, they
leave the same in its files and report the same on it, and neither writes any file that it is not
for. -/
def Independent (o : ProjectOptions) (p : Project) (locale : Text) (w v : Workspace) : Prop :=
  ∀ requested requested' r r' w' v', locale ∈ requested → locale ∈ requested' →
    (run (sync o requested false)).Gives w r w' → (run (sync o requested' false)).Gives v r' v' →
      v'.tree.contents? (v.target (p.localePath locale)) =
          w'.tree.contents? (w.target (p.localePath locale)) ∧
        v'.tree.contents? (v.target (p.unusedPath locale)) =
          w'.tree.contents? (w.target (p.unusedPath locale)) ∧
        (∃ numbers issues, r.ReportsOn locale (requested.count locale) numbers issues ∧
          r'.ReportsOn locale (requested'.count locale) numbers issues) ∧
        w.Leaves (IsFor p w requested) w' ∧ v.Leaves (IsFor p v requested') v'

/-- What a synchronisation does that is asked for a locale: it plans for the reference and for the
locale, writes the reference and then carries out the plans for all locales. -/
structure SyncsFor (p : Project) (requested : List Text) (locale : Text) (w : Workspace)
    (r : RunResult) (w' : Workspace) (plan : ReferencePlan) (plans : List LocalePlan)
    (l : LocalePlan) (middle : Workspace) : Prop where
  reference : (ReferencePlan.make p w).result = .ok plan
  planned : LocalePlan.make p w plan.catalogue locale = .ok l
  mem : l ∈ plans
  names : p.Distinguishes locale
  written : ∃ file?, (plan.draft.apply p false).Gives w file? middle
  carriedOut : LocalePlan.CarriedOut p plan.catalogue requested plans w middle w'
  reports : r.ReportsOn locale (requested.count locale) (l.outcome []) l.issues
  leaves : w.Leaves (IsFor p w requested) w'

theorem exists_syncsFor (hp : (Project.openAt o w).result = .ok p) (hmem : locale ∈ requested)
    (h : (run (sync o requested false)).Gives w r w') :
    ∃ plan plans l middle, SyncsFor p requested locale w r w' plan plans l middle := by
  obtain ⟨p', plan, plans, file?, outcomes, hp', hplans, happly, hnumbers, rfl⟩ := of_gives_sync h
  rw [hp] at hp'
  obtain rfl := Except.ok.inj hp'
  obtain ⟨locales, hlocales, hplan, hmake⟩ := result_planSync_iff.1 hplans
  obtain ⟨-, rfl, hnames⟩ := (Project.of_selectLocales hlocales).resolve_left fun hnil =>
    List.ne_nil_of_mem hmem hnil.1
  have hmade := LocalePlan.of_mem_makeAll hmake
  have hdistinguishes : ∀ locale' ∈ locales, p.Distinguishes locale' := fun locale' hmem' =>
    Project.distinguishes_of_isLocaleName (hnames locale' hmem')
  obtain ⟨l, hlmem, hl⟩ := LocalePlan.exists_of_makeAll hmake hmem
  have hleaves := (Draft.writesOnly_of_gives_applyAll happly).leaves
  obtain ⟨file?', middle, files, hfirst, hrest, -⟩ := Draft.gives_applyAll_cons_iff.1 happly
  have hcarried : LocalePlan.CarriedOut p plan.catalogue locales plans w middle w' :=
    ⟨hdistinguishes, hmake, ⟨_, (Draft.writesOnly_of_gives_apply hfirst).leaves⟩, files, hrest⟩
  refine ⟨plan, plans, l, middle, hplan, hl, hlmem, hdistinguishes locale hmem, ⟨file?', hfirst⟩,
    hcarried, LocalePlan.reportsOn_of_makeAll hl hmake hnumbers, hleaves.mono ?_⟩
  rintro _ ⟨d, hd, rfl⟩
  rcases mem_drafts_iff.1 hd with rfl | ⟨l', hl', rfl | rfl⟩
  · exact .inl (by rw [(ReferencePlan.of_make hplan).1])
  · exact .inr ⟨l'.locale, (hmade l' hl').1, .inl rfl⟩
  · exact .inr ⟨l'.locale, (hmade l' hl').1, .inr rfl⟩

section pair

variable {plan plan' : ReferencePlan} {plans plans' : List LocalePlan} {l l' : LocalePlan}
  {middle middle' : Workspace}

/-- Two synchronisations plan the same where the workspaces are the same but for files that are not
the locale's. -/
theorem SyncsFor.eq_of_sameBut (h : SyncsFor p requested locale w r w' plan plans l middle)
    (h' : SyncsFor p requested' locale v r' v' plan' plans' l' middle')
    (hsame : w.SameBut differs v) (hapart : p.IsApart w locale differs)
    (hreference : (ReferencePlan.make p v).result = (ReferencePlan.make p w).result) :
    plan' = plan ∧ l' = l := by
  have hplan := h'.reference
  rw [hreference, h.reference] at hplan
  obtain rfl := Except.ok.inj hplan
  have hl := h'.planned
  rw [LocalePlan.make_of_sameBut h.names hsame hapart, h.planned] at hl
  exact ⟨rfl, (Except.ok.inj hl).symm⟩

/-- Two synchronisations that plan the same leave the same in the files of the locale. -/
theorem SyncsFor.contents?_eq_of_sameBut
    (h : SyncsFor p requested locale w r w' plan plans l middle)
    (h' : SyncsFor p requested' locale v r' v' plan plans' l middle')
    (hsame : w.SameBut differs v) (hapart : p.IsApart w locale differs) :
    ∀ d ∈ l.drafts p,
      v'.tree.contents? (v.target d.path) = w'.tree.contents? (w.target d.path) := by
  intro d hd
  obtain ⟨_, happly⟩ := h.written
  obtain ⟨_, happly'⟩ := h'.written
  have hlocale := LocalePlan.locale_of_make h.planned
  obtain ⟨name, hname, hpath⟩ := LocalePlan.exists_fileName (hlocale ▸ h.names) hd
  rw [hlocale] at hname
  have hhome := (Draft.writesOnly_of_gives_apply happly).home
  have hbeside : ¬ differs (middle.target d.path) := by
    rw [Workspace.target_eq_of_home hhome, hpath]
    exact hapart name hname
  obtain ⟨-, _, hx⟩ := ReferencePlan.of_make h.reference
  -- the reference is written in both, so the workspaces still differ in the same files only
  have heq := h.carriedOut.contents?_eq_of_sameBut h'.carriedOut
    (hsame.of_gives_apply happly happly') (Extraction.of_ofTemplates hx).1 h.mem h'.mem hd hbeside
  rw [Workspace.target_eq_of_home hhome] at heq
  rw [Workspace.target_eq_of_home hsame.home, heq]

/-- What a synchronisation makes of a locale is the same in two workspaces that are the same but for
files that are not the locale's. -/
theorem independent_of_isApart (hp : (Project.openAt o w).result = .ok p)
    (hp' : (Project.openAt o v).result = .ok p) (hsame : w.SameBut differs v)
    (hapart : p.IsApart w locale differs)
    (hreference : (ReferencePlan.make p v).result = (ReferencePlan.make p w).result) :
    Independent o p locale w v := by
  intro requested requested' r r' w' v' hmem hmem' h h'
  obtain ⟨plan, plans, l, middle, hsyncs⟩ := exists_syncsFor hp hmem h
  obtain ⟨_, plans', _, middle', hsyncs'⟩ := exists_syncsFor hp' hmem' h'
  obtain ⟨rfl, rfl⟩ := hsyncs.eq_of_sameBut hsyncs' hsame hapart hreference
  have hfile := hsyncs.contents?_eq_of_sameBut hsyncs' hsame hapart
  rw [LocalePlan.drafts, List.forall_mem_cons, List.forall_mem_singleton,
    LocalePlan.locale_of_make hsyncs.planned] at hfile
  exact ⟨hfile.1, hfile.2, ⟨_, _, hsyncs.reports, hsyncs'.reports⟩, hsyncs.leaves, hsyncs'.leaves⟩

end pair

/-- In one workspace it makes no difference which other locales are asked for, in which order and
how often. -/
theorem independent_self (hp : (Project.openAt o w).result = .ok p) : Independent o p locale w w :=
  independent_of_isApart hp hp (.refl (fun _ => False) w) (fun _ _ => id) rfl

/-- What a synchronisation makes of a locale and reports on it is the same whatever other locales
are asked for, in one workspace or in two that differ beside the locale's files, as long as the
project and its reference are the same. -/
theorem independent_of_sameBut (hp : (Project.openAt o w).result = .ok p)
    (hp' : (Project.openAt o v).result = .ok p) (hsame : w.SameBut (p.IsBeside w locale) v)
    (hreference : (ReferencePlan.make p v).result = (ReferencePlan.make p w).result) :
    Independent o p locale w v :=
  independent_of_isApart hp hp' hsame Project.isApart_isBeside hreference

theorem Independent.of_isOk (h : Independent o p locale w v) (hmem : locale ∈ requested)
    (hmem' : locale ∈ requested') (hw : (run (sync o requested false) w).2.result.isOk)
    (hv : (run (sync o requested' false) v).2.result.isOk) :
    (run (sync o requested' false) v).1.tree.contents? (v.target (p.localePath locale)) =
      (run (sync o requested false) w).1.tree.contents? (w.target (p.localePath locale)) := by
  cases hresult : (run (sync o requested false) w).2.result with
  | error e =>
    rw [hresult] at hw
    cases hw
  | ok r =>
    cases hresult' : (run (sync o requested' false) v).2.result with
    | error e =>
      rw [hresult'] at hv
      cases hv
    | ok r' => exact (h _ _ r r' _ _ hmem hmem' ⟨hresult, rfl⟩ ⟨hresult', rfl⟩).1

/-- A locale that is asked for alone, and twice after another one that has a different catalogue. -/
theorem independent_of_sameBut_repeated :
    let o : ProjectOptions := {}
    let p : Project := ⟨{}, .here, .ofText "./data/pages".toList, .ofText "./data/page-l10n".toList⟩
    let template := ("data/pages/t", "\x7b\x7b 'a'|trans \x7d\x7d")
    let german := ("data/page-l10n/de", "\x7b%msg%\x7dx\x7b%en%\x7db\x7b%endmsg%\x7d")
    let w := Workspace.ofTexts [template, german]
    let v := Workspace.ofTexts
      [template, german, ("data/page-l10n/fr", "\x7b%msg%\x7dy\x7b%en%\x7da\x7b%endmsg%\x7d")]
    (run (sync o ["de".toList] false) w).2.result.isOk ∧
      (run (sync o ["fr".toList, "de".toList, "de".toList] false) v).2.result.isOk ∧
      Independent o p "de".toList w v := by
  intro o p template german w v
  have hfrench : w.SameBut (fun loc => loc = w.target p.messagesRoot ++ ["fr".toList]) v :=
    .of_entries (by decide +kernel) (by decide +kernel) (by decide +kernel) (by decide +kernel)
  have hsame : w.SameBut (p.IsBeside w "de".toList) v :=
    hfrench.mono fun loc hloc => ⟨"fr".toList, by decide, hloc⟩
  have hreference := ReferencePlan.make_of_sameBut hsame (by decide +kernel)
  exact ⟨by decide +kernel, by decide +kernel, independent_of_sameBut (by decide +kernel)
    (by decide +kernel) hsame (congrArg Reported.result hreference)⟩

/-- Where the catalogues are among the templates, a text in the catalogue of one locale can be a
message of the reference, which the catalogue of every locale holds. Where they are beside the
configuration, the catalogue of a locale can be the configuration. -/
theorem not_independent :
    let template := ("data/pages/t", "\x7b\x7b 'a'|trans \x7d\x7d")
    let inside : ProjectOptions := { messagesRoot? := some (.ofText "data/pages/l10n".toList) }
    let p : Project :=
      ⟨{}, .here, .ofText "./data/pages".toList, .ofText "./data/pages/l10n".toList⟩
    let french (text : String) :=
      ("data/pages/l10n/fr", "\x7b% msg %\x7d" ++ text ++ "\x7b% en %\x7da\x7b% endmsg %\x7d")
    let w := Workspace.ofTexts [template, french "v"]
    let v := Workspace.ofTexts [template, french "\x7b% trans %\x7dv\x7b% endtrans %\x7d"]
    let p' : Project :=
      ⟨{ messagesRoot := ['.'] }, .here, .ofText "./data/pages".toList, .ofText "./.".toList⟩
    let w' := Workspace.ofTexts [template, (".l10nrc.json", "\x7b\"messagesRoot\": \".\"\x7d")]
    let v' := Workspace.ofTexts [template,
      (".l10nrc.json", "\x7b\"messagesRoot\": \".\", \"sourceLanguage\": \"fr\"\x7d")]
    ((Project.openAt inside w).result = .ok p ∧ (Project.openAt inside v).result = .ok p ∧
      w.SameBut (fun loc => loc = w.target (p.localePath "fr".toList)) v ∧
      ¬ Independent inside p "de".toList w v) ∧
    (Project.openAt {} w').result = .ok p' ∧
      w'.SameBut (fun loc => loc = w'.target (p'.localePath ".l10nrc.json".toList)) v' ∧
      ¬ Independent {} p' "de".toList w' v' := by
  intro template inside p french w v p' w' v'
  refine ⟨⟨by decide +kernel, by decide +kernel, ?_, ?_⟩, by decide +kernel, ?_, ?_⟩
  · exact .of_entries (by decide +kernel) (by decide +kernel) (by decide +kernel)
      (by decide +kernel)
  · intro h
    have hmem : "de".toList ∈ ["de".toList, "fr".toList] := by decide
    have hcontents := h.of_isOk hmem hmem (by decide +kernel) (by decide +kernel)
    revert hcontents
    decide +kernel
  · exact .of_entries (by decide +kernel) (by decide +kernel) (by decide +kernel)
      (by decide +kernel)
  · intro h
    have hmem : "de".toList ∈ ["de".toList, ".l10nrc.json".toList] := by decide
    have hcontents := h.of_isOk hmem hmem (by decide +kernel) (by decide +kernel)
    revert hcontents
    decide +kernel

end Command

end CatalogueSync
