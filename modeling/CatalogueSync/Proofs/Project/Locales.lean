import CatalogueSync.Proofs.Project.Directory
import CatalogueSync.Proofs.Project.Search
import Mathlib.Data.List.Forall2

/-!
# The files of several locales

The files of different locales have different paths, and none is that of the reference
(`Project.Distinguishes`). So a synchronisation of locales whose names are plain writes one text to
each of its files (`Command.shareDirectory_drafts`), however often a locale is asked for.
-/

set_option autoImplicit false

namespace CatalogueSync

theorem LocaleCatalogue.parse_nil (sourceTag : Text) :
    LocaleCatalogue.parse sourceTag [] = .ok .empty := by
  have hread : LocaleEntry.readAll sourceTag (scan []) = .ok [] := by
    rw [scan, scanFrom_nil, LocaleEntry.readAll]
  rw [parse, hread]
  rfl

namespace Project

/-- A name of a locale that can neither be taken for the reference nor for an unused catalogue. -/
structure Distinguishes (p : Project) (locale : Text) : Prop where
  ne_nil : locale ≠ []
  slash : '/' ∉ locale
  reference : locale ≠ p.config.referenceFile
  unused : ¬ Locale.unusedSuffix <:+ locale

variable {p : Project} {w w' : Workspace} {locale other : Text}

theorem distinguishes_of_isLocaleName (h : p.isLocaleName locale) : p.Distinguishes locale := by
  obtain ⟨hne, hslash, hreference⟩ := of_isLocaleName h
  refine ⟨hne, hslash, hreference, ?_⟩
  rw [← List.isSuffixOf_iff_suffix]
  simp only [isLocaleName, Bool.and_eq_true, Bool.not_eq_true'] at h
  rw [h.2]
  exact Bool.false_ne_true

/-- A file that is found among the catalogues is that of a locale. -/
theorem distinguishes_of_mem_locales (h : locale ∈ p.locales w) :
    p.Distinguishes locale ∧ locale.head? ≠ some '.' := by
  rw [locales_eq] at h
  split at h
  case isFalse => cases h
  obtain ⟨hmem, hlocale⟩ := List.mem_filter.1 h
  obtain ⟨_, hnode⟩ := FileTree.mem_fileNames_iff.1 hmem
  obtain ⟨hname, hslash⟩ := FileTree.isEntryName_of_node? hnode locale (by simp)
  simp only [isLocaleFile, Bool.and_eq_true, Bool.not_eq_true', bne_iff_ne] at hlocale
  obtain ⟨⟨⟨hreference, hdot⟩, hunused⟩, -⟩ := hlocale
  refine ⟨⟨hname.ne_nil, hslash, hreference, ?_⟩, ?_⟩
  · rw [← List.isSuffixOf_iff_suffix, hunused]
    exact Bool.false_ne_true
  · intro hhead
    obtain ⟨s, rfl⟩ := List.head?_eq_some_iff.1 hhead
    simp at hdot

theorem of_selectLocales {requested locales : List Text}
    (h : p.selectLocales w requested = .ok locales) :
    requested = [] ∧ locales = p.locales w ∨
      requested ≠ [] ∧ locales = requested ∧ ∀ locale ∈ requested, p.isLocaleName locale := by
  unfold selectLocales at h
  split at h
  · rename_i hempty
    exact .inl ⟨List.isEmpty_iff.1 hempty, (Except.ok.inj h).symm⟩
  · rename_i hne
    split at h
    · cases h
    · rename_i hall
      refine .inr ⟨fun hnil => hne (by simp [hnil]), (Except.ok.inj h).symm, ?_⟩
      simpa using hall

theorem selectLocales_congr {requested : List Text} (hne : requested ≠ []) :
    p.selectLocales w' requested = p.selectLocales w requested := by
  have hempty : requested.isEmpty = false := by simpa using hne
  unfold selectLocales
  rw [hempty]
  rfl

/-- The locales of a run have plain names, if those that are asked for are visible. -/
theorem distinguishes_of_selectLocales {requested locales : List Text}
    (h : p.selectLocales w requested = .ok locales)
    (hvisible : ∀ locale ∈ requested, locale.head? ≠ some '.') :
    ∀ locale ∈ locales, p.Distinguishes locale ∧ locale.head? ≠ some '.' := by
  intro locale hmem
  rcases of_selectLocales h with ⟨-, rfl⟩ | ⟨-, rfl, hnames⟩
  · exact distinguishes_of_mem_locales hmem
  · exact ⟨distinguishes_of_isLocaleName (hnames locale hmem), hvisible locale hmem⟩

theorem slash_unusedName (h : '/' ∉ locale) : '/' ∉ Locale.unusedName locale :=
  fun hmem => (List.mem_append.1 hmem).elim h (by decide)

theorem localePath_eq (h : p.Distinguishes locale) :
    p.localePath locale = ⟨p.messagesRoot.base ++ [locale]⟩ :=
  join_ofText h.slash

theorem unusedPath_eq (h : p.Distinguishes locale) :
    p.unusedPath locale = ⟨p.messagesRoot.base ++ [Locale.unusedName locale]⟩ :=
  join_ofText (slash_unusedName h.slash)

theorem path_name_inj {base : List Text} {a b : Text} :
    (⟨base ++ [a]⟩ : Path) = ⟨base ++ [b]⟩ ↔ a = b := by
  simp

theorem localePath_inj (h : p.Distinguishes locale) (h' : p.Distinguishes other) :
    p.localePath locale = p.localePath other ↔ locale = other := by
  rw [localePath_eq h, localePath_eq h', path_name_inj]

theorem unusedPath_inj (h : p.Distinguishes locale) (h' : p.Distinguishes other) :
    p.unusedPath locale = p.unusedPath other ↔ locale = other := by
  rw [unusedPath_eq h, unusedPath_eq h', path_name_inj, Locale.unusedName, Locale.unusedName,
    List.append_cancel_right_eq]

theorem unusedPath_ne_localePath (h : p.Distinguishes locale) (h' : p.Distinguishes other) :
    p.unusedPath locale ≠ p.localePath other := by
  rw [unusedPath_eq h, localePath_eq h', ne_eq, path_name_inj]
  rintro rfl
  exact h'.unused (List.suffix_append ..)

theorem localePath_ne_referencePath (h : p.Distinguishes locale)
    (hplain : Path.IsPlainName p.config.referenceFile) :
    p.localePath locale ≠ p.referencePath := by
  rw [localePath_eq h, referencePath, join_ofText hplain.1, ne_eq, path_name_inj]
  exact h.reference

theorem unusedPath_ne_referencePath (h : p.Distinguishes locale)
    (hplain : Path.IsPlainName p.config.referenceFile)
    (hreference : ∀ locale, Locale.unusedName locale ≠ p.config.referenceFile) :
    p.unusedPath locale ≠ p.referencePath := by
  rw [unusedPath_eq h, referencePath, join_ofText hplain.1, ne_eq, path_name_inj]
  exact hreference locale

theorem isWritable_of_readCatalogue {file : Path} {c : LocaleCatalogue}
    (h : p.readCatalogue w file = .ok c) : c.IsWritable p.sourceTag := by
  unfold readCatalogue at h
  split at h
  · split at h
    · cases h
    · split at h
      · cases h
      · rename_i hread
        obtain rfl := Except.ok.inj h
        unfold Locale.readFile at hread
        split at hread
        · rename_i hparse
          obtain rfl := Except.ok.inj hread
          exact LocaleCatalogue.isWritable_of_parse hparse
        · cases hread
  · obtain rfl := Except.ok.inj h
    exact ⟨Catalogue.lawful_empty, by simp [Catalogue.empty]⟩

theorem readCatalogue_of_node? {file : Path} {s : Text} {c : LocaleCatalogue}
    (hnode : w.node? file = some (.file (.text s)))
    (hparse : LocaleCatalogue.parse p.sourceTag s = .ok c) : p.readCatalogue w file = .ok c := by
  unfold readCatalogue Workspace.hasNode
  rw [hnode, Workspace.readText_eq_ok_iff.2 hnode]
  simp only [Option.isSome_some, if_true, Locale.readFile, hparse]

/-- A catalogue that was written is read back, also if nothing had to be written for it. -/
theorem readCatalogue_of_settled {d : Draft} {c c' : LocaleCatalogue}
    (hsettled : d.Settled w w') (hread : p.readCatalogue w d.path = .ok c)
    (hparse : LocaleCatalogue.parse p.sourceTag d.text = .ok c') :
    p.readCatalogue w' d.path = .ok c' := by
  rcases hsettled with hnode | ⟨htext, hnode, hsame⟩
  · exact readCatalogue_of_node? hnode hparse
  · rw [htext] at hparse
    rw [Draft.Differs, Workspace.wouldChange_eq, htext] at hsame
    rw [← p.readCatalogue_congr hnode] at hread
    cases hold : w'.node? d.path with
    | none =>
      rw [LocaleCatalogue.parse_nil] at hparse
      rw [readCatalogue, Workspace.hasNode, hold, ← Except.ok.inj hparse]
      rfl
    | some node =>
      rw [hold] at hsame
      rw [readCatalogue, Workspace.hasNode, hold, Workspace.readText_of_node? hold] at hread
      rcases node with _ | s | _
      · cases hread
      · obtain rfl : s = [] := by simpa using hsame
        exact readCatalogue_of_node? hold hparse
      · cases hread

end Project

namespace LocalePlan

variable {p : Project} {w w' : Workspace} {reference : ReferenceCatalogue} {locale : Text}
  {l : LocalePlan}

theorem make_eq_ok_iff :
    make p w reference locale = .ok l ↔
      ∃ existing unused, p.readCatalogue w (p.localePath locale) = .ok existing ∧
        p.readCatalogue w (p.unusedPath locale) = .ok unused ∧
        l = ⟨locale, reference.size, Locale.update p.sourceTag reference existing unused⟩ := by
  unfold make
  cases p.readCatalogue w (p.localePath locale) with
  | error e => simp
  | ok existing =>
    cases p.readCatalogue w (p.unusedPath locale) with
    | error e => simp
    | ok unused => simp [eq_comm]

theorem locale_of_make (h : make p w reference locale = .ok l) : l.locale = locale := by
  obtain ⟨_, _, -, -, rfl⟩ := make_eq_ok_iff.1 h
  rfl

theorem makeAll_eq_ok_iff {locales : List Text} {plans : List LocalePlan} :
    makeAll p w reference locales = .ok plans ↔
      List.Forall₂ (fun locale l => make p w reference locale = .ok l) locales plans := by
  induction locales generalizing plans with
  | nil => simp [makeAll, eq_comm]
  | cons locale locales ih =>
    rw [makeAll, List.forall₂_cons_left_iff]
    cases make p w reference locale with
    | error e => simp
    | ok l =>
      cases hall : makeAll p w reference locales with
      | error e =>
        simp only [← ih, hall]
        simp [Except.map]
      | ok ls =>
        simp only [← ih, hall]
        simp [Except.map, eq_comm]

theorem of_mem_makeAll {locales : List Text} {plans : List LocalePlan}
    (h : makeAll p w reference locales = .ok plans) :
    ∀ l ∈ plans, l.locale ∈ locales ∧ make p w reference l.locale = .ok l := by
  rw [makeAll_eq_ok_iff] at h
  induction h with
  | nil => simp
  | cons hl _ ih =>
    refine List.forall_mem_cons.2 ⟨?_, fun l' hl' => ?_⟩
    · rw [locale_of_make hl]
      exact ⟨List.mem_cons_self, hl⟩
    · exact ⟨List.mem_cons_of_mem _ (ih l' hl').1, (ih l' hl').2⟩

theorem exists_of_makeAll {locales : List Text} {plans : List LocalePlan}
    (h : makeAll p w reference locales = .ok plans) (hmem : locale ∈ locales) :
    ∃ l ∈ plans, make p w reference locale = .ok l := by
  rw [makeAll_eq_ok_iff] at h
  induction h with
  | nil => cases hmem
  | @cons _ l _ _ hl _ ih =>
    rcases List.mem_cons.1 hmem with rfl | hmem
    · exact ⟨l, List.mem_cons_self, hl⟩
    · obtain ⟨l', hl', hmake⟩ := ih hmem
      exact ⟨l', List.mem_cons_of_mem _ hl', hmake⟩

/-- A locale that is asked for again has the same plan again. -/
theorem eq_of_makeAll {locales : List Text} {plans : List LocalePlan}
    (h : makeAll p w reference locales = .ok plans) :
    ∀ l ∈ plans, ∀ l' ∈ plans, l'.locale = l.locale → l' = l := by
  intro l hl l' hl' heq
  have hmake := (of_mem_makeAll h l' hl').2
  rw [heq, (of_mem_makeAll h l hl).2] at hmake
  exact (Except.ok.inj hmake).symm

end LocalePlan

namespace Command

variable {p : Project} {w w' : Workspace} {plan : ReferencePlan} {plans : List LocalePlan}
  {d : Draft}

theorem mem_drafts_iff :
    d ∈ drafts p plan plans ↔ d = plan.draft ∨ ∃ l ∈ plans,
      d = ⟨p.localePath l.locale, l.update.texts.catalogue⟩ ∨
        d = ⟨p.unusedPath l.locale, l.update.texts.unused⟩ := by
  simp [drafts, LocalePlan.drafts]

/-- A synchronisation writes files of one directory, and one text to each. -/
theorem shareDirectory_drafts (hpath : plan.draft.path = p.referencePath)
    (hplain : Path.IsPlainName p.config.referenceFile) (herror : p.config.error? = none)
    (hnames : ∀ l ∈ plans, p.Distinguishes l.locale ∧ l.locale.head? ≠ some '.')
    (hsame : ∀ l ∈ plans, ∀ l' ∈ plans, l'.locale = l.locale → l' = l) :
    Draft.ShareDirectory p.messagesRoot.base (drafts p plan plans) := by
  obtain ⟨hne, hreference⟩ := Config.referenceFile_of_error? herror
  constructor
  · intro d hd
    rcases mem_drafts_iff.1 hd with rfl | ⟨l, hl, rfl | rfl⟩
    · refine ⟨p.config.referenceFile, ?_, Path.isName_of_head? hne hplain.2, hplain.2⟩
      rw [hpath, Project.referencePath, Project.join_ofText hplain.1]
    · obtain ⟨hl, hdot⟩ := hnames l hl
      exact ⟨l.locale, Project.localePath_eq hl, Path.isName_of_head? hl.ne_nil hdot, hdot⟩
    · obtain ⟨hl, hdot⟩ := hnames l hl
      have hdot' : (Locale.unusedName l.locale).head? ≠ some '.' := by
        rwa [Locale.unusedName, List.head?_append_of_ne_nil _ hl.ne_nil]
      exact ⟨_, Project.unusedPath_eq hl, Locale.isName_unusedName _, hdot'⟩
  · intro d hd d' hd' heq
    rcases mem_drafts_iff.1 hd with rfl | ⟨l, hl, rfl | rfl⟩ <;>
      rcases mem_drafts_iff.1 hd' with rfl | ⟨l', hl', rfl | rfl⟩
    · rfl
    · exact absurd (heq.trans hpath) (Project.localePath_ne_referencePath (hnames l' hl').1 hplain)
    · exact absurd (heq.trans hpath)
        (Project.unusedPath_ne_referencePath (hnames l' hl').1 hplain hreference)
    · exact absurd (heq.symm.trans hpath)
        (Project.localePath_ne_referencePath (hnames l hl).1 hplain)
    · have hlocale := (Project.localePath_inj (hnames l' hl').1 (hnames l hl).1).1 heq
      rw [hsame l hl l' hl' hlocale]
    · exact absurd heq (Project.unusedPath_ne_localePath (hnames l' hl').1 (hnames l hl).1)
    · exact absurd (heq.symm.trans hpath)
        (Project.unusedPath_ne_referencePath (hnames l hl).1 hplain hreference)
    · exact absurd heq.symm (Project.unusedPath_ne_localePath (hnames l hl).1 (hnames l' hl').1)
    · have hlocale := (Project.unusedPath_inj (hnames l' hl').1 (hnames l hl).1).1 heq
      rw [hsame l hl l' hl' hlocale]

end Command

end CatalogueSync
