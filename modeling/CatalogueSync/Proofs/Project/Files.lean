import CatalogueSync.Proofs.Command.Merge
import CatalogueSync.Proofs.Project.Contents
import Mathlib.Data.List.Dedup

/-!
# The files of a synchronisation

A synchronisation works on the reference and on two files for each of its locales
(`Project.files`). The files of locales are never one file (`Project.pairwise_files`): names are
compared as texts, and a name in the directory of the catalogues leads nowhere but to its file. The
reference is compared as a text as well, though it may be spelled as a path. It is apart from all
files of locales if it is spelled by its name wherever it stands among them
(`Project.NamesReference`); spelled in another way it is taken for a locale
(`Project.not_pairwise_files`).
-/

set_option autoImplicit false

namespace CatalogueSync

namespace Workspace

variable {w w' : Workspace} {a b : Path} {contents : Text}

/-- Two paths lead to one place where a file can stand. -/
def SameFile (w : Workspace) (a b : Path) : Prop :=
  a.CanBeFile ∧ b.CanBeFile ∧ w.target a = w.target b

instance (w : Workspace) (a b : Path) : Decidable (w.SameFile a b) :=
  inferInstanceAs (Decidable (_ ∧ _ ∧ _))

theorem SameFile.symm (h : w.SameFile a b) : w.SameFile b a :=
  ⟨h.2.1, h.1, h.2.2.symm⟩

/-- A write leaves every other file as it is. -/
theorem contents?_of_write (h : w.write a contents = (w', .ok ())) (hb : b.CanBeFile)
    (hother : ¬ w.SameFile a b) :
    w'.tree.contents? (w.target b) = w.tree.contents? (w.target b) := by
  obtain ⟨hleaves, -⟩ := leaves_of_write h
  apply hleaves.files
  intro htarget
  exact hother ⟨Path.canBeFile_of_write h, hb, htarget.symm⟩

/-- A name leads to the file of that name. -/
theorem target_of_canBeFile {p : Path} {name : Text}
    (h : (⟨p.base ++ [name]⟩ : Path).CanBeFile) :
    w.target ⟨p.base ++ [name]⟩ = w.target p ++ [name] := by
  obtain ⟨hname, -⟩ := h.2 name (by simp)
  exact target_base_name hname w p

/-- Different names lead to different files of a directory. -/
theorem SameFile.name_eq {p : Path} {name other : Text}
    (h : w.SameFile ⟨p.base ++ [name]⟩ ⟨p.base ++ [other]⟩) : name = other := by
  obtain ⟨hname, hother, htarget⟩ := h
  rw [target_of_canBeFile hname, target_of_canBeFile hother] at htarget
  exact (List.cons.inj (List.append_cancel_left htarget)).1

end Workspace

namespace Project

variable {p : Project} {w : Workspace} {locale other : Text} {requested locales : List Text}

/-- The files that a synchronisation of some locales works on. -/
def files (p : Project) (locales : List Text) : List Path :=
  p.referencePath :: locales.dedup.flatMap fun locale => [p.localePath locale, p.unusedPath locale]

/-- A reference that stands in the directory of the catalogues is configured by its name there. -/
def NamesReference (p : Project) (w : Workspace) : Prop :=
  ∀ name, w.target p.referencePath = w.target p.messagesRoot ++ [name] →
    p.config.referenceFile = name

theorem namesReference_of_slash (hslash : '/' ∉ p.config.referenceFile) : p.NamesReference w := by
  intro name htarget
  rw [referencePath, join_ofText hslash] at htarget
  exact Workspace.eq_of_target_eq_concat htarget

/-- The locales of a run have names that tell their files apart. -/
theorem distinguishes_of_mem (hselect : p.selectLocales w requested = .ok locales) :
    ∀ locale ∈ locales, p.Distinguishes locale := by
  intro locale hmem
  rcases of_selectLocales hselect with ⟨-, rfl⟩ | ⟨-, rfl, hnames⟩
  · exact (distinguishes_of_mem_locales hmem).1
  · exact distinguishes_of_isLocaleName (hnames locale hmem)

theorem eq_of_sameFile_localePath (h : p.Distinguishes locale) (h' : p.Distinguishes other)
    (hsame : w.SameFile (p.localePath locale) (p.localePath other)) : locale = other := by
  rw [localePath_eq h, localePath_eq h'] at hsame
  exact hsame.name_eq

theorem eq_of_sameFile_unusedPath (h : p.Distinguishes locale) (h' : p.Distinguishes other)
    (hsame : w.SameFile (p.unusedPath locale) (p.unusedPath other)) : locale = other := by
  rw [unusedPath_eq h, unusedPath_eq h'] at hsame
  exact List.append_cancel_right hsame.name_eq

theorem not_sameFile_unusedPath (h : p.Distinguishes locale) (h' : p.Distinguishes other) :
    ¬ w.SameFile (p.localePath locale) (p.unusedPath other) := by
  rw [localePath_eq h, unusedPath_eq h']
  intro hsame
  exact h.unused ⟨other, hsame.name_eq.symm⟩

theorem not_sameFile_referencePath (hnames : p.NamesReference w) {name : Text}
    (hne : name ≠ p.config.referenceFile) :
    ¬ w.SameFile p.referencePath ⟨p.messagesRoot.base ++ [name]⟩ := by
  rintro ⟨-, hname, htarget⟩
  rw [Workspace.target_of_canBeFile hname] at htarget
  exact hne (hnames name htarget).symm

/-- The files of locales are pairwise different. -/
theorem pairwise_localeFiles (hnames : ∀ locale ∈ locales, p.Distinguishes locale) :
    (p.files locales).tail.Pairwise fun a b => ¬ w.SameFile a b := by
  rw [files, List.tail_cons, List.pairwise_flatMap]
  have hnames : ∀ locale ∈ locales.dedup, p.Distinguishes locale := fun locale hmem =>
    hnames locale (List.mem_dedup.1 hmem)
  constructor
  · intro locale hmem
    have hlocale := hnames locale hmem
    simpa using not_sameFile_unusedPath hlocale hlocale
  · refine (List.nodup_dedup locales).imp_of_mem ?_
    intro locale other hmem hmem' hne
    have hlocale := hnames locale hmem
    have hother := hnames other hmem'
    simp only [List.mem_cons, List.not_mem_nil, or_false]
    rintro _ (rfl | rfl) _ (rfl | rfl)
    · exact fun hsame => hne (eq_of_sameFile_localePath hlocale hother hsame)
    · exact not_sameFile_unusedPath hlocale hother
    · exact fun hsame => not_sameFile_unusedPath hother hlocale hsame.symm
    · exact fun hsame => hne (eq_of_sameFile_unusedPath hlocale hother hsame)

/-- The planned writes of a synchronisation go to its files. -/
theorem mem_map_path_drafts_iff {plan : ReferencePlan} {plans : List LocalePlan}
    (hselect : p.selectLocales w requested = .ok locales)
    (hplan : (Command.planSync p requested w).result = .ok (plan, plans)) (path : Path) :
    path ∈ (Command.drafts p plan plans).map Draft.path ↔ path ∈ p.files locales := by
  obtain ⟨locales', hlocales', hmake, hall⟩ := Command.result_planSync_iff.1 hplan
  rw [hselect] at hlocales'
  obtain rfl := Except.ok.inj hlocales'
  obtain ⟨hdraft, -⟩ := ReferencePlan.of_make hmake
  have hreference : plan.draft.path = p.referencePath := by rw [hdraft]
  simp only [files, List.mem_map, Command.mem_drafts_iff, List.mem_cons, List.mem_flatMap,
    List.mem_dedup, List.not_mem_nil, or_false]
  constructor
  · rintro ⟨d, rfl | ⟨l, hl, rfl | rfl⟩, rfl⟩
    · exact .inl hreference
    · exact .inr ⟨l.locale, (LocalePlan.of_mem_makeAll hall l hl).1, .inl rfl⟩
    · exact .inr ⟨l.locale, (LocalePlan.of_mem_makeAll hall l hl).1, .inr rfl⟩
  · rintro (rfl | ⟨locale, hlocale, hpath⟩)
    · exact ⟨plan.draft, .inl rfl, hreference⟩
    · obtain ⟨l, hl, hmake⟩ := LocalePlan.exists_of_makeAll hall hlocale
      obtain rfl := LocalePlan.locale_of_make hmake
      rcases hpath with rfl | rfl
      · exact ⟨_, .inr ⟨l, hl, .inl rfl⟩, rfl⟩
      · exact ⟨_, .inr ⟨l, hl, .inr rfl⟩, rfl⟩

/-- The files that a synchronisation writes are pairwise different, and the reference is no locale,
as long as the reference is spelled by its name if it stands among the catalogues. Without this
condition the files of locales are still pairwise different. -/
theorem pairwise_files (haccepted : p.config.error? = none)
    (hselect : p.selectLocales w requested = .ok locales) :
    (∀ plan plans, (Command.planSync p requested w).result = .ok (plan, plans) → ∀ path,
      path ∈ (Command.drafts p plan plans).map Draft.path ↔ path ∈ p.files locales) ∧
    (p.files locales).tail.Pairwise (fun a b => ¬ w.SameFile a b) ∧
    (p.NamesReference w →
      (p.files locales).Pairwise (fun a b => ¬ w.SameFile a b) ∧
        ∀ locale ∈ p.locales w, ¬ w.SameFile p.referencePath (p.localePath locale)) := by
  have hnames := distinguishes_of_mem hselect
  have htail := pairwise_localeFiles (w := w) hnames
  refine ⟨fun plan plans hplan => mem_map_path_drafts_iff hselect hplan, htail, ?_⟩
  intro hreference
  obtain ⟨-, hunused⟩ := Config.referenceFile_of_error? haccepted
  refine ⟨List.pairwise_cons.2 ⟨?_, htail⟩, ?_⟩
  · intro path hpath
    simp only [List.mem_flatMap, List.mem_dedup, List.mem_cons, List.not_mem_nil, or_false] at hpath
    obtain ⟨locale, hmem, rfl | rfl⟩ := hpath
    · rw [localePath_eq (hnames locale hmem)]
      exact not_sameFile_referencePath hreference (hnames locale hmem).reference
    · rw [unusedPath_eq (hnames locale hmem)]
      exact not_sameFile_referencePath hreference (hunused locale)
  · intro locale hmem
    obtain ⟨hlocale, -⟩ := distinguishes_of_mem_locales hmem
    rw [localePath_eq hlocale]
    exact not_sameFile_referencePath hreference hlocale.reference

/-- The reference is in a directory of its own below the catalogues. -/
theorem pairwise_files_below :
    let p : Project := ⟨{ referenceFile := "sub/r".toList }, .here, .ofText "./t".toList,
      .ofText "./l10n".toList⟩
    let w := Workspace.ofTexts [("l10n/de", ""), ("l10n/fr", ""), ("l10n/fr.unused", ""),
      ("l10n/sub/r", "")]
    p.locales w = ["de".toList, "fr".toList] ∧
      (p.files ["de".toList, "fr".toList]).Pairwise (fun a b => ¬ w.SameFile a b) := by
  intro p w
  have hlocales : p.locales w = ["de".toList, "fr".toList] := by decide +kernel
  have hreference : p.NamesReference w := by
    intro name htarget
    have hlength := congrArg List.length htarget
    rw [List.length_append, List.length_singleton] at hlength
    have hdepth : (w.target p.referencePath).length ≠ (w.target p.messagesRoot).length + 1 := by
      decide +kernel
    exact absurd hlength hdepth
  have hselect : p.selectLocales w [] = .ok (p.locales w) := rfl
  obtain ⟨-, -, h⟩ := pairwise_files (by decide +kernel) hselect
  exact ⟨hlocales, hlocales ▸ (h hreference).1⟩

/-- A reference that is spelled with a dot in front is found among the catalogues and taken for a
locale, and it can be asked for as one. -/
theorem not_pairwise_files :
    let w := Workspace.ofTexts [(".l10nrc.json", "\x7b\"referenceFile\": \"./r\"\x7d"),
      ("data/pages/t", "\x7b\x7b 'a'|trans \x7d\x7d"), ("data/page-l10n/r", "")]
    let p : Project := ⟨{ referenceFile := "./r".toList }, .here, .ofText "./data/pages".toList,
      .ofText "./data/page-l10n".toList⟩
    (Project.openAt {} w).result = .ok p ∧ p.config.error? = none ∧
      p.locales w = ["r".toList] ∧ p.selectLocales w ["r".toList] = .ok ["r".toList] ∧
      w.SameFile p.referencePath (p.localePath "r".toList) ∧
      ¬ (p.files ["r".toList]).Pairwise (fun a b => ¬ w.SameFile a b) := by
  exact ⟨by decide +kernel, by decide +kernel, by decide +kernel, by decide +kernel,
    by decide +kernel, by decide +kernel⟩

end Project

end CatalogueSync
