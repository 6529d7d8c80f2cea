import CatalogueSync.Proofs.Command.Success
import CatalogueSync.Proofs.Extraction.Reference
import CatalogueSync.Proofs.Project.Opening

/-!
# Plans and what they depend on

The plan for a reference writes one file. Once it is written, the same project is opened and the
other files of the catalogues are what they were (`ReferencePlan.of_gives_apply`). The plan for a
locale depends on nothing but its two files (`LocalePlan.make_congr`).
-/

set_option autoImplicit false

namespace CatalogueSync

/-- A name that is no path, and not hidden. -/
def Path.IsPlainName (name : Text) : Prop :=
  '/' ∉ name ∧ name.head? ≠ some '.'

instance (name : Text) : Decidable (Path.IsPlainName name) :=
  inferInstanceAs (Decidable (_ ∧ _))

/-- The ending keeps the names of unused catalogues from being taken for moves. -/
theorem Locale.isName_unusedName (locale : Text) : Path.IsName (unusedName locale) := by
  have hlength : 7 ≤ (unusedName locale).length := by
    rw [unusedName, List.length_append]
    exact Nat.le_add_left 7 _
  constructor
  · rw [Path.isStill, Bool.or_eq_false_iff, decide_eq_false_iff_not, decide_eq_false_iff_not]
    constructor <;> intro heq <;> simp [heq] at hlength
  · intro heq
    simp [heq] at hlength

/-- A draft that is applied is there already or is written. -/
theorem Draft.of_gives_apply {p : Project} {w w' : Workspace} {d : Draft} {file? : Option Text}
    (h : (d.apply p false).Gives w file? w') :
    (w' = w ∧ w.wouldChange d.path d.text = false) ∨ w.write d.path d.text = (w', .ok ()) := by
  obtain ⟨hresult, hworkspace⟩ := h
  simp only [apply, Bool.false_eq_true, if_false] at hresult hworkspace
  rcases hwrite : w.writeIfChanged d.path d.text with ⟨w'', cause | changed⟩
  · rw [hwrite] at hresult
    cases hresult
  · have hw'' : w'' = w' := by
      rw [hwrite] at hworkspace
      cases changed <;> exact hworkspace
    exact Workspace.of_writeIfChanged (hw'' ▸ hwrite)

theorem LocaleEntry.print_ne_nil (sourceTag : Text) (e : LocaleEntry) : e.print sourceTag ≠ [] := by
  simp [print, line]

/-- The file of a reference with messages is not empty. -/
theorem ReferenceCatalogue.print_ne_nil {reference : ReferenceCatalogue} (sourceTag : Text)
    (hreference : reference.Lawful) (hne : reference.entries ≠ []) :
    reference.print sourceTag ≠ [] := by
  rw [print, LocaleCatalogue.print, entries_toLocale hreference]
  obtain ⟨m, ms, hentries⟩ := List.exists_cons_of_ne_nil hne
  rw [hentries]
  cases ms <;> simp [LocaleEntry.print_ne_nil]

namespace Project

variable {p : Project} {w w' : Workspace} {name locale : Text}

/-- A file in the directory of the catalogues, by its name. -/
theorem join_ofText (hslash : '/' ∉ name) :
    p.messagesRoot.join (.ofText name) = ⟨p.messagesRoot.base ++ [name]⟩ := by
  rw [Path.ofText, Path.splitSegments_eq_singleton hslash, Path.join_name]

theorem selectLocales_singleton_iff {locales : List Text} :
    p.selectLocales w [locale] = .ok locales ↔ p.isLocaleName locale ∧ locales = [locale] := by
  cases hname : p.isLocaleName locale <;> simp [selectLocales, hname, eq_comm]

theorem of_isLocaleName (h : p.isLocaleName locale) :
    locale ≠ [] ∧ '/' ∉ locale ∧ locale ≠ p.config.referenceFile := by
  simp only [isLocaleName, Bool.and_eq_true, Bool.not_eq_true', List.isEmpty_eq_false_iff,
    List.all_eq_true, bne_iff_ne] at h
  obtain ⟨⟨⟨hne, hall⟩, hreference⟩, -⟩ := h
  exact ⟨hne, fun hslash => (hall '/' hslash).1 rfl, hreference⟩

end Project

namespace ReferencePlan

variable {p : Project} {w w' : Workspace} {plan : ReferencePlan}

theorem of_make (h : (make p w).result = .ok plan) :
    plan.draft = ⟨p.referencePath, plan.catalogue.print p.sourceTag⟩ ∧
      ∃ ts, Extraction.ofTemplates ts = .ok plan.extraction := by
  unfold make at h
  split at h
  · simp only [Reported.result_bind_eq_ok] at h
    obtain ⟨-, -, ts, -, x, hx, hplan⟩ := h
    obtain rfl := Except.ok.inj hplan
    refine ⟨rfl, ts, ?_⟩
    cases hofTemplates : Extraction.ofTemplates ts with
    | error e =>
      rw [hofTemplates] at hx
      cases hx
    | ok x' =>
      rw [hofTemplates] at hx
      obtain rfl := Except.ok.inj hx
      rfl
  · cases h

/-- Once a reference is written, it stands in its file, the same project is opened, and the other
files of the catalogues are what they were. -/
theorem of_gives_apply {o : ProjectOptions} {text : Text} {reference : ReferenceOutcome}
    (hp : (Project.openAt o w).result = .ok p)
    (hplain : Path.IsPlainName p.config.referenceFile)
    (hparts : w.HasParts (['.', '.'] :: Config.searched) p.messagesRoot.segments)
    (hdraft : plan.draft = ⟨p.referencePath, text⟩) (htext : text ≠ [])
    (h : (plan.apply p false).Gives w reference w') :
    w'.node? p.referencePath = some (.file (.text text)) ∧
      Project.openAt o w' = Project.openAt o w ∧
      ∀ name, '/' ∉ name → Path.IsName name → name ≠ p.config.referenceFile →
        w'.node? (p.messagesRoot.join (.ofText name)) =
          w.node? (p.messagesRoot.join (.ofText name)) := by
  obtain ⟨hroot, herror⟩ := Project.of_openAt hp
  obtain ⟨file?, _, hfile, hpure⟩ := Session.gives_bind_iff.1 h
  obtain ⟨-, rfl⟩ := Session.gives_pure_iff.1 hpure
  have happly := Draft.of_gives_apply hfile
  rw [hdraft] at happly
  rcases happly with ⟨rfl, hsame⟩ | hwrite
  · exact ⟨Workspace.node?_of_not_wouldChange hsame htext, rfl, fun _ _ _ _ => rfl⟩
  · have hname : Path.IsName p.config.referenceFile :=
      Path.isName_of_head? (Config.referenceFile_of_error? herror).1 hplain.2
    simp only [Project.referencePath, Project.join_ofText hplain.1] at hwrite ⊢
    obtain ⟨dir, hwritten⟩ := Workspace.written_of_write hname hwrite
    have hparts' := hparts.mono (Path.base_isPrefix _)
    refine ⟨hwritten.node? hname, ?_, ?_⟩
    · apply Project.openAt_of_kept hwritten.keepsDirectories hwritten.home _ hroot
      intro above name hmem hdir
      obtain ⟨hisName, hdot⟩ := Config.of_mem_searched hmem
      apply hwritten.node?_part hparts' hisName (List.mem_cons_of_mem _ hmem) _ hdir
      rintro rfl
      exact hplain.2 hdot
    · intro name hslash hname' hne
      rw [Project.join_ofText hslash]
      exact hwritten.node?_beside hparts' (by simp) hname' hne

end ReferencePlan

namespace LocalePlan

variable {p : Project} {w w' : Workspace} {locale : Text}

/-- The plan for a locale depends on nothing but its two files. -/
theorem make_congr (reference : ReferenceCatalogue)
    (hlocale : w'.node? (p.localePath locale) = w.node? (p.localePath locale))
    (hunused : w'.node? (p.unusedPath locale) = w.node? (p.unusedPath locale)) :
    make p w' reference locale = make p w reference locale := by
  unfold make
  rw [p.readCatalogue_congr hlocale, p.readCatalogue_congr hunused]

theorem makeAll_singleton_iff {reference : ReferenceCatalogue} {plans : List LocalePlan} :
    makeAll p w reference [locale] = .ok plans ↔
      ∃ l, make p w reference locale = .ok l ∧ plans = [l] := by
  simp only [makeAll]
  cases make p w reference locale with
  | error e => simp
  | ok l => simp [Except.map, eq_comm]

theorem gives_applyAll_singleton_iff {checkOnly : Bool} {l : LocalePlan}
    {outcomes : List LocaleOutcome} :
    (applyAll p checkOnly [l]).Gives w outcomes w' ↔
      ∃ outcome, (l.apply p checkOnly).Gives w outcome w' ∧ outcomes = [outcome] := by
  simp only [applyAll, Session.gives_bind_iff, Session.gives_pure_iff]
  constructor
  · rintro ⟨outcome, _, happly, _, _, ⟨rfl, rfl⟩, rfl, rfl⟩
    exact ⟨outcome, happly, rfl⟩
  · rintro ⟨outcome, happly, rfl⟩
    exact ⟨outcome, w', happly, [], w', ⟨rfl, rfl⟩, rfl, rfl⟩

end LocalePlan

end CatalogueSync
