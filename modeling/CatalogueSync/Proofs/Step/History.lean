import CatalogueSync.Proofs.Step.Storage

/-!
# Steps one after the other

A step that is run again on the texts that it wrote changes nothing (`Step.run_again`). Over any
number of steps with changing templates, every key keeps its translation, wherever it is stored
(`Step.translation_history`).
-/

set_option autoImplicit false

namespace CatalogueSync

/-- The two files of a locale hold these catalogues. -/
structure Locale.Texts.Hold (sourceTag : Text) (texts : Locale.Texts) (l u : LocaleCatalogue) :
    Prop where
  catalogue : LocaleCatalogue.parse sourceTag texts.catalogue = .ok l
  unused : LocaleCatalogue.parse sourceTag texts.unused = .ok u

theorem Locale.Texts.hold_of_readAll {sourceTag catalogue unused : Text}
    {es es' : List LocaleEntry}
    (hcatalogue : LocaleEntry.readAll sourceTag (scan catalogue) = .ok es)
    (hunused : LocaleEntry.readAll sourceTag (scan unused) = .ok es') :
    Hold sourceTag ⟨catalogue, unused⟩ (Catalogue.collect LocaleEntry.appendVariants es)
      (Catalogue.collect LocaleEntry.appendVariants es') where
  catalogue := by rw [LocaleCatalogue.parse, hcatalogue]; rfl
  unused := by rw [LocaleCatalogue.parse, hunused]; rfl

namespace Step

variable {sourceTag : Text} {templates : List Template} {texts : Locale.Texts}
  {x : Extraction} {l u : LocaleCatalogue}

/-- What one step does to the texts of a locale, when they can be read and no text of a message
holds the tag that ends an entry. -/
theorem run_of_hold (htag : IsReadable sourceTag) (locale : Text)
    (hx : Extraction.ofTemplates templates = .ok x) (hlacks : x.LacksEndmsg)
    (htexts : texts.Hold sourceTag l u) :
    ∃ s, run sourceTag templates locale texts = .ok s ∧ s.extraction = x ∧
      s.reference = ReferenceCatalogue.print sourceTag x.catalogue ∧
      s.update = Locale.update sourceTag x.catalogue l u ∧
      s.update.texts.Hold sourceTag (reconcile x.catalogue l u).locale
        (reconcile x.catalogue l u).unused := by
  obtain ⟨hcatalogue, hunused⟩ := parse_update htag hx hlacks
    (LocaleCatalogue.isWritable_of_parse htexts.catalogue)
    (LocaleCatalogue.isWritable_of_parse htexts.unused)
  exact ⟨_, run_of_parse hx htexts.catalogue htexts.unused, rfl, rfl, rfl, hcatalogue, hunused⟩

/-- A step on texts that a step with the same templates wrote gives the same texts and the same
reference, and no key moves. -/
theorem run_again (htag : IsReadable sourceTag) (locale : Text)
    (hx : Extraction.ofTemplates templates = .ok x) (hlacks : x.LacksEndmsg)
    (htexts : texts.Hold sourceTag l u) :
    ∃ s s', run sourceTag templates locale texts = .ok s ∧
      run sourceTag templates locale s.update.texts = .ok s' ∧
      s'.update.texts = s.update.texts ∧
      s'.reference = s.reference ∧
      s'.update.reconciliation.pending = s.update.reconciliation.pending ∧
      s'.update.reconciliation.translatedCount = s.update.reconciliation.translatedCount ∧
      s'.update.reconciliation.revived = [] ∧
      s'.update.reconciliation.demoted = [] ∧
      s'.update.reconciliation.discarded = [] := by
  obtain ⟨s, hrun, -, hreference, hupdate, hhold⟩ := run_of_hold htag locale hx hlacks htexts
  obtain ⟨s', hrun', -, hreference', hupdate', -⟩ := run_of_hold htag locale hx hlacks hhold
  have hagain := Reconciliation.reconcile_reconcile (Extraction.of_ofTemplates hx).1
    (LocaleCatalogue.isWritable_of_parse htexts.catalogue).lawful
    (LocaleCatalogue.isWritable_of_parse htexts.unused).lawful
  refine ⟨s, s', hrun, hrun', ?_⟩
  rw [hreference, hreference', hupdate, hupdate']
  simp only [Locale.update, hagain, true_and, and_true]
  rfl

/-- The first step moves a stale key to the unused catalogue, where the second one finds it. -/
theorem run_again_stale_key :
    ∃ s s', run "en".toList [⟨"a.html".toList, "\x7b\x7b 'cat'|trans \x7d\x7d".toList⟩]
        "fr".toList ⟨"\x7b%msg%\x7dchien\x7b%en%\x7ddog\x7b%endmsg%\x7d".toList, []⟩ = .ok s ∧
      run "en".toList [⟨"a.html".toList, "\x7b\x7b 'cat'|trans \x7d\x7d".toList⟩] "fr".toList
        s.update.texts = .ok s' ∧
      s'.update.texts = s.update.texts ∧ s'.update.reconciliation.demoted = [] := by
  have hms : Template.allMessages
      [⟨"a.html".toList, "\x7b\x7b 'cat'|trans \x7d\x7d".toList⟩] =
        .ok [⟨"cat".toList, ["a.html#L1".toList], none, none⟩] := by
    decide +kernel
  have hx : Extraction.ofTemplates
      [⟨"a.html".toList, "\x7b\x7b 'cat'|trans \x7d\x7d".toList⟩] = .ok (.ofMessages _) :=
    congrArg (Except.map _) hms
  have hread : LocaleEntry.readAll "en".toList
      (scan "\x7b%msg%\x7dchien\x7b%en%\x7ddog\x7b%endmsg%\x7d".toList) =
        .ok [⟨⟨"dog".toList, [], none, none⟩, ["chien".toList]⟩] := by
    decide +kernel
  have hempty : LocaleEntry.readAll "en".toList (scan []) = .ok [] := by decide +kernel
  have htexts := Locale.Texts.hold_of_readAll hread hempty
  obtain ⟨s, s', hrun, hrun', htexts, -, -, -, -, hdemoted, -⟩ := run_again isReadable_en
    "fr".toList hx (Extraction.lacksEndmsg_of_allMessages hms (by decide +kernel) hx) htexts
  exact ⟨s, s', hrun, hrun', htexts, hdemoted⟩

section history

/-- The texts of a locale after a step. A step that fails leaves them alone. -/
def next (sourceTag locale : Text) (texts : Locale.Texts) (templates : List Template) :
    Locale.Texts :=
  match run sourceTag templates locale texts with
  | .ok s => s.update.texts
  | .error _ => texts

/-- The texts of a locale after a sequence of steps, each with templates of its own. -/
def history (sourceTag locale : Text) (texts : Locale.Texts) (steps : List (List Template)) :
    Locale.Texts :=
  steps.foldl (next sourceTag locale) texts

theorem translation_update (hx : Extraction.ofTemplates templates = .ok x) (hlacks : x.LacksEndmsg)
    (hl : l.IsWritable sourceTag) (hu : u.IsWritable sourceTag) :
    Locale.translation (reconcile x.catalogue l u).locale (reconcile x.catalogue l u).unused =
      Locale.translation l u := by
  obtain ⟨hlawful, hfits⟩ := Extraction.of_ofTemplates hx
  obtain ⟨hlocale, hunused⟩ := Reconciliation.isWritable_reconcile hlawful hfits hlacks hl hu
  rw [Locale.translation_eq_effective hlocale hunused, Locale.translation_eq_effective hl hu,
    Reconciliation.reconcile_eq_outcome hl.lawful hu.lawful,
    Reconciliation.effective_outcome hlawful hl.lawful hu.lawful]

/-- One step keeps the files readable and every key's translation. -/
theorem hold_next (htag : IsReadable sourceTag) (locale : Text)
    (hlacks : ∀ x, Extraction.ofTemplates templates = .ok x → x.LacksEndmsg)
    (htexts : texts.Hold sourceTag l u) :
    ∃ l' u', (next sourceTag locale texts templates).Hold sourceTag l' u' ∧
      Locale.translation l' u' = Locale.translation l u := by
  cases hx : Extraction.ofTemplates templates with
  | error e =>
    have hrun : run sourceTag templates locale texts = .error e := by
      rw [run, hx]
    refine ⟨l, u, ?_, rfl⟩
    rwa [next, hrun]
  | ok x =>
    obtain ⟨s, hrun, -, -, -, hhold⟩ := run_of_hold htag locale hx (hlacks x hx) htexts
    refine ⟨_, _, ?_, translation_update hx (hlacks x hx)
      (LocaleCatalogue.isWritable_of_parse htexts.catalogue)
      (LocaleCatalogue.isWritable_of_parse htexts.unused)⟩
    rwa [next, hrun]

/-- So does any number of steps. -/
theorem hold_history (htag : IsReadable sourceTag) (locale : Text) {steps : List (List Template)}
    (hlacks : ∀ templates ∈ steps, ∀ x, Extraction.ofTemplates templates = .ok x → x.LacksEndmsg)
    (htexts : texts.Hold sourceTag l u) :
    ∃ l' u', (history sourceTag locale texts steps).Hold sourceTag l' u' ∧
      Locale.translation l' u' = Locale.translation l u := by
  induction steps generalizing texts l u with
  | nil => exact ⟨l, u, htexts, rfl⟩
  | cons templates steps ih =>
    obtain ⟨hhead, htail⟩ := List.forall_mem_cons.1 hlacks
    obtain ⟨l₁, u₁, hnext, htranslation⟩ := hold_next htag locale hhead htexts
    obtain ⟨l₂, u₂, hrest, htranslation'⟩ := ih htail hnext
    exact ⟨l₂, u₂, hrest, htranslation'.trans htranslation⟩

/-- No step ever loses a translation. After any number of steps the next one succeeds if its
templates can be extracted, and whenever it succeeds, every key has the translation that it had
before the step and at the start, the catalogue holds the keys of the reference in their order, and
no key is in both files. -/
theorem translation_history (htag : IsReadable sourceTag) (locale : Text)
    (htexts : texts.Hold sourceTag l u) (past : List (List Template)) (now : List Template)
    (hlacks : ∀ templates ∈ now :: past, ∀ x,
      Extraction.ofTemplates templates = .ok x → x.LacksEndmsg) :
    ∃ l₁ u₁, (history sourceTag locale texts past).Hold sourceTag l₁ u₁ ∧
      (∀ x, Extraction.ofTemplates now = .ok x →
        ∃ s, run sourceTag now locale (history sourceTag locale texts past) = .ok s ∧
          s.extraction = x) ∧
      ∀ s, run sourceTag now locale (history sourceTag locale texts past) = .ok s →
        ∃ l₂ u₂, s.update.texts.Hold sourceTag l₂ u₂ ∧
          (∀ key, Locale.translation l₂ u₂ key = Locale.translation l₁ u₁ key ∧
            Locale.translation l₁ u₁ key = Locale.translation l u key) ∧
          l₂.keys = s.extraction.catalogue.keys ∧ ∀ key ∈ l₂.keys, key ∉ u₂.keys := by
  obtain ⟨hnow, hpast⟩ := List.forall_mem_cons.1 hlacks
  obtain ⟨l₁, u₁, hhold, htranslation⟩ := hold_history htag locale hpast htexts
  have hl := LocaleCatalogue.isWritable_of_parse hhold.catalogue
  have hu := LocaleCatalogue.isWritable_of_parse hhold.unused
  refine ⟨l₁, u₁, hhold, ?_, ?_⟩
  · intro x hx
    obtain ⟨s, hrun, hextraction, -⟩ := run_of_hold htag locale hx (hnow x hx) hhold
    exact ⟨s, hrun, hextraction⟩
  · intro s hrun
    cases hx : Extraction.ofTemplates now with
    | error e =>
      rw [run, hx] at hrun
      cases hrun
    | ok x =>
      obtain ⟨s', hrun', hextraction, -, -, hafter⟩ :=
        run_of_hold htag locale hx (hnow x hx) hhold
      obtain rfl := Except.ok.inj (hrun.symm.trans hrun')
      have hlawful := (Extraction.of_ofTemplates hx).1
      refine ⟨_, _, hafter, ?_, ?_, ?_⟩
      · intro key
        rw [translation_update hx (hnow x hx) hl hu, htranslation]
        exact ⟨rfl, rfl⟩
      · rw [Reconciliation.reconcile_eq_outcome hl.lawful hu.lawful,
          Reconciliation.keys_locale_outcome hlawful, hextraction]
      · rw [Reconciliation.reconcile_eq_outcome hl.lawful hu.lawful,
          Reconciliation.keys_locale_outcome hlawful,
          Reconciliation.keys_unused_outcome hl.lawful hu.lawful]
        intro key hkey hstale
        exact ((Reconciliation.mem_unusedKeys_iff hlawful hl.lawful hu.lawful key).1 hstale).1 hkey

/-- A message that is removed by one step and brought back by the next has its translation
again. -/
theorem translation_history_revived_key :
    ∃ s l u, run "en".toList [⟨"a.html".toList, "\x7b\x7b 'dog'|trans \x7d\x7d".toList⟩]
        "fr".toList (history "en".toList "fr".toList
          ⟨"\x7b%msg%\x7dchien\x7b%en%\x7ddog\x7b%endmsg%\x7d".toList, []⟩
          [[⟨"a.html".toList, []⟩]]) = .ok s ∧
      s.update.texts.Hold "en".toList l u ∧
      Locale.translation l u "dog".toList = ["chien".toList] := by
  have hbefore : Template.allMessages [⟨"a.html".toList, []⟩] = .ok [] := by decide +kernel
  have hms : Template.allMessages
      [⟨"a.html".toList, "\x7b\x7b 'dog'|trans \x7d\x7d".toList⟩] =
        .ok [⟨"dog".toList, ["a.html#L1".toList], none, none⟩] := by
    decide +kernel
  have hread : LocaleEntry.readAll "en".toList
      (scan "\x7b%msg%\x7dchien\x7b%en%\x7ddog\x7b%endmsg%\x7d".toList) =
        .ok [⟨⟨"dog".toList, [], none, none⟩, ["chien".toList]⟩] := by
    decide +kernel
  have hempty : LocaleEntry.readAll "en".toList (scan []) = .ok [] := by decide +kernel
  have htexts := Locale.Texts.hold_of_readAll hread hempty
  obtain ⟨l₁, u₁, -, hsucceeds, hkeeps⟩ := translation_history isReadable_en "fr".toList
    htexts [[⟨"a.html".toList, []⟩]] [⟨"a.html".toList, "\x7b\x7b 'dog'|trans \x7d\x7d".toList⟩] (by
      intro templates htemplates x hx
      simp only [List.mem_cons, List.not_mem_nil, or_false] at htemplates
      rcases htemplates with rfl | rfl
      · exact Extraction.lacksEndmsg_of_allMessages hms (by decide +kernel) hx
      · exact Extraction.lacksEndmsg_of_allMessages hbefore (by decide +kernel) hx)
  obtain ⟨s, hrun, -⟩ := hsucceeds _ (congrArg (Except.map _) hms)
  obtain ⟨l, u, hhold, htranslation, -⟩ := hkeeps s hrun
  refine ⟨s, l, u, hrun, hhold, ?_⟩
  rw [(htranslation _).1, (htranslation _).2]
  decide +kernel

end history

end Step

end CatalogueSync
