import CatalogueSync.Proofs.Catalogue.Normalisation
import CatalogueSync.Proofs.Extraction.Messages
import CatalogueSync.Proofs.Reconciliation.Fixpoint
import CatalogueSync.Step

/-!
# What a step writes

A step writes the catalogues that reconciling gives. When no text of a message holds the tag that
ends an entry, these catalogues are writable (`Reconciliation.isWritable_reconcile`), so the next
step reads exactly the catalogues that this one wrote (`Step.run_of_parse`).
-/

set_option autoImplicit false

namespace CatalogueSync

/-- Neither the key nor the plural holds the tag that ends an entry of a catalogue. -/
def Message.LacksEndmsg (m : Message) : Prop :=
  (∀ t ∈ scan m.key, t.tag? [TagName.endmsg] = none) ∧
    ∀ p ∈ m.plural, ∀ t ∈ scan p, t.tag? [TagName.endmsg] = none

instance (m : Message) : Decidable m.LacksEndmsg :=
  inferInstanceAs (Decidable (_ ∧ _))

/-- No message of the reference holds the tag that ends an entry. -/
def Extraction.LacksEndmsg (x : Extraction) : Prop :=
  ∀ m ∈ x.catalogue.entries, m.LacksEndmsg

/-- It is enough that no message of the templates holds that tag. -/
theorem Extraction.lacksEndmsg_of_allMessages {ts : List Template} {ms : List Message}
    (hms : Template.allMessages ts = .ok ms) (hlacks : ∀ m ∈ ms, m.LacksEndmsg) {x : Extraction}
    (hx : ofTemplates ts = .ok x) : x.LacksEndmsg := by
  rw [ofTemplates, hms] at hx
  obtain rfl := Except.ok.inj hx
  rw [LacksEndmsg, catalogue_ofMessages]
  exact Catalogue.forall_mem_collect Message.key_appendSources (fun _ _ hstored _ => hstored)
    hlacks

/-- The variants stored under a key. -/
def LocaleCatalogue.variants (c : LocaleCatalogue) (key : Text) : List Text :=
  ((c.get? key).map LocaleEntry.variants).getD []

/-- The translation that a locale has for a key: the variants in its catalogue if there are any,
else those in its unused catalogue. -/
def Locale.translation (l u : LocaleCatalogue) (key : Text) : List Text :=
  if l.variants key = [] then u.variants key else l.variants key

section translation

variable {sourceTag : Text} {l u : LocaleCatalogue}

/-- What was read from a file has no blank variants, so all variants count. -/
theorem LocaleCatalogue.IsWritable.filledVariants?_eq (hl : l.IsWritable sourceTag) (key : Text) :
    l.filledVariants? key = if l.variants key = [] then none else some (l.variants key) := by
  cases hget : l.get? key with
  | none =>
    rw [LocaleCatalogue.variants, LocaleCatalogue.filledVariants?, hget]
    rfl
  | some e =>
    obtain ⟨he, rfl⟩ := hl.lawful.get?_eq_some_iff.1 hget
    have hvariants : l.variants e.key = e.variants := by
      rw [LocaleEntry.keyed_key] at hget
      rw [LocaleCatalogue.variants, hget]
      rfl
    rw [LocaleEntry.keyed_key, hvariants]
    apply Reconciliation.filledVariants?_of_not_isBlank hl.lawful he
    intro v hv
    obtain ⟨hne, hfits⟩ := (hl.entries e he).variants v hv
    rw [← Bool.not_eq_true, ← Text.trim_eq_nil_iff, hfits.trimmed]
    exact hne

theorem Locale.translation_eq_effective (hl : l.IsWritable sourceTag)
    (hu : u.IsWritable sourceTag) :
    translation l u = Reconciliation.effective l u := by
  funext key
  rw [translation, Reconciliation.effective, hl.filledVariants?_eq, hu.filledVariants?_eq]
  by_cases hlocale : l.variants key = []
  · by_cases hunused : u.variants key = [] <;> simp [hlocale, hunused]
  · simp [hlocale]

end translation

namespace Reconciliation

open LocaleCatalogue (filledVariants?)

variable {sourceTag : Text} {l u : LocaleCatalogue}

/-- The variants that count fit their places. -/
theorem fitsBlock_of_mem_filledVariants? (hl : l.IsWritable sourceTag) {key : Text}
    {vs : List Text} (hvs : filledVariants? l key = some vs) :
    ∀ v ∈ vs, v ≠ [] ∧ FitsBlock [TagName.msg, sourceTag] v := by
  unfold LocaleCatalogue.filledVariants? at hvs
  split at hvs
  · rename_i e hget
    split at hvs
    · obtain rfl := Option.some.inj hvs
      intro v hv
      have he := (hl.lawful.get?_eq_some_iff.1 hget).1
      exact (hl.entries e he).variants v (List.mem_of_mem_filter hv)
    · cases hvs
  · cases hvs

theorem fitsBlock_of_mem_effective (hl : l.IsWritable sourceTag) (hu : u.IsWritable sourceTag)
    (key : Text) : ∀ v ∈ effective l u key, v ≠ [] ∧ FitsBlock [TagName.msg, sourceTag] v := by
  intro v hv
  obtain ⟨c, vs, rfl | rfl, hvs, hmem⟩ := exists_of_mem_effective hv
  · exact fitsBlock_of_mem_filledVariants? hl hvs v hmem
  · exact fitsBlock_of_mem_filledVariants? hu hvs v hmem

/-- A message of a template can be written once none of its texts holds the tag that ends an
entry. -/
theorem isWritable_carried {x : Extraction} (hx : ∀ m ∈ x.catalogue.entries, m.FitsTemplate)
    (hlacks : x.LacksEndmsg) (hl : l.IsWritable sourceTag) (hu : u.IsWritable sourceTag)
    {m : Message} (hm : m ∈ x.catalogue.entries) : (carried l u m).IsWritable sourceTag := by
  obtain ⟨-, hkey, hplural, hcomment⟩ := hx m hm
  obtain ⟨hkeyLacks, hpluralLacks⟩ := hlacks m hm
  refine ⟨?_, ?_, hcomment, fitsBlock_of_mem_effective hl hu m.key⟩
  · exact (hkey.append hkeyLacks).mono (by simp)
  · intro p hp
    exact ((hplural p hp).append (hpluralLacks p hp)).mono (by simp)

theorem fitsBlock_of_mem_keys (hl : l.IsWritable sourceTag) {key : Text} (hkey : key ∈ l.keys) :
    FitsBlock [TagName.plural, TagName.endmsg] key := by
  obtain ⟨e, he, rfl⟩ := List.mem_map.1 hkey
  exact (hl.entries e he).key

theorem isWritable_bare (hl : l.IsWritable sourceTag) (hu : u.IsWritable sourceTag)
    {reference : ReferenceCatalogue} {key : Text} (hkey : key ∈ unusedKeys reference l u) :
    (LocaleEntry.bare key (effective l u key)).IsWritable sourceTag := by
  refine ⟨?_, by simp [LocaleEntry.bare], by simp [LocaleEntry.bare],
    fitsBlock_of_mem_effective hl hu key⟩
  rcases List.mem_append.1 hkey with hkey | hkey
  · exact fitsBlock_of_mem_keys hl (List.mem_of_mem_filter hkey)
  · exact fitsBlock_of_mem_keys hu (List.mem_of_mem_filter hkey)

/-- Reconciling gives catalogues that survive being written. -/
theorem isWritable_reconcile {x : Extraction} (hlawful : x.catalogue.Lawful)
    (hx : ∀ m ∈ x.catalogue.entries, m.FitsTemplate) (hlacks : x.LacksEndmsg)
    (hl : l.IsWritable sourceTag) (hu : u.IsWritable sourceTag) :
    (reconcile x.catalogue l u).locale.IsWritable sourceTag ∧
      (reconcile x.catalogue l u).unused.IsWritable sourceTag := by
  rw [reconcile_eq_outcome hl.lawful hu.lawful]
  refine ⟨⟨lawful_locale_outcome, ?_⟩, ⟨lawful_unused_outcome, ?_⟩⟩
  · rw [entries_locale_outcome hlawful]
    intro e he
    obtain ⟨m, hm, rfl⟩ := List.mem_map.1 he
    exact isWritable_carried hx hlacks hl hu hm
  · rw [entries_unused_outcome hl.lawful hu.lawful]
    intro e he
    obtain ⟨key, hkey, rfl⟩ := List.mem_map.1 he
    exact isWritable_bare hl hu hkey

end Reconciliation

namespace Step

variable {sourceTag locale : Text} {templates : List Template} {texts : Locale.Texts}
  {x : Extraction} {l u : LocaleCatalogue}

/-- A step succeeds when the templates can be extracted and both files can be read. -/
theorem run_of_parse (hx : Extraction.ofTemplates templates = .ok x)
    (hl : LocaleCatalogue.parse sourceTag texts.catalogue = .ok l)
    (hu : LocaleCatalogue.parse sourceTag texts.unused = .ok u) :
    run sourceTag templates locale texts =
      .ok ⟨x, ReferenceCatalogue.print sourceTag x.catalogue,
        Locale.update sourceTag x.catalogue l u⟩ := by
  rw [run, hx]
  simp only [Locale.updateTexts, Locale.readFile, hl, hu]
  rfl

/-- The files that a step has written are read back as the catalogues it reconciled. -/
theorem parse_update (htag : IsReadable sourceTag)
    (hx : Extraction.ofTemplates templates = .ok x) (hlacks : x.LacksEndmsg)
    (hl : l.IsWritable sourceTag) (hu : u.IsWritable sourceTag) :
    LocaleCatalogue.parse sourceTag (Locale.update sourceTag x.catalogue l u).texts.catalogue =
        .ok (reconcile x.catalogue l u).locale ∧
      LocaleCatalogue.parse sourceTag (Locale.update sourceTag x.catalogue l u).texts.unused =
        .ok (reconcile x.catalogue l u).unused := by
  obtain ⟨hlawful, hfits⟩ := Extraction.of_ofTemplates hx
  obtain ⟨hlocale, hunused⟩ := Reconciliation.isWritable_reconcile hlawful hfits hlacks hl hu
  exact ⟨hlocale.parse_print htag, hunused.parse_print htag⟩

end Step

end CatalogueSync
