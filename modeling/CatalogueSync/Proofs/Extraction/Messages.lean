import CatalogueSync.Extraction
import CatalogueSync.Proofs.Block.Comment
import CatalogueSync.Proofs.Block.Contents
import CatalogueSync.Proofs.Catalogue.Index

/-!
# What templates ask for

Every message that a template asks for fits its place in a template (`Message.FitsTemplate`), be it
from a block or from an inline literal, and the reference catalogue is the lawful catalogue that
gathers these messages (`Extraction.of_ofTemplates`).
-/

set_option autoImplicit false

namespace CatalogueSync

/-- A message whose texts can come from a template. -/
structure Message.FitsTemplate (m : Message) : Prop where
  key_ne_nil : m.key ≠ []
  key : FitsBlock [TagName.plural, TagName.endtrans] m.key
  plural : ∀ p ∈ m.plural, FitsBlock [TagName.endtrans] p
  comment : ∀ c ∈ m.comment, FitsComment c

namespace Template

theorem holdsDelimiter_iff {s : Text} :
    holdsDelimiter s = true ↔ ∃ k : UnitKind, k.opener <:+: s ∨ k.closer <:+: s := by
  simp only [holdsDelimiter, List.any_eq_true, Bool.or_eq_true, Text.contains_iff_infix]
  refine ⟨fun ⟨k, _, hk⟩ => ⟨k, hk⟩, fun ⟨k, hk⟩ => ⟨k, ?_, hk⟩⟩
  cases k <;> simp [UnitKind.all]

theorem composedOf_nil_of_holdsDelimiter {s : Text} (h : holdsDelimiter s = false) :
    ComposedOf [] s := by
  have hplain : PlainBefore [] s := by
    refine plainBefore_nil_iff.2 fun k hk => ?_
    rw [← Bool.not_eq_true, holdsDelimiter_iff] at h
    exact h ⟨k, .inl hk⟩
  rw [← List.append_nil s]
  exact ComposedOf.nil.of_plainBefore hplain

/-- The text of an inline literal fits a block of any kind. -/
theorem fitsBlock_of_holdsDelimiter {closing : List Text} {s : Text}
    (h : holdsDelimiter (Text.trim s) = false) : FitsBlock closing (Text.trim s) :=
  FitsBlock.iff_composedOf.2 ⟨Text.trim_trim s, [], composedOf_nil_of_holdsDelimiter h,
    by intro u hu; cases hu⟩

/-- The messages of a template fit it. -/
theorem fitsTemplate_of_readMessages {path : Text} {n : Nat} {s : Text} {ms : List Message}
    (h : readMessages path (scanFrom n s) = .ok ms) : ∀ m ∈ ms, m.FitsTemplate := by
  generalize hscan : scanFrom n s = us at h
  fun_induction readMessages path us generalizing n s ms with
  | case1 =>
    obtain rfl := Except.ok.inj h
    simp
  | case2 => cases h
  | case3 t us opening _ w rest hwording ih =>
    obtain ⟨m, r, rfl⟩ := exists_scanFrom_of_cons hscan
    cases htake : takeComment (scanFrom m r) with
    | mk comment ts =>
    obtain ⟨hcomment, m₁, r₁, rfl⟩ := of_takeComment_scanFrom htake
    simp only [htake] at hwording h
    obtain ⟨hkey, hplural, m₂, r₂, rfl⟩ := of_readWording_scanFrom hwording
    obtain ⟨more, hmore, rfl⟩ := of_map_eq_ok h
    have hfits := ih rfl hmore
    split
    · exact hfits
    · rename_i hne
      exact List.forall_mem_cons.2 ⟨⟨by simpa using hne, hkey, hplural, hcomment⟩, hfits⟩
  | case4 => cases h
  | case5 t us _ literal _ _ hdelimiter =>
    rename_i ih
    obtain ⟨m, r, rfl⟩ := exists_scanFrom_of_cons hscan
    obtain ⟨more, hmore, rfl⟩ := of_map_eq_ok h
    have hfits := ih rfl hmore
    split
    · exact hfits
    · rename_i hne
      have hkey : holdsDelimiter (Text.trim literal) = false := by simpa using hdelimiter
      exact List.forall_mem_cons.2 ⟨⟨by simpa using hne, fitsBlock_of_holdsDelimiter hkey,
        by simp, by simp⟩, hfits⟩
  | case6 t us _ _ ih =>
    obtain ⟨m, r, rfl⟩ := exists_scanFrom_of_cons hscan
    exact ih rfl h

/-- The messages of several templates fit them. -/
theorem fitsTemplate_of_allMessages {ts : List Template} {ms : List Message}
    (h : allMessages ts = .ok ms) : ∀ m ∈ ms, m.FitsTemplate := by
  induction ts generalizing ms with
  | nil =>
    obtain rfl := Except.ok.inj h
    simp
  | cons t ts ih =>
    rw [allMessages] at h
    split at h
    · cases h
    · rename_i first hfirst
      obtain ⟨more, hmore, rfl⟩ := of_map_eq_ok h
      intro m hm
      rcases List.mem_append.1 hm with hm | hm
      · exact fitsTemplate_of_readMessages hfirst m hm
      · exact ih hmore m hm

end Template

namespace Extraction

theorem catalogue_ofMessages (ms : List Message) :
    (ofMessages ms).catalogue = Catalogue.collect Message.appendSources ms := by
  suffices h : ∀ x : Extraction, (ms.foldl record x).catalogue =
      ms.foldl (fun c m => (c.insertOrMerge Message.appendSources m).1) x.catalogue from h empty
  induction ms with
  | nil => exact fun _ => rfl
  | cons m ms ih => exact fun x => ih (x.record m)

/-- The reference catalogue of templates is lawful, and its messages fit the templates. -/
theorem of_ofTemplates {ts : List Template} {x : Extraction} (h : ofTemplates ts = .ok x) :
    x.catalogue.Lawful ∧ ∀ m ∈ x.catalogue.entries, m.FitsTemplate := by
  obtain ⟨ms, hms, rfl⟩ := of_map_eq_ok h
  rw [catalogue_ofMessages]
  refine ⟨Catalogue.lawful_collect Message.key_appendSources ms, ?_⟩
  apply Catalogue.forall_mem_collect Message.key_appendSources ?_
    (Template.fitsTemplate_of_allMessages hms)
  -- a later message with the same key only adds its places
  rintro stored m hstored -
  exact ⟨hstored.key_ne_nil, hstored.key, hstored.plural, hstored.comment⟩

end Extraction

end CatalogueSync
