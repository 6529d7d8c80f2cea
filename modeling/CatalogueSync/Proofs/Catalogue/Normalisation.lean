import CatalogueSync.Proofs.Catalogue.RoundTrip

/-!
# What catalogue files hold

Whatever is read from a catalogue file is writable (`LocaleCatalogue.isWritable_of_parse`), so the
writable catalogues are exactly those that are read back from their own files
(`LocaleCatalogue.parse_print_eq_ok_iff`). Reading a file and writing it anew is therefore a
normalisation, which changes nothing when it is repeated.
-/

set_option autoImplicit false

namespace CatalogueSync

namespace LocaleEntry

variable {sourceTag : Text}

/-- The text of a block that holds a variant is a variant, unless it is empty. -/
theorem of_mem_found {closing : List Text} {b : Block} (hb : FitsBlock closing b.text) {v : Text}
    (hv : v ∈ if b.text.isEmpty then [] else [b.text]) : v ≠ [] ∧ FitsBlock closing v := by
  split at hv
  · cases hv
  · rename_i hne
    obtain rfl := List.mem_singleton.1 hv
    exact ⟨by simpa using hne, hb⟩

/-- The variants that are read fit their places, and none of them is empty. -/
theorem of_readVariants_scanFrom {openedAt n : Nat} {s : Text} {vs : List Text} {ts : List Token}
    (h : readVariants sourceTag openedAt (scanFrom n s) = .ok (vs, ts)) :
    (∀ v ∈ vs, v ≠ [] ∧ FitsBlock [TagName.msg, sourceTag] v) ∧
      ∃ m rest, ts = scanFrom m rest := by
  generalize hscan : scanFrom n s = us at h
  fun_induction readVariants sourceTag openedAt us generalizing n s vs ts with
  | case1 => cases h
  | case2 us b rest hread =>
    subst hscan
    obtain ⟨hfits, -, hrest⟩ := FitsBlock.of_readBlock hread
    obtain ⟨rfl, rfl⟩ := Prod.mk.inj (Except.ok.inj h)
    exact ⟨fun v hv => of_mem_found hfits hv, hrest⟩
  | case3 => cases h
  | case4 us b rest hread _ _ more rest' hmore =>
    rename_i ih
    subst hscan
    obtain ⟨hfits, -, m, r, rfl⟩ := FitsBlock.of_readBlock hread
    obtain ⟨hmoreFit, hrest⟩ := ih rfl hmore
    obtain ⟨rfl, rfl⟩ := Prod.mk.inj (Except.ok.inj h)
    refine ⟨?_, hrest⟩
    intro v hv
    rcases List.mem_append.1 hv with hv | hv
    · exact of_mem_found hfits hv
    · exact hmoreFit v hv

/-- An entry that is read is writable. -/
theorem isWritable_of_read {opening : Tag} {n : Nat} {s : Text} {e : LocaleEntry}
    {ts : List Token} (h : read sourceTag opening (scanFrom n s) = .ok (e, ts)) :
    e.IsWritable sourceTag ∧ ∃ m rest, ts = scanFrom m rest := by
  rw [read] at h
  cases htake : takeComment (scanFrom n s) with
  | mk comment ts₁ =>
  obtain ⟨hcomment, m₁, s₁, rfl⟩ := of_takeComment_scanFrom htake
  rw [htake] at h
  simp only at h
  split at h
  · cases h
  · rename_i variants ts₂ hvariants
    obtain ⟨hvs, m₂, s₂, rfl⟩ := of_readVariants_scanFrom hvariants
    split at h
    · cases h
    · rename_i w ts₃ hwording
      obtain ⟨hkey, hplural, hrest⟩ := of_readWording_scanFrom hwording
      obtain ⟨rfl, rfl⟩ := Prod.mk.inj (Except.ok.inj h)
      exact ⟨⟨hkey, hplural, hcomment, hvs⟩, hrest⟩

theorem isWritable_of_readAll {n : Nat} {s : Text} {es : List LocaleEntry}
    (h : readAll sourceTag (scanFrom n s) = .ok es) : ∀ e ∈ es, e.IsWritable sourceTag := by
  generalize hscan : scanFrom n s = us at h
  fun_induction readAll sourceTag us generalizing n s es with
  | case1 =>
    obtain rfl := Except.ok.inj h
    simp
  | case2 => cases h
  | case3 t us opening _ e rest hread ih =>
    obtain ⟨m, r, rfl⟩ := exists_scanFrom_of_cons hscan
    obtain ⟨he, m', r', rfl⟩ := isWritable_of_read hread
    obtain ⟨more, hmore, rfl⟩ := of_map_eq_ok h
    exact List.forall_mem_cons.2 ⟨he, ih rfl hmore⟩
  | case4 => cases h
  | case5 => cases h
  | case6 t us _ _ _ ih =>
    obtain ⟨m, r, rfl⟩ := exists_scanFrom_of_cons hscan
    exact ih rfl h

end LocaleEntry

namespace LocaleCatalogue

variable {sourceTag : Text}

/-- What is read from a catalogue file is a writable catalogue. -/
theorem isWritable_of_parse {s : Text} {c : LocaleCatalogue} (h : parse sourceTag s = .ok c) :
    c.IsWritable sourceTag := by
  obtain ⟨es, hread, rfl⟩ := of_map_eq_ok h
  refine ⟨Catalogue.lawful_collect LocaleEntry.key_appendVariants es, ?_⟩
  apply Catalogue.forall_mem_collect LocaleEntry.key_appendVariants ?_
    (LocaleEntry.isWritable_of_readAll hread)
  -- a later entry with the same key only adds its variants
  intro stored e hstored he
  refine ⟨hstored.key, hstored.plural, hstored.comment, ?_⟩
  intro v hv
  rcases List.mem_append.1 hv with hv | hv
  · exact hstored.variants v hv
  · exact he.variants v hv

/-- Exactly the writable catalogues are read back from their files: the same keys in the same order,
with the same variants, sources, plurals and comments. -/
theorem parse_print_eq_ok_iff (htag : IsReadable sourceTag) (c : LocaleCatalogue) :
    parse sourceTag (print sourceTag c) = .ok c ↔ c.IsWritable sourceTag := by
  constructor
  · exact isWritable_of_parse
  · exact fun hc => hc.parse_print htag

/-- An empty key and plural, a variant that starts with a comment, one that hides a closer and a
source that only fits in quotes are read back. -/
theorem parse_print_quoted_closer :
    ∃ c : LocaleCatalogue,
      c.entries = [⟨⟨[], ["a %\x7d \"b\n".toList], some [], none⟩,
        ["\x7b# x #\x7d y".toList, "\x7b\x7b '%\x7d' \x7d\x7d".toList]⟩] ∧
      parse "en".toList (print "en".toList c) = .ok c := by
  refine ⟨Catalogue.ofList _, Catalogue.entries_ofList_of_nodup (by simp), ?_⟩
  refine (parse_print_eq_ok_iff isReadable_en _).2 ⟨Catalogue.lawful_ofList _, ?_⟩
  rw [Catalogue.entries_ofList_of_nodup (by simp)]
  intro e he
  obtain rfl := List.mem_singleton.1 he
  refine ⟨FitsBlock.nil, ?_, by simp, ?_⟩
  · intro p hp
    obtain rfl := Option.some.inj hp
    exact FitsBlock.nil
  · intro v hv
    simp only [List.mem_cons, List.not_mem_nil, or_false] at hv
    rcases hv with rfl | rfl
    · exact ⟨by decide, by decide +kernel, by decide +kernel, by decide +kernel⟩
    · exact ⟨by decide, by decide +kernel, by decide +kernel, by decide +kernel⟩

/-- Reads a catalogue file and writes it anew. -/
def normalise (sourceTag : Text) (s : Text) : Except ParseError Text :=
  (parse sourceTag s).map (print sourceTag)

/-- A file that was read is written anew without loss: the new file holds the same catalogue, and
to normalise it changes nothing. -/
theorem parse_normalised (htag : IsReadable sourceTag) {s : Text} {c : LocaleCatalogue}
    (h : parse sourceTag s = .ok c) :
    parse sourceTag (print sourceTag c) = .ok c ∧
      normalise sourceTag s = .ok (print sourceTag c) ∧
      normalise sourceTag (print sourceTag c) = .ok (print sourceTag c) := by
  have hprint := (isWritable_of_parse h).parse_print htag
  refine ⟨hprint, ?_, ?_⟩
  · rw [normalise, h]
    rfl
  · rw [normalise, hprint]
    rfl

/-- Text between entries, a repeated key and an empty variant are gone from the new file. -/
theorem parse_normalised_repeated_key :
    ∃ c : LocaleCatalogue,
      c.entries = [⟨⟨"k".toList, ["a".toList], none, none⟩, ["x".toList, "y".toList]⟩] ∧
      parse "en".toList (print "en".toList c) = .ok c := by
  let text := "\x7b%msg 'a'%\x7d x \x7b%en%\x7dk\x7b%endmsg%\x7d junk ".toList ++
    "\x7b%msg%\x7dy\x7b%msg%\x7d\x7b%en%\x7d k\x7b%endmsg%\x7d".toList
  have hread : LocaleEntry.readAll "en".toList (scan text) =
      .ok [⟨⟨"k".toList, ["a".toList], none, none⟩, ["x".toList]⟩,
        ⟨⟨"k".toList, [], none, none⟩, ["y".toList]⟩] := by
    decide +kernel
  exact ⟨Catalogue.collect LocaleEntry.appendVariants _, by decide +kernel,
    (parse_normalised isReadable_en (congrArg (Except.map _) hread)).1⟩

end LocaleCatalogue

end CatalogueSync
