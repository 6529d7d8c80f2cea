import CatalogueSync.Proofs.Step.Storage

/-!
# The file of the reference

The file of the reference holds the messages of the templates without any variant. A message that
comes from a template fits its place in that file unless one of its texts holds the tag that ends
an entry (`ReferenceCatalogue.isWritable_toLocale_iff`): templates have other closing tags. So the
file is read back as the messages that were extracted exactly when none of them holds this tag
(`Extraction.parse_print_reference_iff`).
-/

set_option autoImplicit false

namespace CatalogueSync

namespace ReferenceCatalogue

variable {sourceTag : Text} {reference : ReferenceCatalogue}

theorem entries_toLocale (hreference : reference.Lawful) :
    reference.toLocale.entries = reference.entries.map LocaleEntry.pending := by
  apply Catalogue.entries_ofList_of_nodup
  rw [List.map_map]
  exact hreference.nodup

theorem keys_toLocale (hreference : reference.Lawful) :
    reference.toLocale.keys = reference.keys := by
  rw [Catalogue.keys, entries_toLocale hreference, List.map_map]
  rfl

/-- The messages of the entries that the reference is stored as are those of the reference. -/
theorem ofList_toMessage_toLocale (hreference : reference.Lawful) :
    Catalogue.ofList (reference.toLocale.entries.map LocaleEntry.toMessage) = reference := by
  have hmessages : reference.toLocale.entries.map LocaleEntry.toMessage = reference.entries := by
    rw [entries_toLocale hreference, List.map_map]
    exact List.map_id _
  rw [hmessages]
  exact (Catalogue.lawful_ofList _).ext hreference
    (Catalogue.entries_ofList_of_nodup hreference.nodup)

/-- The texts of a template's message fit their places in an entry without variants exactly when
none of them holds the tag that ends an entry. -/
theorem isWritable_pending_iff {m : Message} (hm : m.FitsTemplate) :
    (LocaleEntry.pending m).IsWritable sourceTag ↔ m.LacksEndmsg := by
  constructor
  · intro h
    refine ⟨(h.key.mono (by simp)).lacks, ?_⟩
    intro p hp
    exact (h.plural p hp).lacks
  · rintro ⟨hkey, hplural⟩
    refine ⟨(hm.key.append hkey).mono (by simp), ?_, hm.comment, by simp [LocaleEntry.pending]⟩
    intro p hp
    exact ((hm.plural p hp).append (hplural p hp)).mono (by simp)

theorem isWritable_toLocale_iff (hreference : reference.Lawful)
    (hfits : ∀ m ∈ reference.entries, m.FitsTemplate) :
    reference.toLocale.IsWritable sourceTag ↔ ∀ m ∈ reference.entries, m.LacksEndmsg := by
  have hentries := entries_toLocale hreference
  constructor
  · intro h m hm
    refine (isWritable_pending_iff (hfits m hm)).1 (h.entries _ ?_)
    rw [hentries]
    exact List.mem_map_of_mem hm
  · intro h
    refine ⟨Catalogue.lawful_ofList _, ?_⟩
    rw [hentries]
    intro e he
    obtain ⟨m, hm, rfl⟩ := List.mem_map.1 he
    exact (isWritable_pending_iff (hfits m hm)).2 (h m hm)

end ReferenceCatalogue

namespace Extraction

variable {sourceTag : Text} {templates : List Template} {x : Extraction}

/-- Without the tag that ends an entry in any message, the file of the reference is read back as
the reference. -/
theorem parse_print_toLocale (htag : IsReadable sourceTag)
    (hx : ofTemplates templates = .ok x) (hlacks : x.LacksEndmsg) :
    LocaleCatalogue.parse sourceTag (ReferenceCatalogue.print sourceTag x.catalogue) =
      .ok x.catalogue.toLocale := by
  obtain ⟨hlawful, hfits⟩ := of_ofTemplates hx
  exact ((ReferenceCatalogue.isWritable_toLocale_iff hlawful hfits).2 hlacks).parse_print htag

/-- The file of the reference is read back as the messages that were extracted, in their order,
with their sources, plurals and comments and without variants, exactly when none of their texts
holds the tag that ends an entry. -/
theorem parse_print_reference_iff (htag : IsReadable sourceTag)
    (hx : ofTemplates templates = .ok x) :
    (∃ c, LocaleCatalogue.parse sourceTag (ReferenceCatalogue.print sourceTag x.catalogue) =
        .ok c ∧ c.entries = x.catalogue.entries.map LocaleEntry.pending) ↔ x.LacksEndmsg := by
  obtain ⟨hlawful, hfits⟩ := of_ofTemplates hx
  constructor
  · rintro ⟨c, hparse, hentries⟩
    have hwritable := LocaleCatalogue.isWritable_of_parse hparse
    -- what was read is the stored reference, and only writable catalogues are read
    have hc : c = x.catalogue.toLocale := by
      have hstored := ReferenceCatalogue.entries_toLocale hlawful
      exact hwritable.lawful.ext (Catalogue.lawful_ofList _) (hentries.trans hstored.symm)
    rw [hc] at hwritable
    exact (ReferenceCatalogue.isWritable_toLocale_iff hlawful hfits).1 hwritable
  · intro hlacks
    exact ⟨_, parse_print_toLocale htag hx hlacks, ReferenceCatalogue.entries_toLocale hlawful⟩

/-- A path that only fits in quotes and a tag that leads to a further variant do no harm. -/
theorem parse_print_reference_foreign_tag :
    ∃ x c, ofTemplates [⟨"my 'page".toList,
        "\x7b%trans%\x7d a \x7b%msg%\x7d\x7b%plural%\x7d \x7b%endtrans%\x7d".toList⟩] = .ok x ∧
      LocaleCatalogue.parse "en".toList (ReferenceCatalogue.print "en".toList x.catalogue) =
        .ok c ∧
      c.entries = [⟨⟨"a \x7b%msg%\x7d".toList, ["my 'page#L1".toList], some [], none⟩, []⟩] := by
  have hms : Template.allMessages [⟨"my 'page".toList,
      "\x7b%trans%\x7d a \x7b%msg%\x7d\x7b%plural%\x7d \x7b%endtrans%\x7d".toList⟩] =
        .ok [⟨"a \x7b%msg%\x7d".toList, ["my 'page#L1".toList], some [], none⟩] := by
    decide +kernel
  have hx := congrArg (Except.map ofMessages) hms
  obtain ⟨c, hparse, hentries⟩ := (parse_print_reference_iff isReadable_en hx).2
    (lacksEndmsg_of_allMessages hms (by decide +kernel) hx)
  exact ⟨_, c, hx, hparse, hentries.trans (by decide +kernel)⟩

/-- A template may hold the tag that ends an entry in a translatable block. The key of its message
is then cut off at that tag when the file of the reference is read. -/
theorem parse_print_reference_endmsg :
    ∃ x c, ofTemplates [⟨"t".toList,
        "\x7b% trans %\x7da\x7b% endmsg %\x7db\x7b% endtrans %\x7d".toList⟩] = .ok x ∧
      x.catalogue.keys = ["a\x7b% endmsg %\x7db".toList] ∧
      LocaleCatalogue.parse "en".toList (ReferenceCatalogue.print "en".toList x.catalogue) =
        .ok c ∧
      c.keys = ["a".toList] := by
  have hms : Template.allMessages [⟨"t".toList,
      "\x7b% trans %\x7da\x7b% endmsg %\x7db\x7b% endtrans %\x7d".toList⟩] =
        .ok [⟨"a\x7b% endmsg %\x7db".toList, ["t#L1".toList], none, none⟩] := by
    decide +kernel
  have hread : LocaleEntry.readAll "en".toList (scan (ReferenceCatalogue.print "en".toList
      (ofMessages [⟨"a\x7b% endmsg %\x7db".toList, ["t#L1".toList], none, none⟩]).catalogue)) =
        .ok [⟨⟨"a".toList, ["t#L1".toList], none, none⟩, []⟩] := by
    decide +kernel
  exact ⟨_, Catalogue.collect LocaleEntry.appendVariants _, congrArg (Except.map ofMessages) hms,
    by decide +kernel, congrArg (Except.map _) hread, by decide +kernel⟩

end Extraction

end CatalogueSync
