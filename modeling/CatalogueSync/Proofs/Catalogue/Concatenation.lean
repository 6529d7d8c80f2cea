import CatalogueSync.Proofs.Catalogue.Grammar
import CatalogueSync.Proofs.Token.Joining

/-!
# Catalogue files behind one another

What a list of tokens spells does not depend on the lines of the tokens, and an error moves down
with them (`LocaleEntry.readAll_map_movedDown`). A file that is read ends outside of all units, so
that another text behind it is scanned as on its own but for plain text at the seam, and this is
junk on either side (`LocaleEntry.SpellsFile.readAll_join`). Hence the entries of both texts are
read one after the other. That the second catalogue was gathered before it is put into the first one
makes no difference, since variants are only appended (`Catalogue.Lawful.foldl_entries_collect`).
-/

set_option autoImplicit false

namespace CatalogueSync

namespace Token

variable {t : Token} {ts us : List Token} {name : Text} {m : Nat}

section movedDown

@[simp]
theorem movedDown_kind : (t.movedDown m).kind = t.kind := rfl

@[simp]
theorem movedDown_raw : (t.movedDown m).raw = t.raw := rfl

@[simp]
theorem body_movedDown : (t.movedDown m).body = t.body := rfl

@[simp]
theorem isBlank_movedDown : (t.movedDown m).isBlank = t.isBlank := rfl

@[simp]
theorem arguments_movedDown : (t.movedDown m).arguments = t.arguments := rfl

@[simp]
theorem inlineLiteral?_movedDown : (t.movedDown m).inlineLiteral? = t.inlineLiteral? := rfl

@[simp]
theorem isTag_movedDown_iff : (t.movedDown m).IsTag name ↔ t.IsTag name :=
  ⟨fun h => ⟨h.kind, h.word, h.ne_nil⟩, fun h => ⟨h.kind, h.word, h.ne_nil⟩⟩

end movedDown

/-- Only the last token of the first text can be joined. -/
theorem join_concat (ts : List Token) (t : Token) (us : List Token) :
    join (ts ++ [t]) us = ts ++ joinFirst t us := by
  induction ts with
  | nil => rfl
  | cons u ts ih =>
    rw [List.cons_append, join_cons_of_ne_nil (by simp), ih]
    rfl

theorem joinFirst_cases (t : Token) (us : List Token) :
    joinFirst t us = t :: us ∨
      ∃ u us', us = u :: us' ∧ t.kind = .text ∧ u.kind = .text ∧ u.unclosed? = none ∧
        joinFirst t us = { t with raw := t.raw ++ u.raw } :: us' := by
  cases us with
  | nil => exact .inl rfl
  | cons u us =>
    by_cases h : t.kind = .text ∧ u.kind = .text ∧ u.unclosed? = none
    · obtain ⟨ht, hu, hplain⟩ := h
      exact .inr ⟨u, us, rfl, ht, hu, hplain, if_pos ⟨ht, hu, hplain⟩⟩
    · exact .inl (if_neg h)

end Token

/-- The error for the same fault `m` lines further down. -/
def ParseError.movedDown (m : Nat) : ParseError → ParseError
  | .unterminatedBlock line expected => .unterminatedBlock (line + m) expected
  | .delimiterInLiteral line literal => .delimiterInLiteral (line + m) literal
  | .outputBetweenEntries line => .outputBetweenEntries (line + m)
  | .unclosedUnit line kind => .unclosedUnit (line + m) kind

section movedDown

variable {ts lead rest : List Token} {names expected : List Text} {comment : Option Text}
  {close : Text} {w : Wording} {m : Nat}

@[simp]
theorem tagFree_map_movedDown_iff :
    TagFree names (ts.map (Token.movedDown m)) ↔ TagFree names ts := by
  simp [TagFree]

@[simp]
theorem blockText_map_movedDown (ts : List Token) (m : Nat) :
    blockText (ts.map (Token.movedDown m)) = blockText ts := by
  simp [blockText, List.flatMap_map]

@[simp]
theorem startsWithComment_map_movedDown_iff :
    StartsWithComment (ts.map (Token.movedDown m)) ↔ StartsWithComment ts := by
  induction ts with
  | nil => rfl
  | cons t ts ih => simp [startsWithComment_cons_iff, ih]

theorem LeadsBlock.movedDown (h : LeadsBlock comment lead rest) (m : Nat) :
    LeadsBlock comment (lead.map (Token.movedDown m)) (rest.map (Token.movedDown m)) := by
  cases h with
  | @comment blank _ t hblank ht =>
    rw [List.map_append, List.map_singleton, ← Token.body_movedDown (m := m)]
    exact .comment (by simpa using hblank) ht
  | none hrest => exact .none (by simpa using hrest)

theorem SpellsWording.movedDown (h : SpellsWording close w ts) (m : Nat) :
    SpellsWording close w (ts.map (Token.movedDown m)) := by
  cases h with
  | @singular body t hbody ht =>
    rw [List.map_append, List.map_singleton, ← blockText_map_movedDown _ m]
    exact .singular (by simpa using hbody) (by simpa using ht)
  | @plural body body' t t' hbody ht hbody' ht' =>
    rw [List.map_append, List.map_cons, List.map_append, List.map_singleton,
      ← blockText_map_movedDown body m, ← blockText_map_movedDown body' m]
    exact .plural (by simpa using hbody) (by simpa using ht) (by simpa using hbody')
      (by simpa using ht')

theorem CutsWording.movedDown (h : CutsWording close expected ts) (m : Nat) :
    CutsWording close expected (ts.map (Token.movedDown m)) := by
  cases h with
  | singular hbody => exact .singular (by simpa using hbody)
  | plural hbody ht hbody' =>
    rw [List.map_append, List.map_cons]
    exact .plural (by simpa using hbody) (by simpa using ht) (by simpa using hbody')

end movedDown

namespace LocaleEntry

variable {sourceTag : Text} {t : Token} {ts : List Token} {texts expected : List Text}
  {e : LocaleEntry} {es : List LocaleEntry} {cause : ParseError}

section movedDown

theorem SpellsVariants.movedDown (h : SpellsVariants sourceTag texts ts) (m : Nat) :
    SpellsVariants sourceTag texts (ts.map (Token.movedDown m)) := by
  induction h with
  | last hbody ht =>
    rw [List.map_append, List.map_singleton, ← blockText_map_movedDown _ m]
    exact .last (by simpa using hbody) (by simpa using ht)
  | more hbody ht _ ih =>
    rw [List.map_append, List.map_cons, ← blockText_map_movedDown _ m]
    exact .more (by simpa using hbody) (by simpa using ht) ih

theorem SpellsEntry.movedDown (h : SpellsEntry sourceTag e ts) (m : Nat) :
    SpellsEntry sourceTag e (ts.map (Token.movedDown m)) := by
  cases h with
  | mk hopening hlead hvs hwords =>
    have hlead' := hlead.movedDown m
    rw [List.map_append] at hlead'
    rw [List.map_cons, List.map_append, List.map_append, ← Token.arguments_movedDown (m := m)]
    exact .mk (by simpa using hopening) hlead' (hvs.movedDown m) (hwords.movedDown m)

theorem CutsEntry.movedDown (h : CutsEntry sourceTag expected ts) (m : Nat) :
    CutsEntry sourceTag expected (ts.map (Token.movedDown m)) := by
  cases h with
  | variants hts => exact .variants (by simpa using hts)
  | wording hlead hvs hwords =>
    have hlead' := hlead.movedDown m
    rw [List.map_append] at hlead'
    rw [List.map_append, List.map_append]
    exact .wording hlead' (hvs.movedDown m) (hwords.movedDown m)

theorem IsJunk.movedDown (h : IsJunk t) (m : Nat) : IsJunk (t.movedDown m) :=
  ⟨by simpa using h.not_isTag, h.inlineLiteral?, h.unclosed?⟩

theorem SpellsFile.movedDown (h : SpellsFile sourceTag es ts) (m : Nat) :
    SpellsFile sourceTag es (ts.map (Token.movedDown m)) := by
  induction h with
  | nil => exact .nil
  | junk ht _ ih => exact .junk (ht.movedDown m) ih
  | entry he _ ih =>
    rw [List.map_append]
    exact .entry (he.movedDown m) ih

theorem FirstViolation.movedDown (h : FirstViolation sourceTag cause ts) (m : Nat) :
    FirstViolation sourceTag (cause.movedDown m) (ts.map (Token.movedDown m)) := by
  cases h with
  | @output _ _ _ t hbefore ht =>
    rw [List.map_append, List.map_cons]
    exact .output (t := t.movedDown m) (hbefore.movedDown m) ht
  | @unclosedUnit _ _ _ t _ hbefore ht =>
    rw [List.map_append, List.map_cons]
    exact .unclosedUnit (t := t.movedDown m) (hbefore.movedDown m) ht
  | @unclosedEntry _ _ _ t _ hbefore ht hafter =>
    rw [List.map_append, List.map_cons]
    exact .unclosedEntry (t := t.movedDown m) (hbefore.movedDown m) (by simpa using ht)
      (hafter.movedDown m)

/-- The lines of the tokens are in the errors only. -/
theorem readAll_map_movedDown (hne : sourceTag ≠ TagName.msg) (ts : List Token) (m : Nat) :
    readAll sourceTag (ts.map (Token.movedDown m)) =
      (readAll sourceTag ts).mapError (ParseError.movedDown m) := by
  cases hread : readAll sourceTag ts with
  | ok es =>
    exact (readAll_eq_ok_iff hne).2 (((readAll_eq_ok_iff hne).1 hread).movedDown m)
  | error cause =>
    exact (readAll_eq_error_iff hne).2 (((readAll_eq_error_iff hne).1 hread).movedDown m)

end movedDown

section join

/-- Text is junk unless a unit starts in it. -/
theorem isJunk_iff_unclosed? (hkind : t.kind = .text) : IsJunk t ↔ t.unclosed? = none := by
  constructor
  · exact fun h => h.unclosed?
  · intro h
    refine ⟨?_, by simp [Token.inlineLiteral?, hkind], h⟩
    intro htag
    cases hkind.symm.trans htag.kind

theorem isJunk_iff_opened? (hkind : t.kind = .text) : IsJunk t ↔ opened? t.raw = none := by
  rw [isJunk_iff_unclosed? hkind]
  obtain ⟨kind, raw, line⟩ := t
  obtain rfl : kind = .text := hkind
  exact Token.unclosed?_of_text line

/-- Plain text that is joined to plain text is junk, unless a brace at the seam makes an opener. -/
theorem IsJunk.append {u : Token} (ht : IsJunk t) (hu : IsJunk u) (hkind : t.kind = .text)
    (hkind' : u.kind = .text) (hbrace : t.raw.getLast? ≠ some '{') :
    IsJunk { t with raw := t.raw ++ u.raw } := by
  rw [isJunk_iff_opened? hkind] at ht
  rw [isJunk_iff_opened? hkind'] at hu
  refine (isJunk_iff_opened? (t := { t with raw := t.raw ++ u.raw }) hkind).2 ?_
  show opened? (t.raw ++ u.raw) = none
  cases hraw : t.raw with
  | nil => exact hu
  | cons c run =>
    rw [hraw] at ht hbrace
    apply opened?_append_eq_none ht
    rintro rfl
    exact opened?_of_ne (by simpa using hbrace) _

/-- What stands behind a file is read on its own, even when it is joined to the file. -/
theorem SpellsFile.readAll_join (hne : sourceTag ≠ TagName.msg) (h : SpellsFile sourceTag es ts)
    (hbrace : (ts.flatMap Token.raw).getLast? ≠ some '{') (us : List Token) :
    readAll sourceTag (Token.join ts us) = (readAll sourceTag us).map (es ++ ·) := by
  obtain rfl | ⟨before, t, rfl⟩ := List.eq_nil_or_concat ts
  · exact h.readAll_append hne us
  · rw [List.concat_eq_append] at h hbrace ⊢
    rw [Token.join_concat]
    obtain hcons | ⟨u, us, rfl, ht, hu, hplain, hcons⟩ := Token.joinFirst_cases t us
    · rw [hcons, List.append_cons]
      exact h.readAll_append hne us
    · have hjunk' : IsJunk u := (isJunk_iff_unclosed? hu).2 hplain
      -- the joined token is junk, as are the two that it was made of
      obtain htag | ⟨hjunk, hbefore⟩ := h.of_concat
      · cases ht.symm.trans htag
      · have hbrace' : t.raw.getLast? ≠ some '{' := by
          intro hlast
          apply hbrace
          simp [List.getLast?_append, hlast]
        rw [hcons, hbefore.readAll_append hne,
          readAll_cons_of_isJunk (hjunk.append hjunk' ht hu hbrace'),
          readAll_cons_of_isJunk hjunk']

/-- The entries of a text behind a file come behind those of the file. -/
theorem readAll_scan_append (hne : sourceTag ≠ TagName.msg) {a : Text}
    (hread : readAll sourceTag (scan a) = .ok es) (hbrace : a.getLast? ≠ some '{') (b : Text) :
    readAll sourceTag (scan (a ++ b)) =
      ((readAll sourceTag (scan b)).mapError (ParseError.movedDown (Text.newlines a))).map
        (es ++ ·) := by
  have hfile := (readAll_eq_ok_iff hne).1 hread
  have hseam : a.getLast? = some '{' → opened? ('{' :: b) = none := fun hlast =>
    absurd hlast hbrace
  have hscan : scan (a ++ b) =
      Token.join (scan a) ((scan b).map (Token.movedDown (Text.newlines a))) := by
    have hjoin := scanFrom_append (fun _ => hfile.unclosed?_eq_none) hseam
    rwa [scanFrom_add] at hjoin
  have hlast : ((scan a).flatMap Token.raw).getLast? ≠ some '{' := by
    rwa [scan, flatMap_raw_scanFrom]
  rw [hscan, hfile.readAll_join hne hlast, readAll_map_movedDown hne]

end join

theorem appendVariants_assoc (e f g : LocaleEntry) :
    (e.appendVariants f).appendVariants g = e.appendVariants (f.appendVariants g) := by
  simp [appendVariants]

end LocaleEntry

namespace LocaleCatalogue

open LocaleEntry (key_appendVariants appendVariants_assoc)

/-- The catalogue `c` with the entries of `d` merged into it, one after the other. -/
def mergedWith (c d : LocaleCatalogue) : LocaleCatalogue :=
  d.entries.foldl (fun c e => (c.insertOrMerge LocaleEntry.appendVariants e).1) c

section mergedWith

variable {c d : LocaleCatalogue}

theorem keys_mergedWith (hc : c.Lawful) (hd : d.Lawful) :
    (c.mergedWith d).keys = c.keys ++ d.keys.removeAll c.keys :=
  hc.keys_foldl_entries key_appendVariants hd

theorem get?_mergedWith (hc : c.Lawful) (hd : d.Lawful) (key : Text) :
    (c.mergedWith d).get? key =
      Option.merge LocaleEntry.appendVariants (c.get? key) (d.get? key) := by
  rw [mergedWith, hc.get?_foldl_entries key_appendVariants hd appendVariants_assoc]
  cases c.get? key <;> cases d.get? key <;> rfl

/-- Entries can be gathered in two parts. -/
theorem collect_mergedWith (es fs : List LocaleEntry) :
    mergedWith (Catalogue.collect LocaleEntry.appendVariants es)
        (Catalogue.collect LocaleEntry.appendVariants fs) =
      Catalogue.collect LocaleEntry.appendVariants (es ++ fs) := by
  have hlawful := Catalogue.lawful_collect key_appendVariants es
  rw [mergedWith, hlawful.foldl_entries_collect key_appendVariants appendVariants_assoc]
  exact List.foldl_append.symm

end mergedWith

/-- Two texts of which the first is read as a catalogue `c` and does not end in a brace: the whole
is read as `c` with what is read from the second merged into it. New keys come behind those of `c`,
and under a key that `c` knows only variants are added. The whole is refused when the second text
is, with the same error at the line where it is in the whole. -/
theorem parse_append {sourceTag : Text} (htag : IsReadable sourceTag) {a b : Text}
    {c : LocaleCatalogue} (hparse : parse sourceTag a = .ok c) (hbrace : a.getLast? ≠ some '{') :
    (∀ d, parse sourceTag b = .ok d →
      parse sourceTag (a ++ b) = .ok (c.mergedWith d) ∧
      (c.mergedWith d).keys = c.keys ++ d.keys.removeAll c.keys ∧
      ∀ key, (c.mergedWith d).get? key =
        Option.merge LocaleEntry.appendVariants (c.get? key) (d.get? key)) ∧
    ∀ cause, parse sourceTag b = .error cause →
      parse sourceTag (a ++ b) = .error (cause.movedDown (Text.newlines a)) := by
  obtain ⟨es, hread, rfl⟩ := of_map_eq_ok hparse
  have hboth := LocaleEntry.readAll_scan_append htag.ne_msg hread hbrace b
  have hc := Catalogue.lawful_collect key_appendVariants es
  constructor
  · intro d hparse'
    obtain ⟨fs, hread', rfl⟩ := of_map_eq_ok hparse'
    have hd := Catalogue.lawful_collect key_appendVariants fs
    rw [hread'] at hboth
    refine ⟨?_, keys_mergedWith hc hd, get?_mergedWith hc hd⟩
    rw [collect_mergedWith]
    exact parse_of_readAll hboth
  · intro cause hparse'
    rw [parse_eq_error_iff.1 hparse'] at hboth
    exact parse_eq_error_iff.2 hboth

/-- A key that both texts have and one that is new; and a second text that ends inside a tag. -/
theorem parse_append_known_and_new :
    ∃ both, parse "en".toList
        ("\x7b% msg %\x7done\x7b% en %\x7dk\x7b% endmsg %\x7d\nx".toList ++
          ("y\x7b% msg %\x7dtwo\x7b% en %\x7dk\x7b% endmsg %\x7d" ++
            "\x7b% msg %\x7d\x7b% en %\x7dj\x7b% endmsg %\x7d").toList) =
        .ok both ∧
      both.entries = [.bare "k".toList ["one".toList, "two".toList], .bare "j".toList []] ∧
      parse "en".toList
        ("\x7b% msg %\x7done\x7b% en %\x7dk\x7b% endmsg %\x7d\nx".toList ++ "y\n\x7b%".toList) =
        .error (.unclosedUnit 3 .tag) := by
  have hparse : parse "en".toList "\x7b% msg %\x7done\x7b% en %\x7dk\x7b% endmsg %\x7d\nx".toList =
      .ok (Catalogue.collect LocaleEntry.appendVariants [.bare "k".toList ["one".toList]]) :=
    parse_of_readAll (by decide +kernel)
  have hparse' : parse "en".toList
      ("y\x7b% msg %\x7dtwo\x7b% en %\x7dk\x7b% endmsg %\x7d" ++
        "\x7b% msg %\x7d\x7b% en %\x7dj\x7b% endmsg %\x7d").toList =
      .ok (Catalogue.collect LocaleEntry.appendVariants
        [.bare "k".toList ["two".toList], .bare "j".toList []]) :=
    parse_of_readAll (by decide +kernel)
  have hfails : parse "en".toList "y\n\x7b%".toList = .error (.unclosedUnit 2 .tag) :=
    parse_eq_error_iff.2 (by decide +kernel)
  obtain ⟨hboth, -, -⟩ := (parse_append isReadable_en hparse (by decide)).1 _ hparse'
  refine ⟨_, hboth, by decide +kernel, ?_⟩
  exact (parse_append isReadable_en hparse (by decide)).2 _ hfails

end LocaleCatalogue

end CatalogueSync
