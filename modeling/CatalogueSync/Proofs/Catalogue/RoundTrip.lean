import CatalogueSync.Catalogue.Parser
import CatalogueSync.Catalogue.Printer
import CatalogueSync.Proofs.Block.Comment
import CatalogueSync.Proofs.Block.Contents
import CatalogueSync.Proofs.Catalogue.Index

/-!
# Reading back what is written

An entry is writable (`LocaleEntry.IsWritable`) when each of its texts fits the place where it is
written; the sources may be any texts. A file of writable entries is read back as the same entries
in the same order (`LocaleEntry.readAll_print`), and so a lawful catalogue of writable entries is
read back from its file (`LocaleCatalogue.IsWritable.parse_print`).
-/

set_option autoImplicit false

namespace CatalogueSync

/-- An entry whose texts can be written into a catalogue of the source language named `sourceTag`
so that none of them reaches into its neighbours. -/
structure LocaleEntry.IsWritable (sourceTag : Text) (e : LocaleEntry) : Prop where
  key : FitsBlock [TagName.plural, TagName.endmsg] e.key
  plural : ∀ p ∈ e.plural, FitsBlock [TagName.endmsg] p
  comment : ∀ c ∈ e.comment, FitsComment c
  variants : ∀ v ∈ e.variants, v ≠ [] ∧ FitsBlock [TagName.msg, sourceTag] v

namespace LocaleEntry

variable {sourceTag : Text}

/-- The lines of the variants, with the tags between them. -/
def printVariants (vs : List Text) : Text :=
  List.intercalate (tagLine TagName.msg) (vs.map line)

/-- An entry cut at its tags. -/
theorem print_eq (e : LocaleEntry) :
    print sourceTag e =
      Tag.write TagName.msg e.sources ++ '\n' :: (e.printComment ++ (printVariants e.variants ++
        (Tag.write sourceTag [] ++ '\n' :: (e.key ++ '\n' :: (e.printPlural ++
          (Tag.write TagName.endmsg [] ++ ['\n'])))))) := by
  simp [print, printVariants, line, tagLine]

section takeComment

/-- An entry has a line for a comment, or it has no comment and its first variant does not start
with one. -/
theorem printComment_cases {e : LocaleEntry} (he : e.IsWritable sourceTag) :
    (∃ p, Text.contains UnitKind.comment.closer p = false ∧ commentOf (p ++ [' ']) = e.comment ∧
      e.printComment = line (UnitKind.comment.opener ++ (p ++ [' ']) ++ UnitKind.comment.closer)) ∨
    e.comment = none ∧ e.printComment = [] ∧
      ∀ v ∈ e.variants.head?, ¬UnitKind.comment.opener <+: Text.trimStart v := by
  unfold printComment
  split
  · rename_i c hc
    obtain ⟨hne, htrim, hunclosed⟩ := he.comment c hc
    refine .inl ⟨' ' :: c, ?_, ?_, by simp⟩
    · rw [Text.contains, hunclosed]
      rfl
    · have hspace : Text.isBlank [' '] = true := rfl
      have hcontent : Text.trim (' ' :: c ++ [' ']) = c :=
        (Text.trim_surround hspace hspace c).trans htrim
      rw [commentOf, hcontent, if_neg (by simpa using hne), hc]
  · rename_i hc
    split
    · rename_i first _ hvs
      split
      · exact .inl ⟨[], rfl, hc.symm, by simp⟩
      · rename_i hfirst
        refine .inr ⟨hc, rfl, ?_⟩
        intro v hv
        rw [hvs] at hv
        obtain rfl := Option.some.inj hv
        rwa [← List.isPrefixOf_iff_prefix]
    · rename_i hvs
      refine .inr ⟨hc, rfl, ?_⟩
      simp [hvs]

/-- The opener of a comment stands in front of a longer text only if it stands in front of the
first line of it. -/
theorem comment_opener_prefix_append {v : Text} (hne : v ≠ []) (rest : Text)
    (h : UnitKind.comment.opener <+: v ++ '\n' :: rest) : UnitKind.comment.opener <+: v := by
  match v, hne with
  | [c], _ =>
    have hnewline := (List.cons_prefix_cons.1 (List.cons_prefix_cons.1 h).2).1
    exact absurd hnewline (by decide)
  | c :: d :: v, _ =>
    obtain ⟨hc, h⟩ := List.cons_prefix_cons.1 h
    obtain ⟨hd, -⟩ := List.cons_prefix_cons.1 h
    exact List.cons_prefix_cons.2 ⟨hc, List.cons_prefix_cons.2 ⟨hd, List.nil_prefix⟩⟩

theorem trimStart_newline_append {v : Text} (hne : v ≠ []) (htrim : Text.trim v = v)
    (rest : Text) : Text.trimStart ('\n' :: (v ++ rest)) = v ++ rest := by
  have hstart := Text.trimStart_eq_self_iff.1 (Text.trim_eq_self_iff.1 htrim).1
  rw [← List.singleton_append, Text.trimStart_append_of_isBlank rfl, Text.trimStart_eq_self_iff]
  intro c hc
  rw [List.head?_append_of_ne_nil _ hne] at hc
  exact hstart c hc

/-- The lines of the variants do not start with a comment when the first variant does not. -/
theorem not_opener_prefix_printVariants {vs : List Text}
    (hvs : ∀ v ∈ vs, v ≠ [] ∧ FitsBlock [TagName.msg, sourceTag] v)
    (hfirst : ∀ v ∈ vs.head?, ¬UnitKind.comment.opener <+: Text.trimStart v) (rest : Text) :
    ¬UnitKind.comment.opener <+:
      Text.trimStart ('\n' :: (printVariants vs ++ (Tag.write sourceTag [] ++ rest))) := by
  intro h
  cases vs with
  | nil =>
    simp [printVariants, Tag.write, UnitKind.opener, UnitKind.openMark, Text.trimStart,
      Text.isSpace] at h
  | cons v vs =>
    obtain ⟨hne, hfits⟩ := hvs v List.mem_cons_self
    have hstart := (Text.trim_eq_self_iff.1 hfits.trimmed).1
    have hlines : ∃ more, printVariants (v :: vs) = v ++ '\n' :: more := by
      cases vs with
      | nil => exact ⟨[], by simp [printVariants, line]⟩
      | cons w ws => exact ⟨_, by simp [printVariants, line]; rfl⟩
    obtain ⟨more, hmore⟩ := hlines
    rw [hmore, List.append_assoc, trimStart_newline_append hne hfits.trimmed] at h
    apply hfirst v rfl
    rw [hstart]
    exact comment_opener_prefix_append hne _ h

/-- The comment of an entry is read back, whether or not it has a line, and the lines of the
variants are left. -/
theorem takeComment_printComment {e : LocaleEntry} (he : e.IsWritable sourceTag) (n : Nat)
    (rest : Text) :
    ∃ m, takeComment (scanFrom n ('\n' :: (e.printComment ++ (printVariants e.variants ++
        (Tag.write sourceTag [] ++ rest))))) =
      (e.comment,
        scanFrom m ('\n' :: (printVariants e.variants ++ (Tag.write sourceTag [] ++ rest)))) := by
  obtain ⟨p, hp, hcomment, hprint⟩ | ⟨hcomment, hprint, hfirst⟩ := printComment_cases he
  · obtain ⟨m, hm⟩ := takeComment_scanFrom (w := ['\n']) rfl (UnitKind.isComplete_comment hp) n
      ('\n' :: (printVariants e.variants ++ (Tag.write sourceTag [] ++ rest)))
    refine ⟨m, ?_⟩
    rw [← hcomment, ← hm, hprint]
    simp [line]
  · have hnot := not_opener_prefix_printVariants he.variants hfirst rest
    refine ⟨n, ?_⟩
    rw [hprint, hcomment]
    exact takeComment_scanFrom_of_not_prefix hnot n

end takeComment

section read

/-- A text on lines of its own is read back up to the tag on the next line. -/
theorem readBlock_line {closing : List Text} {s name : Text} (hs : FitsBlock closing s)
    (hname : Tag.IsName name) (hmem : name ∈ closing) (openedAt n : Nat) (rest : Text) :
    ∃ k m, readBlock closing openedAt
        (scanFrom n ('\n' :: (s ++ '\n' :: (Tag.write name [] ++ rest)))) =
      .ok (⟨s, ⟨name, [], k⟩⟩, scanFrom m rest) := by
  have hnewline : Text.isBlank ['\n'] = true := rfl
  have hlines : '\n' :: (s ++ '\n' :: (Tag.write name [] ++ rest)) =
      ['\n'] ++ s ++ ['\n'] ++ (Tag.write name [] ++ rest) := by
    simp
  rw [hlines]
  exact readBlock_of_fitsBlock hs hnewline hnewline (by simp) hname hmem openedAt n rest

/-- A block of variants is one variant, or none if it is empty, and ends with the tag of the source
language or leads to the next one. -/
theorem readVariants_of_readBlock {openedAt : Nat} {ts rest : List Token} {b : Block}
    (h : readBlock [TagName.msg, sourceTag] openedAt ts = .ok (b, rest)) :
    readVariants sourceTag openedAt ts =
      if b.close.name = sourceTag then .ok (if b.text.isEmpty then [] else [b.text], rest)
      else
        (readVariants sourceTag openedAt rest).map fun r =>
          ((if b.text.isEmpty then [] else [b.text]) ++ r.1, r.2) := by
  rw [readVariants]
  split
  · rename_i e he
    rw [h] at he
    cases he
  · rename_i b' rest' hb
    rw [h] at hb
    obtain ⟨rfl, rfl⟩ := Prod.mk.inj (Except.ok.inj hb)
    cases hmore : readVariants sourceTag openedAt rest <;> rfl

/-- The variants are read back up to the tag of the source language. -/
theorem readVariants_printVariants (htag : IsReadable sourceTag) {vs : List Text}
    (hvs : ∀ v ∈ vs, v ≠ [] ∧ FitsBlock [TagName.msg, sourceTag] v) (openedAt n : Nat)
    (rest : Text) :
    ∃ m, readVariants sourceTag openedAt
        (scanFrom n ('\n' :: (printVariants vs ++ (Tag.write sourceTag [] ++ rest)))) =
      .ok (vs, scanFrom m rest) := by
  have hmem : sourceTag ∈ [TagName.msg, sourceTag] := by simp
  induction vs generalizing n with
  | nil =>
    have hnothing : Text.isBlank [] = true := rfl
    have hnewline : Text.isBlank ['\n'] = true := rfl
    obtain ⟨k, m, hread⟩ := readBlock_of_fitsBlock FitsBlock.nil hnothing hnewline (by simp)
      htag.isName hmem openedAt n rest
    refine ⟨m, ?_⟩
    have htext : '\n' :: (printVariants [] ++ (Tag.write sourceTag [] ++ rest)) =
        [] ++ [] ++ ['\n'] ++ (Tag.write sourceTag [] ++ rest) := rfl
    rw [htext, readVariants_of_readBlock hread, if_pos rfl]
    rfl
  | cons v vs ih =>
    obtain ⟨⟨hne, hfits⟩, hvs⟩ := List.forall_mem_cons.1 hvs
    have hfound : (if v.isEmpty then [] else [v]) = [v] := by
      rw [if_neg (by simpa using hne)]
    cases vs with
    | nil =>
      -- the last variant runs to the tag of the source language
      obtain ⟨k, m, hread⟩ := readBlock_line hfits htag.isName hmem openedAt n rest
      refine ⟨m, ?_⟩
      have htext : '\n' :: (printVariants [v] ++ (Tag.write sourceTag [] ++ rest)) =
          '\n' :: (v ++ '\n' :: (Tag.write sourceTag [] ++ rest)) := by
        simp [printVariants, line]
      rw [htext, readVariants_of_readBlock hread, if_pos rfl, hfound]
    | cons v' vs =>
      -- any other variant runs to the tag that leads to the next one
      have hmsg : Tag.IsName TagName.msg := Tag.isWord_msg.isName
      obtain ⟨k, m, hread⟩ := readBlock_line hfits hmsg (by simp) openedAt n
        ('\n' :: (printVariants (v' :: vs) ++ (Tag.write sourceTag [] ++ rest)))
      obtain ⟨m', hmore⟩ := ih hvs m
      refine ⟨m', ?_⟩
      have htext : '\n' :: (printVariants (v :: v' :: vs) ++ (Tag.write sourceTag [] ++ rest)) =
          '\n' :: (v ++ '\n' :: (Tag.write TagName.msg [] ++
            '\n' :: (printVariants (v' :: vs) ++ (Tag.write sourceTag [] ++ rest)))) := by
        simp [printVariants, line, tagLine]
      rw [htext, readVariants_of_readBlock hread, if_neg htag.ne_msg.symm, hfound, hmore]
      rfl

/-- The singular and the plural are read back up to the end of the entry. -/
theorem readWording_print {e : LocaleEntry} (he : e.IsWritable sourceTag) (openedAt n : Nat)
    (rest : Text) :
    ∃ m, readWording TagName.endmsg openedAt (scanFrom n ('\n' :: (e.key ++ '\n' ::
        (e.printPlural ++ (Tag.write TagName.endmsg [] ++ rest))))) =
      .ok (⟨e.key, e.plural⟩, scanFrom m rest) := by
  have hendmsg : Tag.IsName TagName.endmsg := Tag.isWord_endmsg.isName
  cases hplural : e.plural with
  | none =>
    obtain ⟨k, m, hread⟩ := readBlock_line he.key hendmsg (by simp) openedAt n rest
    refine ⟨m, ?_⟩
    have hprint : e.printPlural = [] := by rw [printPlural, hplural]
    have hne : TagName.endmsg ≠ TagName.plural := by decide
    rw [hprint, List.nil_append, readWording, hread]
    simp only [if_neg hne]
  | some p =>
    have hpluralName : Tag.IsName TagName.plural := Tag.isWord_plural.isName
    obtain ⟨k, m, hread⟩ := readBlock_line he.key hpluralName (by simp) openedAt n
      ('\n' :: (p ++ '\n' :: (Tag.write TagName.endmsg [] ++ rest)))
    obtain ⟨k', m', hread'⟩ := readBlock_line (he.plural p hplural) hendmsg (by simp) openedAt m
      rest
    refine ⟨m', ?_⟩
    have hprint : e.printPlural ++ (Tag.write TagName.endmsg [] ++ rest) =
        Tag.write TagName.plural [] ++
          '\n' :: (p ++ '\n' :: (Tag.write TagName.endmsg [] ++ rest)) := by
      simp [printPlural, hplural, line, tagLine]
    rw [hprint, readWording, hread]
    simp only [if_true, hread']

/-- An entry is read back from what follows its first tag. -/
theorem read_print (htag : IsReadable sourceTag) {e : LocaleEntry} (he : e.IsWritable sourceTag)
    (openedAt n : Nat) (rest : Text) :
    ∃ m, read sourceTag ⟨TagName.msg, e.sources, openedAt⟩ (scanFrom n ('\n' ::
        (e.printComment ++ (printVariants e.variants ++ (Tag.write sourceTag [] ++ '\n' ::
          (e.key ++ '\n' :: (e.printPlural ++ (Tag.write TagName.endmsg [] ++ rest)))))))) =
      .ok (e, scanFrom m rest) := by
  obtain ⟨m₁, hcomment⟩ := takeComment_printComment he n _
  obtain ⟨m₂, hvariants⟩ := readVariants_printVariants htag he.variants openedAt m₁ ('\n' ::
    (e.key ++ '\n' :: (e.printPlural ++ (Tag.write TagName.endmsg [] ++ rest))))
  obtain ⟨m₃, hwording⟩ := readWording_print he openedAt m₂ rest
  refine ⟨m₃, ?_⟩
  rw [read, hcomment]
  simp only [hvariants, hwording]

/-- The first tag of an entry has the entry read from what follows it. -/
theorem readAll_cons_of_tag? {t : Token} {opening : Tag}
    (ht : t.tag? [TagName.msg] = some opening) (ts : List Token) :
    readAll sourceTag (t :: ts) =
      (read sourceTag opening ts).bind fun r => (readAll sourceTag r.2).map (r.1 :: ·) := by
  rw [readAll, ht]
  simp only
  split
  · rename_i e he
    rw [he]
    rfl
  · rename_i e rest he
    rw [he]
    rfl

theorem readAll_cons_of_isBlank {t : Token} (ht : t.isBlank = true) (ts : List Token) :
    readAll sourceTag (t :: ts) = readAll sourceTag ts := by
  obtain ⟨kind, raw, n⟩ := t
  simp only [Token.isBlank, Bool.and_eq_true, decide_eq_true_eq] at ht
  obtain ⟨rfl, hraw⟩ := ht
  have hunclosed : Token.unclosed? ⟨.text, raw, n⟩ = none := by
    rw [Token.unclosed?_of_text]
    cases raw with
    | nil => rfl
    | cons c raw =>
      exact opened?_of_ne (Text.ne_openBrace_of_isSpace (Text.isBlank_iff.1 hraw c (by simp))) raw
  have htag : Token.tag? [TagName.msg] ⟨.text, raw, n⟩ = none := by simp [Token.tag?]
  have hliteral : Token.inlineLiteral? ⟨.text, raw, n⟩ = none := by simp [Token.inlineLiteral?]
  rw [readAll, htag, hliteral, hunclosed]
  rfl

/-- Blank text between entries is passed over. -/
theorem readAll_isBlank_append {w rest : Text} (hw : Text.isBlank w = true) (hrest : EndsRun rest)
    (n : Nat) :
    ∃ m, readAll sourceTag (scanFrom n (w ++ rest)) = readAll sourceTag (scanFrom m rest) := by
  obtain ⟨ts, hblank, hscan⟩ := scanFrom_isBlank_append hw hrest n
  refine ⟨n + Text.newlines w, ?_⟩
  rw [hscan]
  clear hscan
  induction ts with
  | nil => rfl
  | cons t ts ih =>
    obtain ⟨ht, hblank⟩ := List.forall_mem_cons.1 hblank
    rw [List.cons_append, readAll_cons_of_isBlank ht, ih hblank]

/-- One entry is read back, and reading goes on behind its last tag. -/
theorem readAll_print_append (htag : IsReadable sourceTag) {e : LocaleEntry}
    (he : e.IsWritable sourceTag) (n : Nat) (rest : Text) :
    ∃ m, readAll sourceTag (scanFrom n (print sourceTag e ++ rest)) =
      (readAll sourceTag (scanFrom m ('\n' :: rest))).map (e :: ·) := by
  have hopening : Token.tag? [TagName.msg] ⟨.unit .tag, Tag.write TagName.msg e.sources, n⟩ =
      some ⟨TagName.msg, e.sources, n⟩ := by
    rw [Tag.tag?_write Tag.isWord_msg.isName.ne_nil Tag.isWord_msg.isName.chars,
      if_pos List.mem_cons_self]
  obtain ⟨m, hread⟩ := read_print htag he n
    (n + Text.newlines (Tag.write TagName.msg e.sources)) ('\n' :: rest)
  refine ⟨m, ?_⟩
  have htext : print sourceTag e ++ rest =
      Tag.write TagName.msg e.sources ++ '\n' :: (e.printComment ++ (printVariants e.variants ++
        (Tag.write sourceTag [] ++ '\n' :: (e.key ++ '\n' :: (e.printPlural ++
          (Tag.write TagName.endmsg [] ++ '\n' :: rest)))))) := by
    simp [print_eq]
  rw [htext, scanFrom_append_of_isComplete (Tag.isComplete_write Tag.isWord_msg _),
    readAll_cons_of_tag? hopening, hread]
  rfl

/-- A file starts with the first tag of its first entry, if it has one. -/
theorem endsRun_print (es : List LocaleEntry) :
    EndsRun (List.intercalate ['\n'] (es.map (print sourceTag))) := by
  cases es with
  | nil => exact .inl rfl
  | cons e es =>
    right
    have hcomplete := Tag.isComplete_write Tag.isWord_msg e.sources
    cases es with
    | nil =>
      rw [List.map_singleton, List.intercalate_singleton, print_eq]
      exact hcomplete.opened?_append_isSome _
    | cons e' es =>
      rw [List.map_cons, List.map_cons, List.intercalate_cons_cons, print_eq, List.append_assoc,
        List.append_assoc]
      exact hcomplete.opened?_append_isSome _

/-- The entries of a file are read back, in order. -/
theorem readAll_print (htag : IsReadable sourceTag) {es : List LocaleEntry}
    (hes : ∀ e ∈ es, e.IsWritable sourceTag) {w : Text} (hw : Text.isBlank w = true) (n : Nat) :
    readAll sourceTag (scanFrom n (w ++ List.intercalate ['\n'] (es.map (print sourceTag)))) =
      .ok es := by
  induction es generalizing w n with
  | nil =>
    obtain ⟨m, hskip⟩ := readAll_isBlank_append hw (endsRun_print []) n
    rw [hskip, List.map_nil, List.intercalate_nil, scanFrom_nil, readAll]
  | cons e es ih =>
    obtain ⟨he, hes⟩ := List.forall_mem_cons.1 hes
    obtain ⟨m, hskip⟩ := readAll_isBlank_append hw (endsRun_print (e :: es)) n
    rw [hskip]
    cases es with
    | nil =>
      obtain ⟨m', hone⟩ := readAll_print_append htag he m []
      have hend := ih hes (w := ['\n']) rfl m'
      rw [List.map_nil, List.intercalate_nil, List.append_nil] at hend
      rw [List.map_singleton, List.intercalate_singleton, ← List.append_nil (print sourceTag e),
        hone, hend]
      rfl
    | cons e' es =>
      obtain ⟨m', hone⟩ := readAll_print_append htag he m
        ('\n' :: List.intercalate ['\n'] ((e' :: es).map (print sourceTag)))
      have hmore := ih hes (w := ['\n', '\n']) rfl m'
      rw [List.cons_append, List.cons_append, List.nil_append] at hmore
      rw [List.map_cons, List.map_cons, List.intercalate_cons_cons, List.append_assoc,
        List.singleton_append, ← List.map_cons, hone, hmore]
      rfl

end read

end LocaleEntry

namespace LocaleCatalogue

/-- A catalogue that survives being written: a lawful one of writable entries. -/
structure IsWritable (sourceTag : Text) (c : LocaleCatalogue) : Prop where
  lawful : c.Lawful
  entries : ∀ e ∈ c.entries, e.IsWritable sourceTag

theorem IsWritable.parse_print {sourceTag : Text} (htag : IsReadable sourceTag)
    {c : LocaleCatalogue} (hc : c.IsWritable sourceTag) :
    parse sourceTag (print sourceTag c) = .ok c := by
  have hread := LocaleEntry.readAll_print htag hc.entries (w := []) rfl 1
  rw [List.nil_append] at hread
  rw [parse, print, scan, hread]
  exact congrArg Except.ok (hc.lawful.collect_entries LocaleEntry.key_appendVariants)

end LocaleCatalogue

end CatalogueSync
