import CatalogueSync.Config.Basic
import CatalogueSync.Proofs.Catalogue.Normalisation

/-!
# The tag of the source language

The check of a configuration (`Config.error?`) lets no character into the name of the source
language that would end its tag, but it lets quotes through. A name whose quotes open and close
literals makes a tag that is one token in front of any text, and catalogues written with it are
read back. A name that leaves a literal open (`Tag.LeavesOpen`) makes a tag without an end: it
takes the rest of the file, while the same name with one more quote behind it can be read. So the
quotes decide, and nothing else does (`Config.closesLiterals_iff_of_error?`).
-/

set_option autoImplicit false

namespace CatalogueSync

namespace Tag

variable {name : Text}

/-- A name whose quotes are closed makes a tag of its own. -/
theorem isName_of_closesLiterals (hne : name ≠ [])
    (hchars : ∀ c ∈ name, Text.isSpace c = false ∧ c ≠ '%') (hclosed : Text.ClosesLiterals name) :
    IsName name := by
  refine ⟨?_, hne, fun c hc => (hchars c hc).1⟩
  have hname : IsInert name := .of_closesLiterals hclosed fun c hc => (hchars c hc).2
  have hargs : writeArguments [] = [] := rfl
  rw [write_eq, hargs, List.append_nil]
  exact ((IsInert.space.append hname).append IsInert.space).isComplete

theorem newlines_write (hchars : ∀ c ∈ name, Text.isSpace c = false) :
    Text.newlines (write name []) = 0 := by
  have hname : '\n' ∉ name := by
    intro hmem
    exact absurd (hchars _ hmem) (by decide)
  rw [Text.newlines, List.count_eq_zero]
  simp [write, UnitKind.opener, UnitKind.closer, UnitKind.openMark, UnitKind.closeMark, hname]

/-- A name that leaves a literal between quotes `q` open, even when a space follows it. -/
structure LeavesOpen (q : Char) (name : Text) : Prop where
  isQuote : Text.isQuote q = true
  exists_open : ∃ before body, name = before ++ q :: body ∧ IsInert before ∧
    Text.LiteralBody q (body ++ [' '])

theorem exists_leavesOpen (hchars : ∀ c ∈ name, c ≠ '%') (hopen : ¬Text.ClosesLiterals name) :
    ∃ q, LeavesOpen q name := by
  obtain hclosed | ⟨before, q, body, rfl, hbefore, hq, hbody⟩ :=
    Text.closesLiterals_or_exists_open name
  · exact absurd hclosed hopen
  · have hinert : IsInert before :=
      .of_closesLiterals hbefore fun c hc => hchars c (List.mem_append_left _ hc)
    exact ⟨q, hq, before, body, rfl, hinert, hbody⟩

namespace LeavesOpen

variable {q : Char}

/-- The tag is not closed by text without a quote and without a backslash. -/
theorem splitUnit_eq_none (h : LeavesOpen q name) {rest : Text}
    (hrest : ∀ c ∈ rest, c ≠ '\\' ∧ c ≠ q) :
    splitUnit .tag none (' ' :: name ++ ' ' :: rest) = none := by
  obtain ⟨hq, before, body, rfl, hbefore, hbody⟩ := h
  have hinside : Text.LiteralBody q (body ++ [' '] ++ rest) := hbody.append (.of_forall hrest)
  have hassoc : ' ' :: (before ++ q :: body) ++ ' ' :: rest =
      [' '] ++ before ++ q :: (body ++ [' '] ++ rest) := by simp
  rw [hassoc, IsInert.space.append hbefore, splitUnit_quote rfl hq,
    splitUnit_eq_none_of_literalBody hinside]
  rfl

/-- Such a tag takes the text behind it and becomes plain text. -/
theorem scanFrom_write_append (h : LeavesOpen q name) {rest : Text}
    (hrest : ∀ c ∈ rest, c ≠ '\\' ∧ Text.isQuote c = false) (n : Nat) :
    scanFrom n (write name [] ++ rest) = [⟨.text, write name [] ++ rest, n⟩] := by
  have hnone :
      splitUnit .tag none (' ' :: name ++ ' ' :: (UnitKind.tag.closer ++ rest)) = none := by
    apply h.splitUnit_eq_none
    have hcloser : ∀ c ∈ UnitKind.tag.closer, c ≠ '\\' ∧ Text.isQuote c = false :=
      Text.forall_mem_of_all (by decide)
    intro c hc
    have hplain : c ≠ '\\' ∧ Text.isQuote c = false :=
      (List.mem_append.1 hc).elim (hcloser c) (hrest c)
    refine ⟨hplain.1, ?_⟩
    rintro rfl
    rw [h.isQuote] at hplain
    exact Bool.noConfusion hplain.2
  have htext : write name [] ++ rest =
      UnitKind.tag.opener ++ (' ' :: name ++ ' ' :: (UnitKind.tag.closer ++ rest)) := by
    simp [write]
  rw [htext, scanFrom_of_unclosed hnone]

/-- The tag with the quote as its argument: the quote closes the literal. -/
def closedTag (q : Char) (name : Text) : Text :=
  UnitKind.tag.opener ++ (' ' :: name ++ [' ', q, ' ']) ++ UnitKind.tag.closer

theorem isComplete_closedTag (h : LeavesOpen q name) :
    UnitKind.tag.IsComplete (closedTag q name) := by
  obtain ⟨hq, before, body, rfl, hbefore, hbody⟩ := h
  have hliteral : IsInert (q :: (body ++ [' '] ++ [q])) := .literal hq hbody
  have hinside := ((IsInert.space.append hbefore).append hliteral).append IsInert.space
  have hassoc : ' ' :: (before ++ q :: body) ++ [' ', q, ' '] =
      [' '] ++ before ++ q :: (body ++ [' '] ++ [q]) ++ [' '] := by simp
  rw [closedTag, hassoc]
  exact hinside.isComplete

theorem tag?_closedTag (hq : Text.isQuote q = true) (hne : name ≠ [])
    (hchars : ∀ c ∈ name, Text.isSpace c = false) {names : List Text} (hmem : name ∈ names)
    (n : Nat) :
    ∃ arguments, Token.tag? names ⟨.unit .tag, closedTag q name, n⟩ =
      some ⟨name, arguments, n⟩ := by
  have hspace : Text.isBlank [' '] = true := by decide
  have hquote := Text.isSpace_of_isQuote hq
  have htrim : Text.trim (name ++ [' ', q]) = name ++ [' ', q] := by
    rw [Text.trim_eq_self_iff, Text.trimStart_eq_self_iff, Text.trimEnd_eq_self_iff]
    constructor
    · rw [List.head?_append_of_ne_nil _ hne]
      exact fun c hc => hchars c (List.mem_of_mem_head? hc)
    · simpa using hquote
  have hbody : Token.body ⟨.unit .tag, closedTag q name, n⟩ = name ++ [' ', q] := by
    have hsurround := Text.trim_surround hspace hspace (name ++ [' ', q])
    rw [closedTag, Token.body_of_unit, ← htrim, ← hsurround]
    simp
  have hsplit : splitWord (name ++ [' ', q]) = (name, [' ', q]) :=
    splitWord_append hchars (by simp; decide)
  refine ⟨readArguments [' ', q], ?_⟩
  simp only [Token.tag?, if_true, hbody, hsplit]
  simp [hne, hmem]

end LeavesOpen

end Tag

namespace LocaleCatalogue

variable {name : Text} {q : Char}

/-- A catalogue file with one entry, whose variants are ended by the tag of the source language
with a quote as its argument. -/
def closedText (q : Char) (name : Text) : Text :=
  Tag.write TagName.msg [] ++ (Tag.LeavesOpen.closedTag q name ++ Tag.write TagName.endmsg [])

/-- The catalogue with nothing but an entry for the empty key. -/
def blank : LocaleCatalogue :=
  Catalogue.collect LocaleEntry.appendVariants [LocaleEntry.bare [] []]

theorem tag?_opening :
    Token.tag? [TagName.msg] ⟨.unit .tag, Tag.write TagName.msg [], 1⟩ =
      some ⟨TagName.msg, [], 1⟩ :=
  Tag.isWord_msg.isName.tag?_write (List.mem_singleton_self _) 1

theorem scan_closedText (h : Tag.LeavesOpen q name) :
    ∃ k m, scan (closedText q name) =
      [⟨.unit .tag, Tag.write TagName.msg [], 1⟩,
        ⟨.unit .tag, Tag.LeavesOpen.closedTag q name, k⟩,
        ⟨.unit .tag, Tag.write TagName.endmsg [], m⟩] := by
  have hmsg := Tag.isWord_msg.isName.isComplete
  have hendmsg := Tag.isWord_endmsg.isName.isComplete
  have hlast := fun m => scanFrom_append_of_isComplete hendmsg m []
  simp only [List.append_nil, scanFrom_nil] at hlast
  rw [scan, closedText, scanFrom_append_of_isComplete hmsg,
    scanFrom_append_of_isComplete h.isComplete_closedTag, hlast]
  exact ⟨_, _, rfl⟩

/-- The tag with the quote ends the variants, of which there are none, and the entry is over. -/
theorem read_closedTag (h : Tag.LeavesOpen q name) (hne : name ≠ [])
    (hchars : ∀ c ∈ name, Text.isSpace c = false) (k m : Nat) :
    LocaleEntry.read name ⟨TagName.msg, [], 1⟩
        [⟨.unit .tag, Tag.LeavesOpen.closedTag q name, k⟩,
          ⟨.unit .tag, Tag.write TagName.endmsg [], m⟩] =
      .ok (LocaleEntry.bare [] [], []) := by
  have hmem : name ∈ [TagName.msg, name] := by simp
  obtain ⟨arguments, htag⟩ := Tag.LeavesOpen.tag?_closedTag h.isQuote hne hchars hmem k
  have hvariants : readBlock [TagName.msg, name] 1
      [⟨.unit .tag, Tag.LeavesOpen.closedTag q name, k⟩,
        ⟨.unit .tag, Tag.write TagName.endmsg [], m⟩] =
      .ok (⟨[], ⟨name, arguments, k⟩⟩, [⟨.unit .tag, Tag.write TagName.endmsg [], m⟩]) := by
    rw [readBlock, splitBlock, htag]
    rfl
  have hwording : readBlock [TagName.plural, TagName.endmsg] 1
      [⟨.unit .tag, Tag.write TagName.endmsg [], m⟩] =
      .ok (⟨[], ⟨TagName.endmsg, [], m⟩⟩, []) := by
    rw [readBlock, splitBlock, Tag.isWord_endmsg.isName.tag?_write (by simp) m]
    rfl
  have hplural : TagName.endmsg ≠ TagName.plural := by decide
  simp only [LocaleEntry.read, takeComment, List.dropWhile_cons, Token.isBlank]
  simp [LocaleEntry.readVariants_of_readBlock hvariants, readWording, hwording, hplural,
    LocaleEntry.bare]

theorem parse_closedText (h : Tag.LeavesOpen q name) (hne : name ≠ [])
    (hchars : ∀ c ∈ name, Text.isSpace c = false) : parse name (closedText q name) = .ok blank := by
  obtain ⟨k, m, hscan⟩ := scan_closedText h
  rw [parse, hscan, LocaleEntry.readAll_cons_of_tag? tag?_opening, read_closedTag h hne hchars]
  simp [LocaleEntry.readAll, Except.bind, Except.map, blank]

/-- The file of that catalogue is one tag, and then text to its end. -/
theorem scan_print_blank (h : Tag.LeavesOpen q name) :
    ∃ ts, scan (print name blank) = ⟨.unit .tag, Tag.write TagName.msg [], 1⟩ :: ts ∧
      ∀ t ∈ ts, t.kind = .text := by
  let lines := "\n\n".toList ++ Tag.write TagName.endmsg [] ++ ['\n']
  have hplain : ∀ c ∈ lines, c ≠ '\\' ∧ Text.isQuote c = false :=
    Text.forall_mem_of_all (by decide +kernel)
  have hprint : print name blank =
      Tag.write TagName.msg [] ++ (['\n'] ++ (Tag.write name [] ++ lines)) := by
    have hentries : blank.entries = [LocaleEntry.bare [] []] := by decide +kernel
    simp [print, hentries, LocaleEntry.print_eq, LocaleEntry.bare, LocaleEntry.printComment,
      LocaleEntry.printVariants, LocaleEntry.printPlural, lines]
  have hends : EndsRun (Tag.write name [] ++ lines) := by
    right
    simp [Tag.write, List.append_assoc]
  have hnewline : PlainBefore (Tag.write name [] ++ lines) ['\n'] :=
    .cons (opened?_of_ne (by decide) _) .nil
  rw [hprint, scan, scanFrom_append_of_isComplete Tag.isWord_msg.isName.isComplete,
    scanFrom_append_of_plainBefore hnewline hends, h.scanFrom_write_append hplain]
  exact ⟨_, rfl, by simp⟩

theorem parse_print_blank (h : Tag.LeavesOpen q name) :
    parse name (print name blank) = .error (.unterminatedBlock 1 [TagName.msg, name]) := by
  obtain ⟨ts, hscan, htext⟩ := scan_print_blank h
  have hblock : readBlock [TagName.msg, name] 1 ts =
      .error (.unterminatedBlock 1 [TagName.msg, name]) := by
    rw [readBlock, splitBlock_eq_none_of_text htext]
  have hvariants : LocaleEntry.readVariants name 1 ts =
      .error (.unterminatedBlock 1 [TagName.msg, name]) := by
    rw [LocaleEntry.readVariants]
    split
    · rename_i e he
      rw [hblock] at he
      obtain rfl := Except.error.inj he
      rfl
    · rename_i b rest hb
      rw [hblock] at hb
      cases hb
  rw [parse, hscan, LocaleEntry.readAll_cons_of_tag? tag?_opening, LocaleEntry.read,
    takeComment_eq_none_of_text htext]
  simp only [hvariants]
  rfl

end LocaleCatalogue

namespace Config

variable {c : Config}

/-- What is known of the source language of a configuration that can be used. -/
theorem sourceLanguage_of_error? (h : c.error? = none) :
    c.sourceLanguage ≠ [] ∧ (∀ d ∈ c.sourceLanguage, Text.isSpace d = false ∧ d ≠ '%') ∧
      c.sourceLanguage ∉ TagName.reserved := by
  unfold error? at h
  split at h
  · cases h
  · split at h
    · cases h
    · rename_i hname
      split at h
      · cases h
      · rename_i hreserved
        rw [Bool.not_eq_true, Bool.not_eq_false'] at hname
        simp only [isTagName, Bool.and_eq_true, Bool.not_eq_true', List.all_eq_true,
          bne_iff_ne, ne_eq] at hname
        refine ⟨List.isEmpty_eq_false_iff.1 hname.1, ?_, by simpa using hreserved⟩
        intro d hd
        have hchars := hname.2 d hd
        exact ⟨hchars.1.1.1.1, hchars.1.2⟩

/-- A configuration that can be used has a readable source tag when its quotes are closed. -/
theorem isReadable_of_closesLiterals (haccepted : c.error? = none)
    (hclosed : Text.ClosesLiterals c.sourceLanguage) : IsReadable c.sourceLanguage := by
  obtain ⟨hne, hchars, hreserved⟩ := sourceLanguage_of_error? haccepted
  have hname := Tag.isName_of_closesLiterals hne hchars hclosed
  have hscan := scanFrom_append_of_isComplete hname.isComplete 1 []
  rw [List.append_nil, scanFrom_nil] at hscan
  exact ⟨⟨_, _, hscan, hname.tag?_write (List.mem_singleton_self _) 1, rfl⟩, hreserved⟩

/-- What the check of a configuration says about the tag of its source language: the name is not
reserved, and a token that spells the tag is classified under this name. Whether the spelling is
one token in front of any text, and whether all catalogues that can be read with the tag can be
written with it and read back, is decided by the quotes in the name, which the check lets pass. -/
theorem closesLiterals_iff_of_error? (haccepted : c.error? = none) :
    c.sourceLanguage ∉ TagName.reserved ∧
      (∀ names n, c.sourceLanguage ∈ names →
        Token.tag? names ⟨.unit .tag, Tag.write c.sourceLanguage [], n⟩ =
          some ⟨c.sourceLanguage, [], n⟩) ∧
      (Text.ClosesLiterals c.sourceLanguage ↔ ∀ n rest,
        scanFrom n (Tag.write c.sourceLanguage [] ++ rest) =
          ⟨.unit .tag, Tag.write c.sourceLanguage [], n⟩ :: scanFrom n rest) ∧
      (Text.ClosesLiterals c.sourceLanguage ↔ ∀ s catalogue,
        LocaleCatalogue.parse c.sourceLanguage s = .ok catalogue →
          LocaleCatalogue.parse c.sourceLanguage
            (LocaleCatalogue.print c.sourceLanguage catalogue) = .ok catalogue) := by
  obtain ⟨hne, hchars, hreserved⟩ := sourceLanguage_of_error? haccepted
  have hspaces : ∀ d ∈ c.sourceLanguage, Text.isSpace d = false := fun d hd => (hchars d hd).1
  have hmarks : ∀ d ∈ c.sourceLanguage, d ≠ '%' := fun d hd => (hchars d hd).2
  refine ⟨hreserved, ?_, ⟨?_, ?_⟩, ⟨?_, ?_⟩⟩
  · intro names n hmem
    rw [Tag.tag?_write hne hspaces, if_pos hmem]
  · intro hclosed n rest
    have hname := Tag.isName_of_closesLiterals hne hchars hclosed
    rw [scanFrom_append_of_isComplete hname.isComplete, Tag.newlines_write hspaces, Nat.add_zero]
  · intro hscan
    by_contra hopen
    obtain ⟨q, hq⟩ := Tag.exists_leavesOpen hmarks hopen
    have hnothing : ∀ d ∈ ([] : Text), d ≠ '\\' ∧ Text.isQuote d = false := by simp
    have htext := hq.scanFrom_write_append hnothing 1
    have htoken := hscan 1 []
    rw [htext] at htoken
    simp at htoken
  · intro hclosed s catalogue hparse
    have hreadable := isReadable_of_closesLiterals haccepted hclosed
    exact (LocaleCatalogue.isWritable_of_parse hparse).parse_print hreadable
  · intro hrereads
    by_contra hopen
    obtain ⟨q, hq⟩ := Tag.exists_leavesOpen hmarks hopen
    have hagain := hrereads _ _ (LocaleCatalogue.parse_closedText hq hne hspaces)
    rw [LocaleCatalogue.parse_print_blank hq] at hagain
    cases hagain

/-- An apostrophe that a second one closes does no harm, nor does an escaped one between them. -/
theorem closesLiterals_iff_of_error?_closed :
    ∃ c : Config, c.sourceLanguage = "l'o\\'x\"'y".toList ∧ c.error? = none ∧
      (∀ n rest, scanFrom n (Tag.write c.sourceLanguage [] ++ rest) =
        ⟨.unit .tag, Tag.write c.sourceLanguage [], n⟩ :: scanFrom n rest) ∧
      ∀ s catalogue, LocaleCatalogue.parse c.sourceLanguage s = .ok catalogue →
        LocaleCatalogue.parse c.sourceLanguage
          (LocaleCatalogue.print c.sourceLanguage catalogue) = .ok catalogue := by
  let c : Config := { sourceLanguage := "l'o\\'x\"'y".toList }
  have haccepted : c.error? = none := by decide +kernel
  have hclosed : Text.ClosesLiterals c.sourceLanguage := by
    have hbody : Text.LiteralBody '\'' ['o', '\\', '\'', 'x', '"'] :=
      .plain (by decide) (by decide)
        (.escaped (.of_forall (Text.forall_mem_of_all (by decide))))
    exact .plain rfl (.literal rfl hbody (.plain rfl .nil))
  obtain ⟨-, -, hscan, hreads⟩ := closesLiterals_iff_of_error? haccepted
  exact ⟨c, rfl, haccepted, hscan.1 hclosed, hreads.1 hclosed⟩

/-- A single apostrophe passes the check. The tag is no token, and a file that was read with it
is written as a file that cannot be read. -/
theorem not_protected_from_quotes :
    ∃ c : Config, c.sourceLanguage = "e'n".toList ∧ c.error? = none ∧
      scan (Tag.write c.sourceLanguage []) = [⟨.text, Tag.write c.sourceLanguage [], 1⟩] ∧
      ∃ catalogue, LocaleCatalogue.parse c.sourceLanguage
          "\x7b% msg %\x7dx\x7b% e'n ' %\x7da\x7b% endmsg %\x7d".toList = .ok catalogue ∧
        LocaleCatalogue.parse c.sourceLanguage
            (LocaleCatalogue.print c.sourceLanguage catalogue) =
          .error (.unterminatedBlock 1 [TagName.msg, c.sourceLanguage]) := by
  have hread : LocaleEntry.readAll "e'n".toList
      (scan "\x7b% msg %\x7dx\x7b% e'n ' %\x7da\x7b% endmsg %\x7d".toList) =
        .ok [LocaleEntry.bare ['a'] [['x']]] := by
    decide +kernel
  have hagain : LocaleEntry.readAll "e'n".toList (scan (LocaleCatalogue.print "e'n".toList
      (Catalogue.collect LocaleEntry.appendVariants [LocaleEntry.bare ['a'] [['x']]]))) =
        .error (.unterminatedBlock 1 [TagName.msg, "e'n".toList]) := by
    decide +kernel
  refine ⟨{ sourceLanguage := "e'n".toList }, rfl, by decide +kernel, by decide +kernel,
    Catalogue.collect LocaleEntry.appendVariants [LocaleEntry.bare ['a'] [['x']]], ?_, ?_⟩
  · exact congrArg (Except.map _) hread
  · exact congrArg (Except.map _) hagain

end Config

end CatalogueSync
