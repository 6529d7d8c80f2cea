import CatalogueSync.Proofs.Text.Trim
import CatalogueSync.Proofs.Token.Closing
import CatalogueSync.Tag

/-!
# The spelling of tags

A tag with any arguments is written as one complete unit (`isComplete_write`), and reading that
unit gives the name and the arguments back (`tag?_write`). Writing, scanning, splitting into
arguments and decoding each look at other characters, and the lemmas follow one argument through
all four.
-/

set_option autoImplicit false

namespace CatalogueSync

namespace Tag

/-- Text that scanning a tag passes over, wherever it stands outside of literals. -/
def IsInert (p : Text) : Prop :=
  ∀ s, splitUnit .tag none (p ++ s) = (splitUnit .tag none s).map fun r => (p ++ r.1, r.2)

namespace IsInert

theorem nil : IsInert [] := by
  intro s
  simp

theorem append {p r : Text} (hp : IsInert p) (hr : IsInert r) : IsInert (p ++ r) := by
  intro s
  rw [List.append_assoc, hp, hr, Option.map_map]
  simp [Function.comp_def, List.append_assoc]

theorem flatMap {α : Type} {f : α → Text} (hf : ∀ a, IsInert (f a)) (l : List α) :
    IsInert (l.flatMap f) := by
  induction l with
  | nil => exact nil
  | cons a l ih => exact (hf a).append ih

theorem of_forall {p : Text} (hp : ∀ c ∈ p, c ≠ '%' ∧ Text.isQuote c = false) : IsInert p :=
  fun s => splitUnit_append_of_plain hp s

theorem space : IsInert [' '] :=
  .of_forall (Text.forall_mem_of_all (by decide))

theorem literal {q : Char} {body : Text} (hq : Text.isQuote q = true)
    (hbody : Text.LiteralBody q body) : IsInert (q :: (body ++ [q])) := by
  intro s
  have hassoc : q :: (body ++ [q]) ++ s = q :: (body ++ q :: s) := by simp
  rw [hassoc, splitUnit_literal rfl hq hbody]
  simp

theorem of_closesLiterals {s : Text} (hs : Text.ClosesLiterals s) (hchars : ∀ c ∈ s, c ≠ '%') :
    IsInert s := by
  induction hs with
  | nil => exact nil
  | @plain c s hc _ ih =>
    obtain ⟨hmark, hchars⟩ := List.forall_mem_cons.1 hchars
    have hfirst : IsInert [c] := of_forall (by simpa using ⟨hmark, hc⟩)
    exact hfirst.append (ih hchars)
  | @literal q body s hq hbody _ ih =>
    have hrest : IsInert s := ih fun c hc => hchars c (by simp [hc])
    have happ := (literal hq hbody).append hrest
    simpa using happ

/-- Inert text between the markers makes a complete unit. -/
theorem isComplete {p : Text} (hp : IsInert p) :
    UnitKind.tag.IsComplete (UnitKind.tag.opener ++ p ++ UnitKind.tag.closer) := by
  refine ⟨p ++ UnitKind.tag.closer, List.append_assoc .., ?_⟩
  have hclose := splitUnit_closer (k := .tag) []
  rw [List.append_nil] at hclose
  rw [hp, hclose]
  rfl

end IsInert

section writeChar

/-- The four hexadecimal digits of a control character are read as that character, and none of
them ends a literal. -/
theorem hexQuad_spec :
    ∀ n < 160, (hexQuad n).length = 4 ∧ Text.hexValue? 0 (hexQuad n) = some n ∧
      ((hexQuad n).all fun c => decide (c ≠ '\\' ∧ c ≠ '"')) = true := by
  decide +kernel

theorem toNat_lt_of_isControl {c : Char} (h : Text.isControl c = true) : c.toNat < 160 := by
  simp only [Text.isControl, Bool.or_eq_true, Bool.and_eq_true, decide_eq_true_eq] at h
  omega

theorem hexChar?_hexQuad {c : Char} (h : Text.isControl c = true) (s : Text) :
    Text.hexChar? 4 (hexQuad c.toNat ++ s) = some c := by
  obtain ⟨hlen, hvalue, -⟩ := hexQuad_spec c.toNat (toNat_lt_of_isControl h)
  have htake : (hexQuad c.toNat ++ s).take 4 = hexQuad c.toNat := by
    rw [← hlen, List.take_left]
  rw [Text.hexChar?, htake, if_pos hlen, hvalue]
  exact Text.charOf?_toNat c

/-- A character is written as an escape of one letter, as a hexadecimal escape or as itself. -/
theorem writeChar_cases (c : Char) :
    (∃ d, Text.simpleEscape? d = some c ∧ writeChar c = ['\\', d]) ∨
      (Text.isControl c = true ∧ writeChar c = '\\' :: 'u' :: hexQuad c.toNat) ∨
      (c ≠ '\\' ∧ c ≠ '"' ∧ writeChar c = [c]) := by
  unfold writeChar
  split
  · rename_i h
    exact .inl ⟨'"', by rw [h]; rfl, rfl⟩
  split
  · rename_i h
    exact .inl ⟨'\\', by rw [h]; rfl, rfl⟩
  split
  · rename_i h
    exact .inl ⟨'n', by rw [h]; rfl, rfl⟩
  split
  · rename_i h
    exact .inl ⟨'t', by rw [h]; rfl, rfl⟩
  split
  · rename_i h
    exact .inl ⟨'r', by rw [h]; rfl, rfl⟩
  split
  · rename_i hcontrol
    exact .inr (.inl ⟨hcontrol, rfl⟩)
  · rename_i hquote hslash _ _ _ _
    exact .inr (.inr ⟨hslash, hquote, rfl⟩)

theorem literalBody_writeChar (c : Char) : Text.LiteralBody '"' (writeChar c) := by
  obtain ⟨d, -, hw⟩ | ⟨hcontrol, hw⟩ | ⟨hslash, hquote, hw⟩ := writeChar_cases c
  · rw [hw]
    exact .escaped .nil
  · obtain ⟨-, -, hdigits⟩ := hexQuad_spec c.toNat (toNat_lt_of_isControl hcontrol)
    rw [hw]
    exact .escaped (.of_forall (Text.forall_mem_of_all hdigits))
  · rw [hw]
    exact .plain hslash hquote .nil

/-- A written character is decoded as itself, whatever follows. -/
theorem decodeFrom_writeChar (c : Char) (s : Text) :
    Text.decodeFrom 0 (writeChar c ++ s) = c :: Text.decodeFrom 0 s := by
  obtain ⟨d, hd, hw⟩ | ⟨hcontrol, hw⟩ | ⟨hslash, -, hw⟩ := writeChar_cases c
  · rw [hw]
    exact Text.decodeFrom_simpleEscape hd s
  · have hchar := hexChar?_hexQuad hcontrol s
    obtain ⟨hlen, -, -⟩ := hexQuad_spec c.toNat (toNat_lt_of_isControl hcontrol)
    have hescape : Text.escape ('u' :: (hexQuad c.toNat ++ s)) = ([c], 1 + 4) := by
      simp [Text.escape, Text.simpleEscape?, Text.hexWidth?, hchar]
    have hskip := Text.decodeFrom_length_append ('u' :: hexQuad c.toNat) s
    rw [List.length_cons, hlen, List.cons_append] at hskip
    rw [hw, List.cons_append, List.cons_append, Text.decodeFrom, if_pos rfl, hescape]
    exact congrArg (c :: ·) hskip
  · rw [hw]
    exact Text.decodeFrom_cons hslash s

end writeChar

section writeArgument

theorem of_isPlainArgument {a : Text} (h : isPlainArgument a = true) :
    a ≠ [] ∧ ∀ c ∈ a, Text.isSpace c = false ∧ Text.isQuote c = false ∧ c ≠ '%' := by
  simp only [isPlainArgument, Bool.and_eq_true, Bool.not_eq_true', List.all_eq_true,
    Bool.or_eq_false_iff] at h
  refine ⟨List.isEmpty_eq_false_iff.1 h.1, ?_⟩
  intro c hc
  obtain ⟨⟨hspace, -⟩, hlist⟩ := h.2 c hc
  simp only [List.contains_eq_mem, List.mem_cons, List.not_mem_nil, or_false, not_or,
    decide_eq_false_iff_not] at hlist
  refine ⟨hspace, ?_, hlist.2.2.2.2.2⟩
  simp [Text.isQuote, hlist.1, hlist.2.1]

theorem isInert_writeArgument (a : Text) : IsInert (writeArgument a) := by
  unfold writeArgument
  split
  · rename_i hplain
    have hchars := (of_isPlainArgument hplain).2
    exact .of_forall fun c hc => ⟨(hchars c hc).2.2, (hchars c hc).2.1⟩
  · exact .literal (by decide) (.flatMap literalBody_writeChar a)

/-- An argument's spelling starts and ends with a character that is not whitespace. -/
theorem writeArgument_ends (a : Text) :
    writeArgument a ≠ [] ∧ (∀ c ∈ (writeArgument a).head?, Text.isSpace c = false) ∧
      ∀ c ∈ (writeArgument a).getLast?, Text.isSpace c = false := by
  unfold writeArgument
  split
  · rename_i hplain
    obtain ⟨hne, hchars⟩ := of_isPlainArgument hplain
    refine ⟨hne, ?_, ?_⟩
    · intro c hc
      exact (hchars c (List.mem_of_mem_head? hc)).1
    · intro c hc
      exact (hchars c (List.mem_of_getLast? hc)).1
  · have hquote : Text.isSpace '"' = false := by decide
    refine ⟨by simp, ?_, ?_⟩
    · simpa using hquote
    · intro c hc
      rw [List.getLast?_concat] at hc
      cases hc
      exact hquote

theorem splitWord_append {w s : Text} (hw : ∀ c ∈ w, Text.isSpace c = false)
    (hs : ∀ c ∈ s.head?, Text.isSpace c = true) : splitWord (w ++ s) = (w, s) := by
  have hall : ∀ c ∈ w, (!Text.isSpace c) = true := by
    intro c hc
    rw [hw c hc]
    rfl
  unfold splitWord
  rw [List.takeWhile_append_of_pos hall, List.dropWhile_append_of_pos hall]
  cases s with
  | nil => simp
  | cons c s =>
    have hc := hs c rfl
    simp [hc]

/-- The first argument is read up to the whitespace after it. -/
theorem splitArgument_writeArgument (a : Text) {s : Text}
    (hs : ∀ c ∈ s.head?, Text.isSpace c = true) :
    splitArgument (writeArgument a ++ s) = (a, s) := by
  unfold writeArgument
  split
  · rename_i hplain
    obtain ⟨hne, hchars⟩ := of_isPlainArgument hplain
    have hquoted : Text.quoted? (a ++ s) = none := by
      cases a with
      | nil => exact absurd rfl hne
      | cons c a =>
        have hc := (hchars c List.mem_cons_self).2.1
        simp [Text.quoted?, hc]
    rw [splitArgument, hquoted]
    exact splitWord_append (fun c hc => (hchars c hc).1) hs
  · have hbody := Text.LiteralBody.flatMap literalBody_writeChar a
    have hsplit := Text.splitClosing_append (by decide) hbody s
    have hquoted : Text.quoted? ('"' :: a.flatMap writeChar ++ ['"'] ++ s) =
        some (a.flatMap writeChar, s) := by
      simpa [Text.quoted?, Text.isQuote] using hsplit
    rw [splitArgument, hquoted]
    exact Prod.ext (Text.decodeEscapes_flatMap decodeFrom_writeChar a) rfl

/-- The spelling of some arguments, each after a space. -/
def writeArguments (as : List Text) : Text :=
  as.flatMap fun a => ' ' :: writeArgument a

theorem readArguments_of_trimStart_eq_nil {s : Text} (h : Text.trimStart s = []) :
    readArguments s = [] := by
  rw [readArguments]
  split
  · rfl
  · rename_i h'
    rw [h] at h'
    simp at h'

theorem readArguments_of_trimStart_ne_nil {s : Text} (h : Text.trimStart s ≠ []) :
    readArguments s = (splitArgument (Text.trimStart s)).1 ::
      readArguments (splitArgument (Text.trimStart s)).2 := by
  conv_lhs => rw [readArguments]
  split
  · rename_i h'
    exact absurd h' h
  · rename_i h'
    rw [h']

theorem writeArguments_head (as : List Text) :
    ∀ c ∈ (writeArguments as).head?, Text.isSpace c = true := by
  cases as with
  | nil => simp [writeArguments]
  | cons a as =>
    intro c hc
    obtain rfl : ' ' = c := by simpa [writeArguments] using hc
    decide

theorem readArguments_writeArguments (as : List Text) :
    readArguments (writeArguments as) = as := by
  induction as with
  | nil => exact readArguments_of_trimStart_eq_nil rfl
  | cons a as ih =>
    obtain ⟨hne, hfirst, -⟩ := writeArgument_ends a
    have hstart : Text.trimStart (writeArguments (a :: as)) =
        writeArgument a ++ writeArguments as := by
      have hspace : Text.isBlank [' '] = true := by decide
      have hself : Text.trimStart (writeArgument a ++ writeArguments as) =
          writeArgument a ++ writeArguments as := by
        rw [Text.trimStart_eq_self_iff, List.head?_append_of_ne_nil _ hne]
        exact hfirst
      rw [← hself]
      exact Text.trimStart_append_of_isBlank hspace (writeArgument a ++ writeArguments as)
    have hne' : Text.trimStart (writeArguments (a :: as)) ≠ [] := by
      rw [hstart]
      exact List.append_ne_nil_of_left_ne_nil hne _
    rw [readArguments_of_trimStart_ne_nil hne', hstart,
      splitArgument_writeArgument a (writeArguments_head as), ih]

/-- What stands after a word that ends without whitespace still ends without whitespace. -/
theorem getLast?_append_writeArguments {w : Text} (hw : ∀ c ∈ w.getLast?, Text.isSpace c = false)
    (as : List Text) : ∀ c ∈ (w ++ writeArguments as).getLast?, Text.isSpace c = false := by
  induction as generalizing w with
  | nil => simpa [writeArguments] using hw
  | cons a as ih =>
    obtain ⟨hne, -, hlast⟩ := writeArgument_ends a
    have hw' : ∀ c ∈ (w ++ ' ' :: writeArgument a).getLast?, Text.isSpace c = false := by
      rw [List.getLast?_append_cons, List.getLast?_cons_of_ne_nil hne]
      exact hlast
    have hassoc : w ++ writeArguments (a :: as) =
        w ++ ' ' :: writeArgument a ++ writeArguments as := by
      simp [writeArguments]
    rw [hassoc]
    exact ih hw'

end writeArgument

section write

/-- A name that is written and read as one word. -/
structure IsWord (name : Text) : Prop where
  ne_nil : name ≠ []
  chars : ∀ c ∈ name, Text.isSpace c = false ∧ Text.isQuote c = false ∧ c ≠ '%'

theorem write_eq (name : Text) (as : List Text) :
    write name as =
      UnitKind.tag.opener ++ (' ' :: name ++ writeArguments as ++ [' ']) ++
        UnitKind.tag.closer := by
  simp [write, writeArguments]

/-- A tag is written as one complete unit, whatever its arguments are. -/
theorem isComplete_write {name : Text} (hname : IsWord name) (as : List Text) :
    UnitKind.tag.IsComplete (write name as) := by
  have hword : IsInert name :=
    .of_forall fun c hc => ⟨(hname.chars c hc).2.2, (hname.chars c hc).2.1⟩
  have hargs : IsInert (writeArguments as) :=
    .flatMap (fun a => IsInert.space.append (isInert_writeArgument a)) as
  rw [write_eq]
  exact (((IsInert.space.append hword).append hargs).append .space).isComplete

/-- Reading the spelling of a tag gives the tag back. -/
theorem tag?_write {name : Text} (hne : name ≠ []) (hchars : ∀ c ∈ name, Text.isSpace c = false)
    (as : List Text) (names : List Text) (n : Nat) :
    Token.tag? names ⟨.unit .tag, write name as, n⟩ =
      if name ∈ names then some ⟨name, as, n⟩ else none := by
  have hbody : Token.body ⟨.unit .tag, write name as, n⟩ = name ++ writeArguments as := by
    have hspace : Text.isBlank [' '] = true := by decide
    have htrim : Text.trim (name ++ writeArguments as) = name ++ writeArguments as := by
      rw [Text.trim_eq_self_iff, Text.trimStart_eq_self_iff, Text.trimEnd_eq_self_iff]
      constructor
      · rw [List.head?_append_of_ne_nil _ hne]
        exact fun c hc => hchars c (List.mem_of_mem_head? hc)
      · exact getLast?_append_writeArguments
          (fun c hc => hchars c (List.mem_of_getLast? hc)) as
    have hsurround := Text.trim_surround hspace hspace (name ++ writeArguments as)
    rw [write_eq, Token.body_of_unit, ← htrim, ← hsurround]
    simp
  have hsplit := splitWord_append hchars (writeArguments_head as)
  simp only [Token.tag?, if_true, hbody, hsplit, readArguments_writeArguments]
  simp [hne]

end write

end Tag

end CatalogueSync
