import CatalogueSync.Proofs.Extraction.Inline
import CatalogueSync.Proofs.Token.ByteScanner
import CatalogueSync.Proofs.Token.Tokenization

/-!
# Where a literal ends

Two readers look for the end of a quoted literal. The scanner goes over the bytes of a whole text,
and for it a literal hides the closers of the unit around it. The reader of inline literals goes
over the characters of one trimmed body. Both stop at the same quote (`closingQuote?_body_of_scan`),
so an inline literal is exactly what the scanner has protected.

What is inside of a literal has the form `Text.LiteralBody` for both. The literals in a unit are
closed, trimming the content does not open one (`Text.exists_literalBody_of_trim`), and the scanner
leaves a literal behind such an inside (`exists_readsLiteral`).
-/

set_option autoImplicit false

namespace CatalogueSync

namespace Text

/-- The position in bytes of the quote `q` that ends a literal, where the rest of the literal starts
at the position `i`, behind a backslash or not. -/
def findClosing (q : Char) (i : Nat) : Bool → Text → Option Nat
  | _, [] => none
  | true, c :: cs => findClosing q (i + c.utf8Size) false cs
  | false, c :: cs =>
    if c = '\\' then findClosing q (i + c.utf8Size) true cs
    else if c = q then some i
    else findClosing q (i + c.utf8Size) false cs

/-- The position in bytes of the quote that closes the literal at the start of a text. -/
def closingQuote? : Text → Option Nat
  | [] => none
  | c :: cs => if isQuote c then findClosing c c.utf8Size false cs else none

variable {w w' s cs : Text} {q : Char}

theorem utf8Size_of_isQuote (hq : isQuote q = true) : q.utf8Size = 1 := by
  simp only [isQuote, Bool.or_eq_true, beq_iff_eq] at hq
  obtain rfl | rfl := hq <;> decide

/-- The closing quote is found right behind what the reader of literals takes for the inside. -/
theorem findClosing_eq (q : Char) (i : Nat) (s : Text) :
    findClosing q i false s = (splitClosing q s).map fun r => i + r.1.byteLength := by
  fun_induction splitClosing q s generalizing i with
  | case1 => rfl
  | case2 => rfl
  | case3 d ds ih =>
    rw [findClosing, if_pos rfl, findClosing, ih, Option.map_map]
    simp only [Function.comp_def, byteLength_cons, Nat.add_assoc]
  | case4 cs hslash => rw [findClosing, if_neg hslash, if_pos rfl]; rfl
  | case5 c cs hslash hquote ih =>
    rw [findClosing, if_neg hslash, if_neg hquote, ih, Option.map_map]
    simp only [Function.comp_def, byteLength_cons, Nat.add_assoc]

theorem closingQuote?_eq (s : Text) :
    closingQuote? s = (quoted? s).map fun r => 1 + r.1.byteLength := by
  cases s with
  | nil => rfl
  | cons c cs =>
    cases hq : isQuote c with
    | true =>
      rw [closingQuote?, quoted?, if_pos hq, if_pos hq, findClosing_eq, utf8Size_of_isQuote hq]
    | false =>
      rw [closingQuote?, quoted?, hq, if_neg Bool.false_ne_true, if_neg Bool.false_ne_true]
      rfl

/-- Where some bytes go on with a text, they go on with its end behind its beginning. -/
theorem bytes_eq_drop {bytes : List UInt8} {n : Nat} {u v : Text}
    (h : bytes.drop n = Text.bytes (u ++ v)) : v.bytes = bytes.drop (n + u.byteLength) := by
  rw [← List.drop_drop, h, bytes_append, ← length_bytes, List.drop_left]

theorem ClosesLiterals.of_cons {c : Char} (hc : isQuote c = false) (h : ClosesLiterals (c :: s)) :
    ClosesLiterals s := by
  cases h with
  | plain _ h => exact h
  | literal hq _ _ =>
    rw [hc] at hq
    cases hq

/-- What stands before the first quote has no part in which literals are closed. -/
theorem ClosesLiterals.of_append (hw : ∀ c ∈ w, isQuote c = false)
    (h : ClosesLiterals (w ++ s)) : ClosesLiterals s := by
  induction w with
  | nil => exact h
  | cons c w ih =>
    obtain ⟨hc, hw⟩ := List.forall_mem_cons.1 hw
    exact ih hw (h.of_cons hc)

/-- A literal that is closed is closed where the text is trimmed, too. -/
theorem exists_literalBody_of_trim (hw : isBlank w = true) (hw' : isBlank w' = true)
    (hq : isQuote q = true) (h : ClosesLiterals (w ++ q :: cs ++ w')) :
    ∃ inside rest, cs = inside ++ q :: rest ∧ LiteralBody q inside := by
  have hplain : ∀ c ∈ w, isQuote c = false := fun c hc => (plain_of_isBlank hw c hc).2
  rw [List.append_assoc] at h
  obtain ⟨inside, rest, hcs, hinside, -⟩ := (h.of_append hplain).exists_literal hq
  have hnot : q ∉ w' := by
    intro hmem
    have hmark := (plain_of_isBlank hw' q hmem).2
    rw [hq] at hmark
    cases hmark
  -- The closing quote is no whitespace, so it is not among what trimming takes away.
  obtain ⟨more, rfl, rfl⟩ | ⟨more, rfl, hrest⟩ := List.append_eq_append_iff.1 hcs
  · exact absurd (List.mem_append_right more List.mem_cons_self) hnot
  · cases more with
    | nil =>
      rw [List.nil_append] at hrest
      rw [← hrest] at hnot
      exact absurd List.mem_cons_self hnot
    | cons d more =>
      obtain ⟨rfl, -⟩ := List.cons.inj hrest
      exact ⟨inside, more, rfl, hinside⟩

theorem quoted?_of_literalBody {inside : Text} (hq : isQuote q = true)
    (h : LiteralBody q inside) (rest : Text) :
    quoted? (q :: (inside ++ q :: rest)) = some (inside, rest) := by
  rw [quoted?, if_pos hq, splitClosing_append (ne_backslash_of_isQuote hq) h]

end Text

/-- While some bytes are scanned, a literal between quotes `q` is entered with the byte at the
position `first` and left with the byte at the position `last`. In between the scanner is inside of
this literal all the time. -/
structure ReadsLiteral (bytes : List UInt8) (k : UnitKind) (q : Char) (first last : Nat)
    (entry exit : ByteScanner) : Prop where
  toEntry : (ByteScanner.start bytes).Reaches (fun _ => True) entry
  rest_entry : entry.rest = bytes.drop first
  state_entry : entry.state = .inUnit k
  toExit : entry.Reaches (ScanState.IsInside k q) exit
  rest_exit : exit.rest = bytes.drop last
  state_exit : exit.state = .inLiteral k q.toUInt8
  rest_step : exit.step.rest = bytes.drop (last + 1)
  state_step : exit.step.state = .inUnit k

/-- A literal in a unit is read from the quote that opens it to the quote that ends it. -/
theorem exists_readsLiteral {bytes : List UInt8} {k : UnitKind} {q : Char} {w inside : Text}
    (more : Text) {m : ByteScanner} {n : Nat} (hk : k.quotes = true) (hq : Text.isQuote q = true)
    (hw : ∀ c ∈ w, c ≠ k.closeMark ∧ Text.isQuote c = false) (hinside : Text.LiteralBody q inside)
    (hreaches : (ByteScanner.start bytes).Reaches (fun _ => True) m) (hstate : m.state = .outside)
    (hrest : m.rest = Text.bytes (k.opener ++ (w ++ q :: (inside ++ q :: more))))
    (hn : m.rest = bytes.drop n) :
    ∃ entry exit, entry.pieces = m.tokens ∧
      ReadsLiteral bytes k q (n + Text.byteLength (k.opener ++ w))
        (n + Text.byteLength (k.opener ++ w) + (1 + inside.byteLength)) entry exit := by
  have hposition {u v : Text} (huv : k.opener ++ (w ++ q :: (inside ++ q :: more)) = u ++ v) :
      v.bytes = bytes.drop (n + u.byteLength) := by
    rw [hn, huv] at hrest
    exact Text.bytes_eq_drop hrest
  have hsize := Text.utf8Size_of_isQuote hq
  -- Up to the literal the scanner reads the opener and whatever is in front of the quote.
  let opened := m.opened k (w ++ q :: (inside ++ q :: more))
  let entry := opened.after opened.state w (q :: (inside ++ q :: more))
  have hopener : m.Reaches (fun _ => True) opened :=
    ByteScanner.reaches_of_step_eq (ByteScanner.step_opener hstate hrest) trivial
  have hentry : opened.Reaches (fun _ => True) entry := ByteScanner.reaches_of_plain hw rfl rfl
  -- In the literal it reads the quote and the inside, and the next step takes it out of it.
  let quoted := entry.after (.inLiteral k q.toUInt8) [q] (inside ++ q :: more)
  let exit := quoted.after quoted.state inside (q :: more)
  have hquote : entry.step = quoted :=
    ByteScanner.step_quote rfl rfl (by rw [hk, hq]; rfl)
  have henter : entry.Reaches (ScanState.IsInside k q) quoted :=
    ByteScanner.reaches_of_step_eq hquote (.inl rfl)
  have hexit : quoted.Reaches (ScanState.IsInside k q) exit :=
    ByteScanner.reaches_of_literalBody hinside hq rfl rfl
  have hleave : exit.step = exit.after (.inUnit k) [q] more :=
    ByteScanner.step_closing rfl rfl hq rfl
  have hend : Text.byteLength (k.opener ++ w ++ q :: inside) =
      Text.byteLength (k.opener ++ w) + (1 + inside.byteLength) := by
    rw [Text.byteLength_append, Text.byteLength_cons, hsize]
  have hbehind : Text.byteLength (k.opener ++ w ++ q :: inside ++ [q]) =
      Text.byteLength (k.opener ++ w) + (1 + inside.byteLength + 1) := by
    rw [Text.byteLength_append, hend, Text.byteLength_cons, hsize, Text.byteLength_nil,
      Nat.add_assoc]
  refine ⟨entry, exit, rfl, ?_⟩
  constructor
  case toEntry => exact hreaches.trans (hopener.trans hentry)
  case rest_entry => exact hposition (List.append_assoc ..).symm
  case state_entry => rfl
  case toExit => exact henter.trans hexit
  case rest_exit =>
    rw [Nat.add_assoc, ← hend]
    exact hposition (by simp)
  case state_exit => rfl
  case rest_step =>
    rw [hleave, Nat.add_assoc, Nat.add_assoc, ← hbehind]
    exact hposition (by simp)
  case state_step =>
    rw [hleave]
    rfl

/-- The literal that the body of an output starts with ends where the scanner leaves it: behind the
tokens `found` and the whitespace `w` the scanner enters the literal, it stays inside of it up to the
closing quote of the body, and it is in the output again behind that quote. The literal is part of
the token, and what is inside of it decides nothing but the text that is asked for. -/
theorem closingQuote?_body_of_scan {s : Text} {found left : List Token} {t : Token} {q : Char}
    {cs : Text} (hscan : scan s = found ++ t :: left) (hkind : t.kind = .unit .output)
    (hq : Text.isQuote q = true) (hbody : t.body = q :: cs) :
    ∃ (w w' inside rest : Text) (last : Nat) (entry exit : ByteScanner),
      Text.isBlank w = true ∧ Text.isBlank w' = true ∧
      t.raw = UnitKind.output.opener ++ (w ++ t.body ++ w') ++ UnitKind.output.closer ∧
      t.body = q :: (inside ++ q :: rest) ∧ last = 1 + inside.byteLength ∧
      Text.closingQuote? t.body = some last ∧
      entry.pieces = found.map Token.toBytes ∧
      ReadsLiteral s.bytes .output q
        (Text.byteLength (found.flatMap Token.raw) +
          Text.byteLength (UnitKind.output.opener ++ w))
        (Text.byteLength (found.flatMap Token.raw) +
          Text.byteLength (UnitKind.output.opener ++ w) + last) entry exit ∧
      t.inlineLiteral? =
        if Token.firstStep? rest = some TagName.trans then some (Text.decodeEscapes inside)
        else none := by
  obtain ⟨kind, raw, line⟩ := t
  obtain rfl : kind = .unit .output := hkind
  have hplace := (isTokenization_scanFrom 1 s).hasPlace found _ left hscan
  obtain ⟨content, hraw, hcontent⟩ := hplace.unit .output rfl
  have hraw : raw = UnitKind.output.opener ++ content ++ UnitKind.output.closer := hraw
  subst hraw
  have hclosed : Text.ClosesLiterals content := hcontent.closesAfter.outside rfl
  obtain ⟨w, w', hw, hw', hsurround⟩ := Text.exists_surround content
  rw [← Token.body_of_unit .output content line, hbody] at hsurround
  subst hsurround
  obtain ⟨inside, rest, rfl, hinside⟩ := Text.exists_literalBody_of_trim hw hw' hq hclosed
  have hquoted := Text.quoted?_of_literalBody hq hinside rest
  obtain ⟨m, hm⟩ := ByteScanner.exists_isBetween hscan (ByteScanner.isBefore_start s)
  have hstate : m.state = .outside := hm.state (List.cons_ne_nil _ _)
  have hs := flatMap_raw_scanFrom 1 s
  rw [← scan, hscan, List.flatMap_append] at hs
  have hn := Text.bytes_eq_drop (n := 0) (congrArg Text.bytes hs.symm)
  rw [← hm.rest, Nat.zero_add] at hn
  have hrest := hm.rest
  obtain ⟨entry, exit, hpieces, hreads⟩ := exists_readsLiteral (k := .output)
    (rest ++ (w' ++ (UnitKind.output.closer ++ left.flatMap Token.raw))) rfl hq
    (Text.plain_of_isBlank hw) hinside hm.reaches hstate (by simpa using hrest) hn
  refine ⟨w, w', inside, rest, _, entry, exit, hw, hw', ?_, hbody, rfl, ?_, ?_, hreads, ?_⟩
  · rw [hbody]
  · rw [hbody, Text.closingQuote?_eq, hquoted]
    rfl
  · rw [hpieces, hm.tokens]
    rfl
  · simp only [Token.inlineLiteral?, if_true, hbody, hquoted]

/-- Characters of several bytes, a backslash in front of one, a backslash in front of another one, a
quote of the other kind and a closer are inside of the literal. -/
theorem closingQuote?_body_of_scan_wide :
    ∃ (s : Text) (t : Token) (entry exit : ByteScanner),
      s = "é\x7b\x7b\u3000'\\é\"\x7d\x7d\\\\日'|trans \x7d\x7d.".toList ∧
      scan s = [⟨.text, ['é'], 1⟩] ++ t :: [⟨.text, ['.'], 1⟩] ∧ t.kind = .unit .output ∧
      t.body = "'\\é\"\x7d\x7d\\\\日'|trans".toList ∧ Text.closingQuote? t.body = some 12 ∧
      ReadsLiteral s.bytes .output '\'' 7 19 entry exit ∧
      t.inlineLiteral? = some "\\é\"\x7d\x7d\\日".toList := by
  let s : Text := "é\x7b\x7b\u3000'\\é\"\x7d\x7d\\\\日'|trans \x7d\x7d.".toList
  let t : Token :=
    ⟨.unit .output, "\x7b\x7b\u3000'\\é\"\x7d\x7d\\\\日'|trans \x7d\x7d".toList, 1⟩
  have hscan : scan s = [⟨.text, ['é'], 1⟩] ++ t :: [⟨.text, ['.'], 1⟩] := by decide +kernel
  have hbody : t.body = '\'' :: "\\é\"\x7d\x7d\\\\日'|trans".toList := by decide +kernel
  have hend : Text.closingQuote? t.body = some 12 := by decide +kernel
  obtain ⟨w, w', inside, rest, last, entry, exit, hw, -, hraw, hquoted, -, hlast, -, hreads, -⟩ :=
    closingQuote?_body_of_scan hscan rfl (by decide) hbody
  obtain rfl : 12 = last := Option.some.inj (hend.symm.trans hlast)
  have hblank : w = ['\u3000'] := by
    have hspace : Text.isSpace '\'' = false := by decide
    have hleading : (t.raw.drop 2).takeWhile Text.isSpace = w := by
      rw [hraw, hbody, List.append_assoc, List.append_assoc, List.append_assoc]
      simp [UnitKind.opener, List.takeWhile_append_of_pos (Text.isBlank_iff.1 hw), hspace]
    rw [← hleading]
    decide +kernel
  subst hblank
  exact ⟨s, t, entry, exit, rfl, hscan, rfl, hbody, hend, hreads, by decide +kernel⟩

end CatalogueSync
