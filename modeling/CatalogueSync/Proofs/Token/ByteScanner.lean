import CatalogueSync.Proofs.Text.Bytes
import CatalogueSync.Proofs.Token.Scan
import Mathlib.Logic.Relation

/-!
# Scanning byte by byte

`ByteScanner` reads the bytes of a text from left to right and keeps in mind whether it is outside
of all units, in a unit, in a quoted literal of a unit or behind a backslash in such a literal. It
finds the tokens that `scan` finds (`scanBytes_bytes`). The reason is that all characters it looks
for are ASCII: the bytes of any other character change nothing but that they end an escape
(`ByteScanner.reaches_after`), so the scanner moves from character to character, over a literal
(`ByteScanner.reaches_of_literalBody`), over a unit (`ByteScanner.agrees_splitUnit`) and from token
to token (`ByteScanner.exists_isBetween`).
-/

set_option autoImplicit false

namespace CatalogueSync

/-- What a scanner is inside of. Of a literal it keeps the quote that ends it. -/
inductive ScanState where
  | outside
  | inUnit (k : UnitKind)
  | inLiteral (k : UnitKind) (quote : UInt8)
  | inEscape (k : UnitKind) (quote : UInt8)
  deriving DecidableEq

namespace ScanState

/-- The opener or the closer of a unit that some bytes start with, where one can stand, and the
state behind it. -/
def delimiter? (bytes : List UInt8) : ScanState → Option (List UInt8 × ScanState)
  | outside =>
    (UnitKind.all.find? fun k => (Text.bytes k.opener).isPrefixOf bytes).map fun k =>
      (Text.bytes k.opener, inUnit k)
  | inUnit k =>
    if (Text.bytes k.closer).isPrefixOf bytes then some (Text.bytes k.closer, outside) else none
  | inLiteral _ _ => none
  | inEscape _ _ => none

/-- The state after a byte with which no opener and no closer starts. -/
def next (b : UInt8) : ScanState → ScanState
  | outside => outside
  | inUnit k =>
    if k.quotes && (b == '\''.toUInt8 || b == '"'.toUInt8) then inLiteral k b else inUnit k
  | inLiteral k quote =>
    if b = '\\'.toUInt8 then inEscape k quote else if b = quote then inUnit k
    else inLiteral k quote
  | inEscape k quote => inLiteral k quote

/-- Inside of a literal between quotes `q`. -/
def IsInside (k : UnitKind) (q : Char) (state : ScanState) : Prop :=
  state = inLiteral k q.toUInt8 ∨ state = inEscape k q.toUInt8

end ScanState

/-- A piece of a text in bytes: what kind of token it is and the line it starts on. -/
structure BytePiece where
  kind : TokenKind
  raw : List UInt8
  line : Nat
  deriving DecidableEq

/-- A token in bytes. -/
def Token.toBytes (t : Token) : BytePiece :=
  ⟨t.kind, t.raw.bytes, t.line⟩

/-- A scanner between two bytes: the pieces it has found, the piece that it reads and the line on
which that piece starts, the line it is on, and the bytes that are left. -/
structure ByteScanner where
  state : ScanState
  pieces : List BytePiece
  current : List UInt8
  startLine : Nat
  line : Nat
  rest : List UInt8

namespace ByteScanner

/-- The scanner in front of some bytes. -/
def start (bytes : List UInt8) : ByteScanner :=
  ⟨.outside, [], [], 1, 1, bytes⟩

/-- A piece, unless it is empty. -/
def piece (kind : TokenKind) (raw : List UInt8) (line : Nat) : List BytePiece :=
  if raw = [] then [] else [⟨kind, raw, line⟩]

/-- The scanner behind a delimiter. A closer ends the unit that it belongs to, an opener ends the
text in front of it. -/
def delimit (m : ByteScanner) (delimiter : List UInt8) (state : ScanState) : ByteScanner :=
  let rest := m.rest.drop delimiter.length
  match m.state with
  | .inUnit k =>
    ⟨state, m.pieces ++ piece (.unit k) (m.current ++ delimiter) m.startLine, [], m.line, m.line,
      rest⟩
  | _ => ⟨state, m.pieces ++ piece .text m.current m.startLine, delimiter, m.line, m.line, rest⟩

/-- The scanner behind the next delimiter or byte. -/
def step (m : ByteScanner) : ByteScanner :=
  match m.state.delimiter? m.rest with
  | some (delimiter, state) => m.delimit delimiter state
  | none =>
    match m.rest with
    | [] => m
    | b :: rest =>
      { m with
        state := m.state.next b
        current := m.current ++ [b]
        line := if b = '\n'.toUInt8 then m.line + 1 else m.line
        rest := rest }

/-- What the scanner has found when no bytes are left. What is not closed is text. -/
def tokens (m : ByteScanner) : List BytePiece :=
  m.pieces ++ piece .text m.current m.startLine

theorem delimiter?_ne_nil {bytes delimiter : List UInt8} {state state' : ScanState}
    (h : state.delimiter? bytes = some (delimiter, state')) : delimiter ≠ [] ∧ bytes ≠ [] := by
  have hopener : ∀ k : UnitKind, Text.bytes k.opener ≠ [] := by
    intro k
    cases k <;> decide
  have hcloser : ∀ k : UnitKind, Text.bytes k.closer ≠ [] := by
    intro k
    cases k <;> decide
  cases state with
  | outside =>
    obtain ⟨k, hk, hdelimiter⟩ := Option.map_eq_some_iff.1 h
    obtain ⟨rfl, -⟩ := Prod.mk.inj hdelimiter
    have hprefix := List.find?_some hk
    exact ⟨hopener k, (List.isPrefixOf_iff_prefix.1 hprefix).ne_nil (hopener k)⟩
  | inUnit k =>
    rw [ScanState.delimiter?] at h
    split at h
    · rename_i hprefix
      obtain ⟨rfl, -⟩ := Prod.mk.inj (Option.some.inj h)
      exact ⟨hcloser k, (List.isPrefixOf_iff_prefix.1 hprefix).ne_nil (hcloser k)⟩
    · cases h
  | inLiteral k quote => cases h
  | inEscape k quote => cases h

theorem rest_delimit (m : ByteScanner) (delimiter : List UInt8) (state : ScanState) :
    (m.delimit delimiter state).rest = m.rest.drop delimiter.length := by
  rw [delimit]
  split <;> rfl

theorem rest_step_length_lt {m : ByteScanner} (h : m.rest ≠ []) :
    m.step.rest.length < m.rest.length := by
  rw [step]
  split
  · rename_i delimiter state hdelimiter
    have hne := (delimiter?_ne_nil hdelimiter).1
    have hpos := List.length_pos_iff.2 hne
    have hrest := List.length_pos_iff.2 h
    rw [rest_delimit, List.length_drop]
    omega
  · split
    · rename_i hnil
      exact absurd hnil h
    · rename_i b rest hrest
      rw [hrest]
      exact Nat.lt_succ_self _

/-- Steps on until no bytes are left. -/
def run (m : ByteScanner) : ByteScanner :=
  if _h : m.rest = [] then m else m.step.run
termination_by m.rest.length
decreasing_by exact rest_step_length_lt _h

/-- The scanner gets from `m` to `m'`, and the states behind its steps are in `P`. -/
def Reaches (P : ScanState → Prop) : ByteScanner → ByteScanner → Prop :=
  Relation.ReflTransGen fun m m' => m' = m.step ∧ P m'.state

/-- The scanner `m` behind the text `s`, in front of `rest`. -/
def after (m : ByteScanner) (state : ScanState) (s rest : Text) : ByteScanner :=
  { m with
    state := state
    current := m.current ++ s.bytes
    line := m.line + Text.newlines s
    rest := rest.bytes }

end ByteScanner

/-- The tokens of some bytes. -/
def scanBytes (bytes : List UInt8) : List BytePiece :=
  (ByteScanner.start bytes).run.tokens

namespace ByteScanner

variable {P Q : ScanState → Prop} {m m' : ByteScanner} {state : ScanState} {k : UnitKind}
  {c q : Char} {s t rest : Text}

section steps

theorem Reaches.trans {m'' : ByteScanner} (h : Reaches P m m') (h' : Reaches P m' m'') :
    Reaches P m m'' :=
  Relation.ReflTransGen.trans h h'

theorem Reaches.mono (hP : ∀ state, P state → Q state) (h : Reaches P m m') : Reaches Q m m' :=
  Relation.ReflTransGen.mono (fun _ _ hstep => ⟨hstep.1, hP _ hstep.2⟩) m m' h

theorem reaches_of_step_eq (hstep : m.step = m') (h : P m'.state) : Reaches P m m' :=
  Relation.ReflTransGen.single ⟨hstep.symm, h⟩

theorem run_step (m : ByteScanner) : m.step.run = m.run := by
  by_cases h : m.rest = []
  · have hstep : m.step = m := by
      rw [step]
      split
      · rename_i hdelimiter
        exact absurd h (delimiter?_ne_nil hdelimiter).2
      · rw [h]
    rw [hstep]
  · rw [run.eq_def m, dif_neg h]

theorem Reaches.run_eq (h : Reaches P m m') : m.run = m'.run := by
  induction h with
  | refl => rfl
  | tail _ hstep ih => rw [ih, hstep.1, run_step]

theorem run_of_rest_eq_nil (h : m.rest = []) : m.run = m := by
  rw [run, dif_pos h]

theorem after_nil (hrest : m.rest = rest.bytes) : m.after m.state [] rest = m := by
  simp [after, ← hrest, Text.newlines]

theorem after_after (m : ByteScanner) (state state' : ScanState) (s t rest rest' : Text) :
    (m.after state s rest).after state' t rest' = m.after state' (s ++ t) rest' := by
  simp [after, Nat.add_assoc]

end steps

section characters

open Text (IsAscii IsHigh)

theorem isAscii_of_mem_opener (k : UnitKind) : ∀ c ∈ k.opener, IsAscii c := by
  refine Text.forall_mem_of_all ?_
  cases k <;> decide

theorem isAscii_of_mem_closer (k : UnitKind) : ∀ c ∈ k.closer, IsAscii c := by
  refine Text.forall_mem_of_all ?_
  cases k <;> decide

theorem isAscii_of_isQuote (hq : Text.isQuote q = true) : IsAscii q := by
  simp only [Text.isQuote, Bool.or_eq_true, beq_iff_eq] at hq
  obtain rfl | rfl := hq <;> decide

theorem bytes_isPrefixOf {p : Text} (hp : ∀ c ∈ p, IsAscii c) (s : Text) :
    (Text.bytes p).isPrefixOf s.bytes = p.isPrefixOf s := by
  rw [Bool.eq_iff_iff, List.isPrefixOf_iff_prefix, List.isPrefixOf_iff_prefix,
    Text.bytes_isPrefix_iff hp]

theorem delimiter?_outside (s : Text) :
    ScanState.outside.delimiter? s.bytes =
      (opened? s).map fun o => (Text.bytes o.1.opener, .inUnit o.1) := by
  simp only [ScanState.delimiter?, bytes_isPrefixOf (isAscii_of_mem_opener _)]
  cases ho : opened? s with
  | none =>
    have hnone : UnitKind.all.find? (fun k => k.opener.isPrefixOf s) = none := by
      rw [List.find?_eq_none]
      intro k _
      rw [List.isPrefixOf_iff_prefix]
      exact opened?_eq_none_iff.1 ho k
    rw [hnone]
    rfl
  | some o =>
    obtain ⟨k, inside⟩ := o
    rw [opened?_eq ho]
    cases k <;> rfl

theorem delimiter?_inUnit (k : UnitKind) (s : Text) :
    (ScanState.inUnit k).delimiter? s.bytes =
      if k.closer.isPrefixOf s then some (k.closer.bytes, .outside) else none := by
  rw [ScanState.delimiter?, bytes_isPrefixOf (isAscii_of_mem_closer k)]

theorem ne_toUInt8_of_isHigh {b : UInt8} (hb : IsHigh b) (hc : IsAscii c) : b ≠ c.toUInt8 := by
  rintro rfl
  exact Text.not_isHigh_toUInt8 hc hb

/-- No opener and no closer starts with a byte that is no ASCII character. -/
theorem delimiter?_of_isHigh {b : UInt8} (hb : IsHigh b) (bytes : List UInt8)
    (state : ScanState) : state.delimiter? (b :: bytes) = none := by
  have hne : ∀ c : Char, IsAscii c → c.toUInt8 ≠ b := fun c hc =>
    (ne_toUInt8_of_isHigh hb hc).symm
  cases state with
  | outside =>
    have hnone : UnitKind.all.find? (fun k => (Text.bytes k.opener).isPrefixOf (b :: bytes)) =
        none := by
      rw [List.find?_eq_none]
      intro k _ hprefix
      rw [UnitKind.opener, Text.bytes_cons, Text.encode_of_isAscii (by decide),
        List.isPrefixOf_iff_prefix, List.singleton_append, List.cons_prefix_cons] at hprefix
      exact hne _ (by decide) hprefix.1
    rw [ScanState.delimiter?, hnone]
    rfl
  | inUnit k =>
    rw [ScanState.delimiter?, if_neg]
    intro hprefix
    have hmark : IsAscii k.closeMark := isAscii_of_mem_closer k _ List.mem_cons_self
    rw [UnitKind.closer, Text.bytes_cons, Text.encode_of_isAscii hmark,
      List.isPrefixOf_iff_prefix, List.singleton_append, List.cons_prefix_cons] at hprefix
    exact hne _ hmark hprefix.1
  | inLiteral k quote => rfl
  | inEscape k quote => rfl

theorem next_inUnit_of_isHigh {b : UInt8} (hb : IsHigh b) (k : UnitKind) :
    (ScanState.inUnit k).next b = .inUnit k := by
  have hsingle : b ≠ '\''.toUInt8 := ne_toUInt8_of_isHigh hb (by decide)
  have hdouble : b ≠ '"'.toUInt8 := ne_toUInt8_of_isHigh hb (by decide)
  simp [ScanState.next, hsingle, hdouble]

theorem next_inLiteral_of_isHigh {b : UInt8} (hb : IsHigh b) (hq : Text.isQuote q = true)
    (k : UnitKind) : (ScanState.inLiteral k q.toUInt8).next b = .inLiteral k q.toUInt8 := by
  have hslash : b ≠ '\\'.toUInt8 := ne_toUInt8_of_isHigh hb (by decide)
  have hquote : b ≠ q.toUInt8 := ne_toUInt8_of_isHigh hb (isAscii_of_isQuote hq)
  rw [ScanState.next, if_neg hslash, if_neg hquote]

theorem next_inUnit (hc : IsAscii c) (k : UnitKind) :
    (ScanState.inUnit k).next c.toUInt8 =
      if k.quotes && Text.isQuote c then .inLiteral k c.toUInt8 else .inUnit k := by
  have hquote : (c.toUInt8 == '\''.toUInt8 || c.toUInt8 == '"'.toUInt8) = Text.isQuote c := by
    rw [Bool.eq_iff_iff]
    simp only [Text.isQuote, Bool.or_eq_true, beq_iff_eq]
    rw [Text.toUInt8_inj hc (by decide), Text.toUInt8_inj hc (by decide)]
  rw [ScanState.next, hquote]

theorem next_inLiteral (hc : IsAscii c) (hq : Text.isQuote q = true) (k : UnitKind) :
    (ScanState.inLiteral k q.toUInt8).next c.toUInt8 =
      if c = '\\' then .inEscape k q.toUInt8 else if c = q then .inUnit k
      else .inLiteral k q.toUInt8 := by
  simp only [ScanState.next, Text.toUInt8_inj hc (d := '\\') (by decide),
    Text.toUInt8_inj hc (isAscii_of_isQuote hq)]

/-- The bytes of a text without ASCII characters, for which the scanner does not look. -/
theorem reaches_of_isHigh {bytes : List UInt8} (hbytes : ∀ b ∈ bytes, IsHigh b)
    (hrest : m.rest = bytes ++ s.bytes) (hnext : ∀ b, IsHigh b → m.state.next b = m.state)
    (hP : P m.state) :
    Reaches P m { m with current := m.current ++ bytes, rest := s.bytes } := by
  induction bytes generalizing m with
  | nil =>
    rw [List.nil_append] at hrest
    rw [List.append_nil, ← hrest]
    exact .refl
  | cons b bytes ih =>
    obtain ⟨hb, hbytes⟩ := List.forall_mem_cons.1 hbytes
    have hstep : m.step = { m with current := m.current ++ [b], rest := bytes ++ s.bytes } := by
      have hline : b ≠ '\n'.toUInt8 := ne_toUInt8_of_isHigh hb (by decide)
      rw [step, hrest, List.cons_append, delimiter?_of_isHigh hb]
      simp only [hnext b hb, if_neg hline]
    have hfirst := reaches_of_step_eq hstep hP
    have htail := @ih { m with current := m.current ++ [b], rest := bytes ++ s.bytes }
      hbytes rfl hnext hP
    simp only [List.append_assoc, List.singleton_append] at htail
    exact hfirst.trans htail

/-- The scanner behind an ASCII character. -/
theorem step_eq_after (hc : IsAscii c) (hrest : m.rest = Text.bytes (c :: s))
    (hdelimiter : m.state.delimiter? m.rest = none) :
    m.step = m.after (m.state.next c.toUInt8) [c] s := by
  have hencode := Text.encode_of_isAscii hc
  have hline : (if c.toUInt8 = '\n'.toUInt8 then m.line + 1 else m.line) =
      m.line + Text.newlines [c] := by
    have hnewline : c.toUInt8 = '\n'.toUInt8 ↔ c = '\n' := Text.toUInt8_inj hc (by decide)
    by_cases hc : c = '\n' <;> simp [hnewline, Text.newlines, hc]
  rw [step, hdelimiter]
  simp only [hrest, Text.bytes_cons, hencode, List.singleton_append, hline, after,
    Text.bytes_nil, List.append_nil]

/-- The scanner behind a character that neither starts a delimiter nor is looked for. -/
theorem reaches_after (hrest : m.rest = Text.bytes (c :: s))
    (hdelimiter : m.state.delimiter? m.rest = none)
    (hascii : IsAscii c → m.state.next c.toUInt8 = state)
    (hhigh : ∀ b, IsHigh b → m.state.next b = state ∧ state.next b = state) (hP : P state) :
    Reaches P m (m.after state [c] s) := by
  by_cases hc : IsAscii c
  · have hstep := step_eq_after hc hrest hdelimiter
    rw [hascii hc] at hstep
    exact reaches_of_step_eq hstep hP
  · -- The first byte may end an escape, the others then find the state as it stays.
    obtain ⟨b, bytes, hencode⟩ : ∃ b bytes, String.utf8EncodeChar c = b :: bytes :=
      ⟨_, _, Text.encode_eq c⟩
    have hbytes := Text.isHigh_of_mem_encode hc
    rw [hencode, List.forall_mem_cons] at hbytes
    have hlines : Text.newlines [c] = 0 := by
      rw [Text.newlines, List.count_eq_zero, List.mem_singleton]
      rintro rfl
      exact hc (by decide)
    have hline : b ≠ '\n'.toUInt8 := ne_toUInt8_of_isHigh hbytes.1 (by decide)
    have hstep : m.step =
        { m with state := state, current := m.current ++ [b], rest := bytes ++ s.bytes } := by
      rw [step, hdelimiter]
      simp only [hrest, Text.bytes_cons, hencode, List.cons_append, (hhigh b hbytes.1).1,
        if_neg hline]
    have hfirst := reaches_of_step_eq hstep hP
    have htail := reaches_of_isHigh (P := P) hbytes.2 (m := { m with
      state := state, current := m.current ++ [b], rest := bytes ++ s.bytes }) rfl
      (fun b hb => (hhigh b hb).2) hP
    have hafter := hfirst.trans htail
    simp only [List.append_assoc, List.singleton_append] at hafter
    simpa only [after, hlines, Text.bytes_cons, hencode, Text.bytes_nil, List.append_nil,
      Nat.add_zero] using hafter

end characters

section passing

variable (hrest : m.rest = Text.bytes (c :: s))
include hrest

theorem reaches_outside (hstate : m.state = .outside) (ho : opened? (c :: s) = none) :
    Reaches (fun _ => True) m (m.after .outside [c] s) := by
  have hdelimiter : m.state.delimiter? m.rest = none := by
    rw [hstate, hrest, delimiter?_outside, ho]
    rfl
  refine reaches_after hrest hdelimiter ?_ ?_ trivial
  · intro _
    rw [hstate]
    rfl
  · intro b _
    rw [hstate]
    exact ⟨rfl, rfl⟩

theorem delimiter?_eq_none_of_not_closer (hstate : m.state = .inUnit k)
    (hclose : k.closer.isPrefixOf (c :: s) = false) : m.state.delimiter? m.rest = none := by
  rw [hstate, hrest, delimiter?_inUnit, hclose, if_neg Bool.false_ne_true]

theorem reaches_inUnit (hstate : m.state = .inUnit k)
    (hclose : k.closer.isPrefixOf (c :: s) = false)
    (hquote : (k.quotes && Text.isQuote c) = false) :
    Reaches (fun _ => True) m (m.after (.inUnit k) [c] s) := by
  have hdelimiter := delimiter?_eq_none_of_not_closer hrest hstate hclose
  refine reaches_after hrest hdelimiter ?_ ?_ trivial
  · intro hc
    rw [hstate, next_inUnit hc, hquote, if_neg Bool.false_ne_true]
  · intro b hb
    rw [hstate]
    exact ⟨next_inUnit_of_isHigh hb k, next_inUnit_of_isHigh hb k⟩

/-- A quote in a tag or an output starts a literal. -/
theorem step_quote (hstate : m.state = .inUnit k)
    (hquote : (k.quotes && Text.isQuote c) = true) :
    m.step = m.after (.inLiteral k c.toUInt8) [c] s := by
  have hq : Text.isQuote c = true := (Bool.and_eq_true_iff.1 hquote).2
  have hclose := UnitKind.not_closer_isPrefixOf_of_isQuote (k := k) hq s
  have hdelimiter := delimiter?_eq_none_of_not_closer hrest hstate hclose
  rw [step_eq_after (isAscii_of_isQuote hq) hrest hdelimiter, hstate,
    next_inUnit (isAscii_of_isQuote hq), if_pos hquote]

variable (hstate : m.state = .inLiteral k q.toUInt8) (hq : Text.isQuote q = true)
include hstate hq

theorem reaches_inLiteral (hslash : c ≠ '\\') (hquote : c ≠ q) (hP : P m.state) :
    Reaches P m (m.after m.state [c] s) := by
  refine reaches_after hrest (by rw [hstate]; rfl) ?_ ?_ hP
  · intro hc
    rw [hstate, next_inLiteral hc hq, if_neg hslash, if_neg hquote]
  · intro b hb
    rw [hstate]
    exact ⟨next_inLiteral_of_isHigh hb hq k, next_inLiteral_of_isHigh hb hq k⟩

omit hrest in
theorem step_backslash (hrest : m.rest = Text.bytes ('\\' :: s)) :
    m.step = m.after (.inEscape k q.toUInt8) ['\\'] s := by
  rw [step_eq_after (by decide) hrest (by rw [hstate]; rfl), hstate,
    next_inLiteral (by decide) hq, if_pos rfl]

/-- The quote that started a literal ends it. -/
theorem step_closing (hc : c = q) : m.step = m.after (.inUnit k) [c] s := by
  subst hc
  rw [step_eq_after (isAscii_of_isQuote hq) hrest (by rw [hstate]; rfl), hstate,
    next_inLiteral (isAscii_of_isQuote hq) hq, if_neg (Text.ne_backslash_of_isQuote hq),
    if_pos rfl]

end passing

/-- A backslash takes the next character with it, whatever it is. -/
theorem reaches_escape (hstate : m.state = .inLiteral k q.toUInt8) (hq : Text.isQuote q = true)
    (hrest : m.rest = Text.bytes ('\\' :: c :: s)) :
    Reaches (ScanState.IsInside k q) m (m.after m.state ['\\', c] s) := by
  have hstep := step_backslash hstate hq hrest
  have hfirst := reaches_of_step_eq (P := ScanState.IsInside k q) hstep (.inr rfl)
  have hsecond : Reaches (ScanState.IsInside k q) (m.after (.inEscape k q.toUInt8) ['\\'] (c :: s))
      ((m.after (.inEscape k q.toUInt8) ['\\'] (c :: s)).after m.state [c] s) := by
    rw [hstate]
    refine reaches_after rfl rfl (fun _ => rfl) ?_ (.inl rfl)
    intro b hb
    exact ⟨rfl, next_inLiteral_of_isHigh hb hq k⟩
  rw [after_after] at hsecond
  exact hfirst.trans hsecond

/-- Characters that neither close a unit nor start a literal are passed over. -/
theorem reaches_of_plain {p : Text} (hp : ∀ c ∈ p, c ≠ k.closeMark ∧ Text.isQuote c = false)
    (hstate : m.state = .inUnit k) (hrest : m.rest = Text.bytes (p ++ s)) :
    Reaches (fun _ => True) m (m.after m.state p s) := by
  induction p generalizing m with
  | nil =>
    rw [List.nil_append] at hrest
    rw [after_nil hrest]
    exact .refl
  | cons c p ih =>
    obtain ⟨hc, hp⟩ := List.forall_mem_cons.1 hp
    have hclose := UnitKind.not_closer_isPrefixOf_of_ne hc.1 (p ++ s)
    have hfirst := reaches_inUnit hrest hstate hclose (by rw [hc.2, Bool.and_false])
    have hsecond := ih (m := m.after (.inUnit k) [c] (p ++ s)) hp rfl rfl
    rw [after_after] at hsecond
    rw [hstate]
    exact hfirst.trans hsecond

/-- The scanner stays inside of a literal up to the quote that ends it. -/
theorem reaches_of_literalBody {body : Text} (hbody : Text.LiteralBody q body)
    (hq : Text.isQuote q = true) (hstate : m.state = .inLiteral k q.toUInt8)
    (hrest : m.rest = Text.bytes (body ++ s)) :
    Reaches (ScanState.IsInside k q) m (m.after m.state body s) := by
  induction hbody generalizing m with
  | nil =>
    rw [List.nil_append] at hrest
    rw [after_nil hrest]
    exact .refl
  | @plain c body hslash hquote _ ih =>
    have hfirst := reaches_inLiteral hrest hstate hq hslash hquote
      (P := ScanState.IsInside k q) (.inl hstate)
    have hsecond := ih (m := m.after m.state [c] (body ++ s)) hstate rfl
    rw [after_after] at hsecond
    exact hfirst.trans hsecond
  | @escaped c body _ ih =>
    have hfirst := reaches_escape hstate hq hrest
    have hsecond := ih (m := m.after m.state ['\\', c] (body ++ s)) hstate rfl
    rw [after_after] at hsecond
    exact hfirst.trans hsecond

section units

/-- The scanner `m` behind the rest `u` of the unit that it reads, in front of `rest`. -/
def closed (m : ByteScanner) (k : UnitKind) (u rest : Text) : ByteScanner :=
  ⟨.outside, m.pieces ++ piece (.unit k) (m.current ++ u.bytes) m.startLine, [],
    m.line + Text.newlines u, m.line + Text.newlines u, rest.bytes⟩

/-- The scanner `m` behind an opener in front of `inside`. -/
def opened (m : ByteScanner) (k : UnitKind) (inside : Text) : ByteScanner :=
  ⟨.inUnit k, m.tokens, k.opener.bytes, m.line, m.line, inside.bytes⟩

theorem step_closer (hstate : m.state = .inUnit k) (hrest : m.rest = Text.bytes (k.closer ++ rest)) :
    m.step = m.closed k k.closer rest := by
  have hprefix : k.closer.isPrefixOf (k.closer ++ rest) = true :=
    List.isPrefixOf_iff_prefix.2 (List.prefix_append ..)
  have hdelimiter : m.state.delimiter? m.rest = some (k.closer.bytes, .outside) := by
    rw [hstate, hrest, delimiter?_inUnit, if_pos hprefix]
  have hlines : Text.newlines k.closer = 0 := by cases k <;> rfl
  rw [step, hdelimiter]
  simp only [delimit, hstate, hrest, Text.bytes_append, List.drop_left, closed, hlines,
    Nat.add_zero]

theorem step_opener (hstate : m.state = .outside)
    (hrest : m.rest = Text.bytes (k.opener ++ rest)) : m.step = m.opened k rest := by
  have hdelimiter : m.state.delimiter? m.rest = some (k.opener.bytes, .inUnit k) := by
    rw [hstate, hrest, delimiter?_outside, UnitKind.opened?_opener_append]
    rfl
  rw [step, hdelimiter]
  simp only [delimit, hstate, hrest, Text.bytes_append, List.drop_left, opened, tokens]

/-- The state in which the rest of a unit is read, inside of a literal or not. -/
def unitState (k : UnitKind) : Option Char → ScanState
  | none => .inUnit k
  | some q => .inLiteral k q.toUInt8

/-- The scanner `m` in front of `s` does what a reader of units says: it gets behind the unit, or
to the end when the unit is not closed. -/
def Agrees (m : ByteScanner) (k : UnitKind) (s : Text) : Option (Text × Text) → Prop
  | some (u, rest) => Reaches (fun _ => True) m (m.closed k u rest)
  | none => ∃ state, Reaches (fun _ => True) m (m.after state s [])

/-- Characters that both have passed make no difference. -/
theorem Agrees.of_after {r : Option (Text × Text)} {p : Text}
    (hfirst : Reaches (fun _ => True) m (m.after state p s))
    (h : (m.after state p s).Agrees k s r) :
    m.Agrees k (p ++ s) (r.map fun r => (p ++ r.1, r.2)) := by
  cases r with
  | none =>
    obtain ⟨state', h⟩ := h
    rw [after_after] at h
    exact ⟨state', hfirst.trans h⟩
  | some r =>
    have hclosed : (m.after state p s).closed k r.1 r.2 = m.closed k (p ++ r.1) r.2 := by
      simp [closed, after, Nat.add_assoc]
    refine hfirst.trans ?_
    rw [← hclosed]
    exact h

/-- The scanner reads units as their reader does. -/
theorem agrees_splitUnit (quote : Option Char) (hquote : ∀ q ∈ quote, Text.isQuote q = true)
    (hstate : m.state = unitState k quote) (hrest : m.rest = s.bytes) :
    m.Agrees k s (splitUnit k quote s) := by
  fun_induction splitUnit k quote s generalizing m with
  | case1 quote =>
    refine ⟨m.state, ?_⟩
    rw [after_nil hrest]
    exact .refl
  | case2 c cs hclose =>
    obtain ⟨rest, hcs⟩ := List.isPrefixOf_iff_prefix.1 hclose
    obtain rfl : rest = cs.tail := by
      rw [UnitKind.closer] at hcs
      simp only [List.cons_append, List.cons.injEq] at hcs
      rw [← hcs.2]
      rfl
    rw [← hcs] at hrest
    have hstep := step_closer hstate hrest
    exact reaches_of_step_eq (P := fun _ => True) hstep trivial
  | case3 c cs hclose ih =>
    rw [Bool.not_eq_true] at hclose
    cases hmark : k.quotes && Text.isQuote c with
    | true =>
      simp only [hmark, if_true] at ih ⊢
      have hstep := step_quote hrest hstate hmark
      have hfirst := reaches_of_step_eq (P := fun _ => True) hstep trivial
      have hq : Text.isQuote c = true := (Bool.and_eq_true_iff.1 hmark).2
      exact .of_after hfirst (ih (by simpa using hq) rfl rfl)
    | false =>
      simp only [hmark, Bool.false_eq_true, if_false] at ih ⊢
      exact .of_after (reaches_inUnit hrest hstate hclose hmark) (ih (by simp) rfl rfl)
  | case4 q =>
    have hstep := step_backslash hstate (hquote q rfl) hrest
    have hfirst := reaches_of_step_eq (P := fun _ => True) hstep trivial
    exact ⟨_, hfirst⟩
  | case5 q d ds ih =>
    have hfirst := (reaches_escape hstate (hquote q rfl) hrest).mono fun _ _ => trivial
    exact .of_after hfirst (ih hquote hstate rfl)
  | case6 q c cs hslash ih =>
    by_cases hc : c = q
    · subst hc
      simp only [if_true] at ih ⊢
      have hstep := step_closing hrest hstate (hquote c rfl) rfl
      have hfirst := reaches_of_step_eq (P := fun _ => True) hstep trivial
      exact .of_after hfirst (ih (by simp) rfl rfl)
    · simp only [hc, if_false] at ih ⊢
      have hfirst : Reaches (fun _ => True) m (m.after m.state [c] cs) :=
        reaches_inLiteral hrest hstate (hquote q rfl) hslash hc trivial
      exact .of_after hfirst (ih hquote hstate rfl)

end units

/-- The scanner `m` is in front of the text `s`, which starts on line `n`. What it has read and not
yet counted as a piece is a text that ends here. -/
structure IsBefore (m : ByteScanner) (n : Nat) (s : Text) : Prop where
  state : m.state = .outside
  rest : m.rest = s.bytes
  line : m.line = n
  current : m.current = [] ∧ m.startLine = n ∨ EndsRun s

section scan

variable {n : Nat}

@[simp]
theorem piece_nil (kind : TokenKind) (line : Nat) : piece kind [] line = [] := rfl

theorem piece_bytes (kind : TokenKind) (hs : s ≠ []) (line : Nat) :
    piece kind s.bytes line = [Token.toBytes ⟨kind, s, line⟩] := by
  obtain ⟨c, s, rfl⟩ := List.exists_cons_of_ne_nil hs
  rw [piece, if_neg (by simp [Text.bytes_cons, Text.encode_eq])]
  rfl

theorem piece_opener_append (kind : TokenKind) (k : UnitKind) (inside : Text) (line : Nat) :
    piece kind (k.opener.bytes ++ inside.bytes) line =
      [Token.toBytes ⟨kind, k.opener ++ inside, line⟩] := by
  rw [← Text.bytes_append]
  exact piece_bytes kind (List.append_ne_nil_of_left_ne_nil (List.cons_ne_nil _ _) inside) line

theorem newlines_opener (k : UnitKind) : Text.newlines k.opener = 0 := by
  cases k <;> rfl

/-- From token to token: over a complete unit. -/
theorem exists_reaches_of_isComplete {raw : Text} (hraw : k.IsComplete raw)
    (hm : m.IsBefore n (raw ++ rest)) :
    ∃ m', Reaches (fun _ => True) m m' ∧ m'.IsBefore (n + Text.newlines raw) rest ∧
      m'.tokens = m.tokens ++ [Token.toBytes ⟨.unit k, raw, n⟩] := by
  obtain ⟨inside, rfl, hinside⟩ := hraw
  have hrest := hm.rest
  rw [List.append_assoc] at hrest
  have hstep := step_opener hm.state hrest
  have hfirst := reaches_of_step_eq (P := fun _ => True) hstep trivial
  have hsplit := splitUnit_append_right hinside rest
  have hsecond := agrees_splitUnit (m := m.opened k (inside ++ rest)) none (by simp) rfl rfl
  rw [hsplit, List.nil_append] at hsecond
  have hline : (m.opened k (inside ++ rest)).line + Text.newlines inside =
      n + Text.newlines (k.opener ++ inside) := by
    rw [Text.newlines_append, newlines_opener, Nat.zero_add, ← hm.line]
    rfl
  refine ⟨_, hfirst.trans hsecond, ⟨rfl, rfl, hline, .inl ⟨rfl, hline⟩⟩, ?_⟩
  simp only [closed, tokens, opened, piece_nil, List.append_nil, hm.line, piece_opener_append]

/-- From token to token: over plain text. -/
theorem reaches_of_plainBefore {run : Text} (hrun : PlainBefore rest run)
    (hstate : m.state = .outside) (hrest : m.rest = Text.bytes (run ++ rest)) :
    Reaches (fun _ => True) m (m.after .outside run rest) := by
  induction hrun generalizing m with
  | nil =>
    rw [List.nil_append] at hrest
    rw [← hstate, after_nil hrest]
    exact .refl
  | @cons c run hc _ ih =>
    have hfirst := reaches_outside hrest hstate hc
    have hsecond := ih (m := m.after .outside [c] (run ++ rest)) rfl rfl
    rw [after_after] at hsecond
    exact hfirst.trans hsecond

/-- The scanner has got from `m` to `m'` over the tokens `found` and is in front of the tokens
`left`. -/
structure IsBetween (m m' : ByteScanner) (found left : List Token) : Prop where
  reaches : Reaches (fun _ => True) m m'
  rest : m'.rest = Text.bytes (left.flatMap Token.raw)
  tokens : m'.tokens = m.tokens ++ found.map Token.toBytes
  state : left ≠ [] → m'.state = .outside

theorem IsBefore.isBetween_nil {left : List Token} (hm : m.IsBefore n s)
    (hscan : scanFrom n s = left) : m.IsBetween m [] left where
  reaches := .refl
  rest := by rw [hm.rest, ← hscan, flatMap_raw_scanFrom]
  tokens := (List.append_nil _).symm
  state := fun _ => hm.state

theorem IsBetween.cons {m'' : ByteScanner} {t : Token} {found left : List Token}
    (hfirst : Reaches (fun _ => True) m m') (htokens : m'.tokens = m.tokens ++ [t.toBytes])
    (h : m'.IsBetween m'' found left) : m.IsBetween m'' (t :: found) left where
  reaches := hfirst.trans h.reaches
  rest := h.rest
  tokens := by rw [h.tokens, htokens, List.append_assoc, List.map_cons, List.singleton_append]
  state := h.state

/-- Between any two tokens of a text the scanner is outside of all units and has found the tokens
up to there. -/
theorem exists_isBetween {found left : List Token} (hscan : scanFrom n s = found ++ left)
    (hm : m.IsBefore n s) : ∃ m', m.IsBetween m' found left := by
  induction n, s using scan_induction generalizing m found with
  | nil n =>
    rw [scanFrom_nil] at hscan
    obtain ⟨rfl, rfl⟩ := List.append_eq_nil_iff.1 hscan.symm
    exact ⟨m, hm.isBetween_nil (scanFrom_nil n)⟩
  | unit n k raw rest hraw ih =>
    cases found with
    | nil => exact ⟨m, hm.isBetween_nil hscan⟩
    | cons t found =>
      rw [scanFrom_append_of_isComplete hraw] at hscan
      obtain ⟨rfl, hrest⟩ := List.cons.inj hscan
      obtain ⟨m', hfirst, hm', htokens⟩ := exists_reaches_of_isComplete hraw hm
      obtain ⟨m'', h⟩ := ih hrest hm'
      exact ⟨m'', h.cons hfirst htokens⟩
  | run n c run rest hrun hrest ih =>
    cases found with
    | nil => exact ⟨m, hm.isBetween_nil hscan⟩
    | cons t found =>
      rw [scanFrom_append_of_plainBefore hrun hrest] at hscan
      obtain ⟨rfl, hrestscan⟩ := List.cons.inj hscan
      obtain ⟨hcurrent, hline⟩ | hends := hm.current
      · have hfirst := reaches_of_plainBefore hrun hm.state hm.rest
        have hm' : (m.after .outside (c :: run) rest).IsBefore
            (n + Text.newlines (c :: run)) rest :=
          ⟨rfl, rfl, congrArg (· + Text.newlines (c :: run)) hm.line, .inr hrest⟩
        obtain ⟨m'', h⟩ := ih hrestscan hm'
        refine ⟨m'', h.cons hfirst ?_⟩
        have hpiece := piece_bytes .text (List.cons_ne_nil c run) n
        simp only [ByteScanner.after, ByteScanner.tokens, hcurrent, hline, List.nil_append, hpiece,
          piece_nil, List.append_nil]
      · -- A text that ends in front of `s` and a text at the start of `s` exclude each other.
        have hc := splitRun_of_endsRun hends
        have hplain := splitRun_append_of_plainBefore hrun hrest
        rw [hplain] at hc
        cases hc
  | unclosed n k inside hu =>
    cases found with
    | nil => exact ⟨m, hm.isBetween_nil hscan⟩
    | cons t found =>
      rw [scanFrom_of_unclosed hu] at hscan
      obtain ⟨rfl, hrestscan⟩ := List.cons.inj hscan
      obtain ⟨rfl, rfl⟩ := List.append_eq_nil_iff.1 hrestscan.symm
      have hstep := step_opener hm.state hm.rest
      have hfirst := reaches_of_step_eq (P := fun _ => True) hstep trivial
      have hsecond := agrees_splitUnit (m := m.opened k inside) none (by simp) rfl rfl
      rw [hu] at hsecond
      obtain ⟨state, hsecond⟩ := hsecond
      refine ⟨_, hfirst.trans hsecond, rfl, ?_, by simp⟩
      simp only [ByteScanner.tokens, ByteScanner.after, opened, hm.line, piece_opener_append,
        List.map_cons, List.map_nil]

end scan

/-- The scanner in front of a text. -/
theorem isBefore_start (s : Text) : (start s.bytes).IsBefore 1 s :=
  ⟨rfl, rfl, rfl, .inl ⟨rfl, rfl⟩⟩

end ByteScanner

/-- Scanning the bytes of a text finds the tokens of the text. -/
theorem scanBytes_bytes (s : Text) : scanBytes s.bytes = (scan s).map Token.toBytes := by
  have hscan : scanFrom 1 s = scan s ++ [] := (List.append_nil _).symm
  obtain ⟨m, hm⟩ := ByteScanner.exists_isBetween hscan (ByteScanner.isBefore_start s)
  rw [scanBytes, hm.reaches.run_eq, ByteScanner.run_of_rest_eq_nil hm.rest, hm.tokens]
  rfl

end CatalogueSync
