import CatalogueSync.Json.Basic
import CatalogueSync.Text.Quoted

/-!
# The pieces of a JSON text

A JSON text is made of brackets, commas, colons, strings and words, with spaces, tabs and line
ends between them. The reading is strict: no comments, no control characters in strings, no
leading zeros. Every reader returns what it read with the rest of the text, which is shorter.
-/

set_option autoImplicit false

namespace CatalogueSync.Json

/-- The characters that may stand between the pieces. -/
def isSpace (c : Char) : Bool :=
  c = ' ' || c = '\t' || c = '\n' || c = '\r'

/-- A piece of a string: a character as it is, or a 16-bit unit that an escape gives. -/
inductive Unit16 where
  | plain (c : Char)
  | escaped (n : Nat)

/-- The character of a one-letter escape. -/
def simpleEscape? : Char → Option Char
  | '"' => some '"'
  | '\\' => some '\\'
  | '/' => some '/'
  | 'b' => some '\x08'
  | 'f' => some '\x0c'
  | 'n' => some '\n'
  | 'r' => some '\r'
  | 't' => some '\t'
  | _ => none

/-- The piece that a backslash followed by `s` gives, and the rest of the text. -/
def readEscape (s : Text) : Option (Unit16 × Text) :=
  match s with
  | [] => none
  | c :: cs =>
    if c = 'u' then
      if (cs.take 4).length = 4 then
        (Text.hexValue? 0 (cs.take 4)).map fun n => (.escaped n, cs.drop 4)
      else none
    else (simpleEscape? c).map fun d => (.plain d, cs)

theorem readEscape_length_lt {s rest : Text} {u : Unit16}
    (h : readEscape s = some (u, rest)) : rest.length < s.length := by
  unfold readEscape at h
  split at h
  · simp at h
  · split at h
    · split at h
      · obtain ⟨n, -, he⟩ := Option.map_eq_some_iff.1 h
        simp only [Prod.mk.injEq] at he
        rw [← he.2, List.length_drop, List.length_cons]
        omega
      · simp at h
    · obtain ⟨n, -, he⟩ := Option.map_eq_some_iff.1 h
      simp only [Prod.mk.injEq] at he
      simp [← he.2]

/-- Reads the pieces of a string after its opening quote. -/
def readUnits (s : Text) : Option (List Unit16 × Text) :=
  match s with
  | [] => none
  | c :: cs =>
    if c = '"' then some ([], cs)
    else if c = '\\' then
      match _h : readEscape cs with
      | none => none
      | some (u, rest) => (readUnits rest).map fun r => (u :: r.1, r.2)
    else if c.toNat < 0x20 then none
    else (readUnits cs).map fun r => (.plain c :: r.1, r.2)
termination_by s.length
decreasing_by
  · have := readEscape_length_lt _h
    simp
    omega
  · simp

/-- The character of a surrogate pair. -/
def pairChar? (high low : Nat) : Option Char :=
  if 0xD800 ≤ high ∧ high < 0xDC00 ∧ 0xDC00 ≤ low ∧ low < 0xE000 then
    Text.charOf? (0x10000 + (high - 0xD800) * 0x400 + (low - 0xDC00))
  else none

/-- The text that the pieces of a string make, if every surrogate has its partner. -/
def joinUnits : List Unit16 → Option Text
  | [] => some []
  | .plain c :: us => (joinUnits us).map (c :: ·)
  | [.escaped n] => (Text.charOf? n).map fun c => [c]
  | .escaped n :: u :: us =>
    match Text.charOf? n with
    | some c => (joinUnits (u :: us)).map (c :: ·)
    | none =>
      match u with
      | .plain _ => none
      | .escaped m => (pairChar? n m).bind fun c => (joinUnits us).map (c :: ·)

/-- Whether a character is a decimal digit. -/
def isDigit (c : Char) : Bool :=
  48 ≤ c.toNat && c.toNat ≤ 57

/-- Reads one or more digits. -/
def readDigits (s : Text) : Option (Text × Text) :=
  match s.takeWhile isDigit with
  | [] => none
  | d :: ds => some (d :: ds, s.dropWhile isDigit)

/-- Reads the digits before the point: a single zero, or digits that do not start with zero. -/
def readInteger (s : Text) : Option (Text × Text) :=
  match s with
  | '0' :: rest => some (['0'], rest)
  | _ => readDigits s

/-- Reads the point and the digits after it, if there is a point. -/
def readFraction (s : Text) : Option (Text × Text) :=
  match s with
  | '.' :: rest => (readDigits rest).map fun r => ('.' :: r.1, r.2)
  | _ => some ([], s)

/-- Reads an optional sign. -/
def readSign (s : Text) : Text × Text :=
  match s with
  | '+' :: rest => (['+'], rest)
  | '-' :: rest => (['-'], rest)
  | _ => ([], s)

/-- Reads the exponent, if there is one. -/
def readExponent (s : Text) : Option (Text × Text) :=
  match s with
  | [] => some ([], [])
  | c :: rest =>
    if c = 'e' ∨ c = 'E' then
      let sign := readSign rest
      (readDigits sign.2).map fun r => (c :: sign.1 ++ r.1, r.2)
    else some ([], s)

/-- Reads a number. -/
def readNumber (s : Text) : Option (Text × Text) :=
  let minus := s.takeWhile fun c => c = '-'
  if minus.length ≤ 1 then do
    let (whole, rest) ← readInteger (s.dropWhile fun c => c = '-')
    let (fraction, rest) ← readFraction rest
    let (exponent, rest) ← readExponent rest
    return (minus ++ whole ++ fraction ++ exponent, rest)
  else none

/-- The values that are spelled by a word. -/
def words : List (Text × Json) :=
  [("null".toList, .null), ("true".toList, .bool true), ("false".toList, .bool false)]

/-- Reads a value that is neither a string nor a container. -/
def readScalar (s : Text) : Option (Json × Text) :=
  match words.find? fun w => w.1.isPrefixOf s with
  | some w => some (w.2, s.drop w.1.length)
  | none => (readNumber s).map fun r => (.number r.1, r.2)

/-- A piece of a JSON text. -/
inductive Token where
  | openArray
  | closeArray
  | openObject
  | closeObject
  | comma
  | colon
  /-- A string and its text, if it has one. -/
  | string (text? : Option Text)
  /-- A value that is neither a string nor a container. -/
  | scalar (v : Json)

/-- The piece that a punctuation character makes. -/
def punctuation? : Char → Option Token
  | '[' => some .openArray
  | ']' => some .closeArray
  | '\x7b' => some .openObject
  | '\x7d' => some .closeObject
  | ',' => some .comma
  | ':' => some .colon
  | _ => none

/-- Reads the piece that starts with `c`. -/
def readToken (c : Char) (s : Text) : Option (Token × Text) :=
  match punctuation? c with
  | some t => some (t, s)
  | none =>
    if c = '"' then (readUnits s).map fun r => (.string (joinUnits r.1), r.2)
    else (readScalar (c :: s)).map fun r => (.scalar r.1, r.2)

theorem readUnits_length_lt {s rest : Text} {us : List Unit16}
    (h : readUnits s = some (us, rest)) : rest.length < s.length := by
  fun_induction readUnits s generalizing us rest with
  | case1 => simp at h
  | case2 => simp_all
  | case3 => simp at h
  | case4 cs u t hu hq ih =>
    obtain ⟨r, hr, he⟩ := Option.map_eq_some_iff.1 h
    have h₁ := @ih r.2 r.1 hr
    have h₂ := readEscape_length_lt hu
    simp only [Prod.mk.injEq] at he
    simp [← he.2]
    omega
  | case5 => simp at h
  | case6 c cs _ _ _ ih =>
    obtain ⟨r, hr, he⟩ := Option.map_eq_some_iff.1 h
    have h₁ := @ih r.2 r.1 hr
    simp only [Prod.mk.injEq] at he
    simp [← he.2]
    omega

theorem readDigits_length_lt {s ds rest : Text} (h : readDigits s = some (ds, rest)) :
    rest.length < s.length := by
  have hs := congrArg List.length (List.takeWhile_append_dropWhile (p := isDigit) (l := s))
  unfold readDigits at h
  split at h
  · simp at h
  · rename_i d ds' ht
    simp only [Option.some.injEq, Prod.mk.injEq] at h
    rw [ht, h.2, List.length_append] at hs
    simp at hs
    omega

theorem readInteger_length_lt {s ds rest : Text} (h : readInteger s = some (ds, rest)) :
    rest.length < s.length := by
  unfold readInteger at h
  split at h
  · simp_all
  · exact readDigits_length_lt h

theorem readFraction_length_le {s ds rest : Text} (h : readFraction s = some (ds, rest)) :
    rest.length ≤ s.length := by
  unfold readFraction at h
  split at h
  · rename_i rest'
    obtain ⟨r, hr, he⟩ := Option.map_eq_some_iff.1 h
    have := readDigits_length_lt hr
    simp only [Prod.mk.injEq] at he
    simp [← he.2]
    omega
  · simp_all

theorem readSign_length_le (s : Text) : (readSign s).2.length ≤ s.length := by
  unfold readSign
  split <;> simp

theorem readExponent_length_le {s ds rest : Text} (h : readExponent s = some (ds, rest)) :
    rest.length ≤ s.length := by
  unfold readExponent at h
  split at h
  · simp_all
  · split at h
    · obtain ⟨r, hr, he⟩ := Option.map_eq_some_iff.1 h
      have h₁ := readDigits_length_lt hr
      rename_i c rest' _
      have h₂ := readSign_length_le rest'
      simp only [Prod.mk.injEq] at he
      simp [← he.2]
      omega
    · simp_all

theorem readNumber_length_lt {s n rest : Text} (h : readNumber s = some (n, rest)) :
    rest.length < s.length := by
  unfold readNumber at h
  simp only at h
  split at h
  · simp only [bind, Option.bind_eq_some_iff] at h
    obtain ⟨r₁, h₁, r₂, h₂, r₃, h₃, he⟩ := h
    have l₀ := (List.dropWhile_sublist (p := fun c => decide (c = '-')) (l := s)).length_le
    have l₁ := readInteger_length_lt h₁
    have l₂ := readFraction_length_le h₂
    have l₃ := readExponent_length_le h₃
    simp only [pure, Option.some.injEq, Prod.mk.injEq] at he
    rw [← he.2]
    omega
  · simp at h

theorem readScalar_length_lt {s rest : Text} {v : Json} (h : readScalar s = some (v, rest)) :
    rest.length < s.length := by
  unfold readScalar at h
  split at h
  · rename_i w hw
    have hw' : w.1.isPrefixOf s = true := by
      have := List.find?_some hw
      exact this
    have hp := (List.isPrefixOf_iff_prefix.1 hw').length_le
    have hl : 0 < w.1.length := by
      have : ∀ w ∈ words, 0 < w.1.length := by decide
      exact this w (List.mem_of_find?_eq_some hw)
    simp only [Option.some.injEq, Prod.mk.injEq] at h
    rw [← h.2, List.length_drop]
    omega
  · obtain ⟨r, hr, he⟩ := Option.map_eq_some_iff.1 h
    simp only [Prod.mk.injEq] at he
    rw [← he.2]
    exact readNumber_length_lt hr

theorem readToken_length_le {c : Char} {s rest : Text} {t : Token}
    (h : readToken c s = some (t, rest)) : rest.length ≤ s.length := by
  unfold readToken at h
  split at h
  · simp_all
  · split at h
    · obtain ⟨r, hr, he⟩ := Option.map_eq_some_iff.1 h
      simp only [Prod.mk.injEq] at he
      have := readUnits_length_lt hr
      rw [← he.2]
      omega
    · obtain ⟨r, hr, he⟩ := Option.map_eq_some_iff.1 h
      simp only [Prod.mk.injEq] at he
      have := readScalar_length_lt hr
      rw [List.length_cons] at this
      rw [← he.2]
      omega

/-- The pieces of a text, if it is made of nothing else. -/
def tokens? (s : Text) : Option (List Token) :=
  match s with
  | [] => some []
  | c :: cs =>
    if isSpace c then tokens? cs
    else
      match _h : readToken c cs with
      | none => none
      | some (t, rest) => (tokens? rest).map (t :: ·)
termination_by s.length
decreasing_by
  · simp
  · have := readToken_length_le _h
    simp
    omega

end CatalogueSync.Json
