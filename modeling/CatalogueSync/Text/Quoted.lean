import CatalogueSync.Text.Basic

/-!
# Quoted literals

A quoted literal starts with a single or a double quote and runs to the next quote of the same
kind; a backslash takes the character after it into the literal. `quoted?` splits a text after
the literal at its start. `decodeEscapes` turns the inside of a literal into the text it stands
for: it knows `\n`, `\t`, `\r`, `\0`, an escaped backslash or quote, and the hexadecimal forms
`\xHH`, `\uHHHH` and `\UHHHHHHHH`; every other backslash stands for itself.
-/

set_option autoImplicit false

namespace CatalogueSync.Text

/-- The characters that open a quoted literal. -/
def isQuote (c : Char) : Bool :=
  c == '\'' || c == '"'

/-- The inside of a literal and what follows its closing quote `q`, for the text after the
opening quote. -/
def splitClosing (q : Char) : Text → Option (Text × Text)
  | [] => none
  | c :: cs =>
    if c = '\\' then
      match cs with
      | [] => none
      | d :: ds => (splitClosing q ds).map fun r => (c :: d :: r.1, r.2)
    else if c = q then some ([], cs)
    else (splitClosing q cs).map fun r => (c :: r.1, r.2)

/-- The inside of the quoted literal that a text starts with, and the text after it. -/
def quoted? : Text → Option (Text × Text)
  | [] => none
  | c :: cs => if isQuote c then splitClosing c cs else none

/-- The value of a hexadecimal digit. -/
def hexDigit? (c : Char) : Option Nat :=
  let n := c.toNat
  if 48 ≤ n && n ≤ 57 then some (n - 48)
  else if 65 ≤ n && n ≤ 70 then some (n - 55)
  else if 97 ≤ n && n ≤ 102 then some (n - 87)
  else none

/-- The value of a run of hexadecimal digits, on top of the value `n` of the digits before it. -/
def hexValue? (n : Nat) : Text → Option Nat
  | [] => some n
  | c :: cs => (hexDigit? c).bind fun d => hexValue? (16 * n + d) cs

/-- The character with a code point, if there is one. -/
def charOf? (n : Nat) : Option Char :=
  if n.isValidChar then some (Char.ofNat n) else none

/-- The character that exactly `width` hexadecimal digits at the start of a text stand for. -/
def hexChar? (width : Nat) (s : Text) : Option Char :=
  if (s.take width).length = width then (hexValue? 0 (s.take width)).bind charOf? else none

/-- The number of digits after a hexadecimal escape letter. -/
def hexWidth? : Char → Option Nat
  | 'x' => some 2
  | 'u' => some 4
  | 'U' => some 8
  | _ => none

/-- The character that a one-letter escape stands for. -/
def simpleEscape? : Char → Option Char
  | 'n' => some '\n'
  | 't' => some '\t'
  | 'r' => some '\r'
  | '0' => some '\x00'
  | '\\' => some '\\'
  | '\'' => some '\''
  | '"' => some '"'
  | _ => none

/-- What a backslash followed by `s` stands for, and how many characters of `s` that takes. -/
def escape (s : Text) : Text × Nat :=
  match s with
  | [] => (['\\'], 0)
  | c :: cs =>
    match simpleEscape? c with
    | some d => ([d], 1)
    | none =>
      match (hexWidth? c).bind fun width => (hexChar? width cs).map fun d => (d, width) with
      | some (d, width) => ([d], 1 + width)
      | none => (['\\', c], 1)

/-- Decodes the text after its first `skip` characters, which an escape has used up. -/
def decodeFrom : Nat → Text → Text
  | _, [] => []
  | skip + 1, _ :: cs => decodeFrom skip cs
  | 0, c :: cs =>
    if c = '\\' then
      let e := escape cs
      e.1 ++ decodeFrom e.2 cs
    else c :: decodeFrom 0 cs

/-- The text that the inside of a quoted literal stands for. -/
def decodeEscapes (s : Text) : Text :=
  decodeFrom 0 s

theorem splitClosing_eq {q : Char} {s inner rest : Text}
    (h : splitClosing q s = some (inner, rest)) : s = inner ++ q :: rest := by
  fun_induction splitClosing q s generalizing inner rest with
  | case1 => simp at h
  | case2 => simp at h
  | case3 c ds ih =>
    obtain ⟨r, hr, he⟩ := Option.map_eq_some_iff.1 h
    simp only [Prod.mk.injEq] at he
    obtain ⟨rfl, rfl⟩ := he
    simp [ih hr]
  | case4 cs => simp_all
  | case5 c cs _ _ ih =>
    obtain ⟨r, hr, he⟩ := Option.map_eq_some_iff.1 h
    simp only [Prod.mk.injEq] at he
    obtain ⟨rfl, rfl⟩ := he
    simp [ih hr]

theorem splitClosing_length_lt {q : Char} {s inner rest : Text}
    (h : splitClosing q s = some (inner, rest)) : rest.length < s.length := by
  rw [splitClosing_eq h]
  simp
  omega

theorem quoted?_length_lt {s inner rest : Text} (h : quoted? s = some (inner, rest)) :
    rest.length < s.length := by
  cases s with
  | nil => simp [quoted?] at h
  | cons c cs =>
    simp only [quoted?] at h
    split at h
    · have := splitClosing_length_lt h
      simp
      omega
    · simp at h

end CatalogueSync.Text
