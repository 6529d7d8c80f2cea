/-!
# Texts

A text is the list of its characters. This module holds the character classes and the small
operations on texts that the template language, the catalogue format and the file names share:
trimming, searching, the length in bytes and the decimal spelling of a number.

Whitespace is the Unicode property `White_Space`, control characters are the Unicode category
`Cc`; both are finite sets of code points and are written out here.
-/

set_option autoImplicit false

namespace CatalogueSync

/-- A text, as the list of its characters. -/
abbrev Text := List Char

namespace Text

/-- The characters with the Unicode property `White_Space`. -/
def isSpace (c : Char) : Bool :=
  let n := c.toNat
  (9 ≤ n && n ≤ 13) || n == 0x20 || n == 0x85 || n == 0xA0 || n == 0x1680 ||
    (0x2000 ≤ n && n ≤ 0x200A) || n == 0x2028 || n == 0x2029 || n == 0x202F || n == 0x205F ||
    n == 0x3000

/-- The control characters, Unicode category `Cc`. -/
def isControl (c : Char) : Bool :=
  let n := c.toNat
  n < 0x20 || (0x7F ≤ n && n < 0xA0)

/-- A text without its leading whitespace. -/
def trimStart (s : Text) : Text :=
  s.dropWhile isSpace

/-- A text without its trailing whitespace. -/
def trimEnd (s : Text) : Text :=
  (s.reverse.dropWhile isSpace).reverse

/-- A text without whitespace at either end. -/
def trim (s : Text) : Text :=
  trimEnd (trimStart s)

/-- A text of whitespace only. -/
def isBlank (s : Text) : Bool :=
  s.all isSpace

/-- Whether `needle` occurs somewhere in a text. -/
def contains (needle : Text) : Text → Bool
  | [] => needle.isEmpty
  | c :: s => needle.isPrefixOf (c :: s) || contains needle s

/-- The decimal digits of a number. -/
def ofNat (n : Nat) : Text :=
  Nat.toDigits 10 n

/-- The number of bytes of a text in UTF-8. -/
def byteLength (s : Text) : Nat :=
  s.foldr (fun c n => c.utf8Size + n) 0

/-- A text cut at a position in bytes, if that is no place inside of a character. -/
def splitBytes? : Nat → Text → Option (Text × Text)
  | 0, s => some ([], s)
  | _ + 1, [] => none
  | n + 1, c :: s =>
    if c.utf8Size ≤ n + 1 then
      (splitBytes? (n + 1 - c.utf8Size) s).map fun r => (c :: r.1, r.2)
    else none

/-- The number of line ends in a text. -/
def newlines (s : Text) : Nat :=
  s.count '\n'

theorem isDigit_of_mem_ofNat {n : Nat} {c : Char} (h : c ∈ ofNat n) : c.isDigit = true :=
  Nat.isDigit_of_mem_toDigits (by decide) (by decide) h

/-- Different numbers are spelled differently. -/
theorem ofNat_inj {m n : Nat} (h : ofNat m = ofNat n) : m = n :=
  calc
    m = Nat.ofDigitChars 10 (ofNat m) 0 := Nat.ofDigitChars_ten_toDigits.symm
    _ = Nat.ofDigitChars 10 (ofNat n) 0 := by rw [h]
    _ = n := Nat.ofDigitChars_ten_toDigits

@[simp]
theorem trimStart_nil : trimStart [] = [] := rfl

@[simp]
theorem trim_nil : trim [] = [] := rfl

theorem trimStart_length_le (s : Text) : (trimStart s).length ≤ s.length := by
  simpa [trimStart] using (List.dropWhile_sublist (p := isSpace) (l := s)).length_le

@[simp]
theorem byteLength_nil : byteLength [] = 0 := rfl

theorem byteLength_cons (c : Char) (s : Text) : byteLength (c :: s) = c.utf8Size + byteLength s :=
  rfl

@[simp]
theorem byteLength_append (s t : Text) : byteLength (s ++ t) = byteLength s + byteLength t := by
  induction s with
  | nil => simp
  | cons c s ih => rw [List.cons_append, byteLength_cons, byteLength_cons, ih, Nat.add_assoc]

theorem splitBytes?_append (s t : Text) : splitBytes? (byteLength s) (s ++ t) = some (s, t) := by
  induction s with
  | nil => simp [splitBytes?]
  | cons c s ih =>
    have hpos := c.utf8Size_pos
    have hlength : byteLength (c :: s) = byteLength s + c.utf8Size - 1 + 1 := by
      rw [byteLength_cons]
      omega
    rw [hlength, List.cons_append, splitBytes?, if_pos (by omega),
      show byteLength s + c.utf8Size - 1 + 1 - c.utf8Size = byteLength s by omega, ih]
    rfl

@[simp]
theorem newlines_append (s t : Text) : newlines (s ++ t) = newlines s + newlines t := by
  simp [newlines]

end Text

end CatalogueSync
