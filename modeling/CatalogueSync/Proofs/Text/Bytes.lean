import CatalogueSync.Text.Order

/-!
# The bytes of texts

Where directories are read, names are compared by their bytes in UTF-8. That is the order of their
characters (`Text.compareBytes_eq`): the first byte of a character grows with it, and where it does
not the digits in the other bytes do.

Where texts are searched for ASCII characters, their bytes can be searched as well: such a character
is its own byte (`Text.encode_of_isAscii`), and no byte of any other character is one of these
(`Text.isHigh_of_mem_encode`).
-/

set_option autoImplicit false

namespace CatalogueSync

namespace Text

/-- The bytes of a text in UTF-8. -/
def bytes (s : Text) : List UInt8 :=
  s.flatMap String.utf8EncodeChar

/-- Texts in the order of their bytes. -/
def compareBytes (s t : Text) : Ordering :=
  List.compareLex Ord.compare s.bytes t.bytes

/-- Lists of texts in the order of the bytes of each text. -/
def compareAllBytes : List Text → List Text → Ordering :=
  List.compareLex compareBytes

/-- The number of bytes of a code point after the first. -/
def extraBytes (n : Nat) : Nat :=
  if n ≤ 0x7f then 0 else if n ≤ 0x7ff then 1 else if n ≤ 0xffff then 2 else 3

/-- A number without its last digits to base 64. -/
def dropDigits : Nat → Nat → Nat
  | 0, n => n
  | k + 1, n => dropDigits k n / 64

/-- The first byte of a code point. -/
def firstByte (n : Nat) : Nat :=
  if n ≤ 0x7f then n
  else if n ≤ 0x7ff then dropDigits 1 n + 0xc0
  else if n ≤ 0xffff then dropDigits 2 n + 0xe0
  else dropDigits 3 n + 0xf0

/-- The last digits of a code point to base 64, as bytes. -/
def digitBytes : Nat → Nat → List UInt8
  | 0, _ => []
  | k + 1, n => UInt8.ofNat (dropDigits k n % 64 + 0x80) :: digitBytes k n

theorem toNat_lt (c : Char) : c.toNat < 0x110000 := by
  have hvalid := c.valid
  simp only [UInt32.isValidChar, Nat.isValidChar] at hvalid
  change c.val.toNat < _
  omega

theorem encode_eq (c : Char) :
    String.utf8EncodeChar c =
      UInt8.ofNat (firstByte c.toNat) :: digitBytes (extraBytes c.toNat) c.toNat := by
  have hmax := toNat_lt c
  unfold String.utf8EncodeChar firstByte extraBytes
  rw [show c.val.toNat = c.toNat from rfl]
  generalize c.toNat = n at *
  by_cases h₁ : n ≤ 0x7f
  · simp [h₁, digitBytes]
  by_cases h₂ : n ≤ 0x7ff
  · have hdigit : n / 64 % 32 = n / 64 := by omega
    simp [h₁, h₂, digitBytes, dropDigits, hdigit]
  by_cases h₃ : n ≤ 0xffff
  · have hdigit : n / 4096 % 16 = n / 4096 := by omega
    simp [h₁, h₂, h₃, digitBytes, dropDigits, hdigit, Nat.div_div_eq_div_mul]
  · have hdigit : n / 262144 % 8 = n / 262144 := by omega
    simp [h₁, h₂, h₃, digitBytes, dropDigits, hdigit, Nat.div_div_eq_div_mul]

theorem firstByte_lt (c : Char) : firstByte c.toNat < UInt8.size := by
  have hmax := toNat_lt c
  simp only [firstByte, dropDigits, UInt8.size]
  repeat' split
  all_goals omega

/-- A later code point has a greater first byte, or the same one and the same digits in it. -/
theorem firstByte_of_lt {m n : Nat} (h : m < n) :
    firstByte m < firstByte n ∨ firstByte m = firstByte n ∧ extraBytes m = extraBytes n ∧
      dropDigits (extraBytes m) m = dropDigits (extraBytes n) n := by
  unfold firstByte extraBytes
  repeat' split
  all_goals
    simp only [dropDigits, true_and]
    omega

theorem dropDigits_le {m n : Nat} (h : m ≤ n) (k : Nat) : dropDigits k m ≤ dropDigits k n := by
  induction k with
  | zero => exact h
  | succ k ih => exact Nat.div_le_div_right ih

theorem compareLex_ofNat_cons {x y : Nat} (hx : x < UInt8.size) (hy : y < UInt8.size)
    {s t : List UInt8} :
    List.compareLex Ord.compare (UInt8.ofNat x :: s) (UInt8.ofNat y :: t) = .lt ↔
      x < y ∨ x = y ∧ List.compareLex Ord.compare s t = .lt := by
  have heq : UInt8.ofNat x = UInt8.ofNat y ↔ x = y := by
    rw [← UInt8.toNat_inj, UInt8.toNat_ofNat_of_lt' hx, UInt8.toNat_ofNat_of_lt' hy]
  rw [List.compareLex_cons_cons, Ordering.then_eq_lt, Std.compare_eq_lt,
    UInt8.ofNat_lt_iff_lt hx hy, Std.compare_eq_iff_eq, heq]

/-- Where the digits before them are the same, the last digits of a later code point come later. -/
theorem compareLex_digitBytes {m n : Nat} (h : m < n) (k : Nat)
    (heq : dropDigits k m = dropDigits k n) (s t : List UInt8) :
    List.compareLex Ord.compare (digitBytes k m ++ s) (digitBytes k n ++ t) = .lt := by
  induction k with
  | zero =>
    rw [dropDigits, dropDigits] at heq
    omega
  | succ k ih =>
    have hle := dropDigits_le (Nat.le_of_lt h) k
    rw [dropDigits, dropDigits] at heq
    rw [digitBytes, digitBytes, List.cons_append, List.cons_append,
      compareLex_ofNat_cons (by rw [UInt8.size]; omega) (by rw [UInt8.size]; omega)]
    rcases Nat.lt_or_eq_of_le hle with hlt | hsame
    · left
      omega
    · exact .inr ⟨by rw [hsame], ih hsame⟩

/-- The bytes of a character precede those of a later one, whatever follows. -/
theorem compareLex_encode_of_lt {a b : Char} (h : a.toNat < b.toNat) (s t : List UInt8) :
    List.compareLex Ord.compare (String.utf8EncodeChar a ++ s) (String.utf8EncodeChar b ++ t) =
      .lt := by
  rw [encode_eq, encode_eq, List.cons_append, List.cons_append,
    compareLex_ofNat_cons (firstByte_lt a) (firstByte_lt b)]
  refine (firstByte_of_lt h).imp_right fun ⟨hfirst, hextra, hdigits⟩ => ⟨hfirst, ?_⟩
  rw [hextra] at hdigits ⊢
  exact compareLex_digitBytes h _ hdigits s t

theorem compareLex_append_left {α : Type} {cmp : α → α → Ordering} [Std.ReflCmp cmp]
    (p s t : List α) : List.compareLex cmp (p ++ s) (p ++ t) = List.compareLex cmp s t := by
  induction p with
  | nil => rfl
  | cons b p ih =>
    have hself : cmp b b = .eq := Std.ReflCmp.compare_self
    rw [List.cons_append, List.cons_append, List.compareLex_cons_cons, hself, ih]
    rfl

theorem compareBytes_cons (a b : Char) (s t : Text) :
    compareBytes (a :: s) (b :: t) = (compareChars a b).then (compareBytes s t) := by
  unfold compareBytes bytes
  rw [List.flatMap_cons, List.flatMap_cons]
  unfold compareChars
  split
  · rename_i hlt
    exact compareLex_encode_of_lt hlt _ _
  · rename_i hnot
    split
    · rename_i heq
      rw [heq, compareLex_append_left]
      rfl
    · rename_i hne
      have hgt : b.toNat < a.toNat := by
        have hne' : a.toNat ≠ b.toNat := fun h => hne (Char.toNat_inj.1 h)
        omega
      have hswap (u v : List UInt8) : List.compareLex Ord.compare u v =
          (List.compareLex Ord.compare v u).swap := Std.OrientedCmp.eq_swap
      rw [hswap, compareLex_encode_of_lt hgt]
      rfl

/-- Texts come in the order of their bytes as in that of their characters. -/
theorem compareBytes_eq (s t : Text) : compareBytes s t = compare s t := by
  induction s generalizing t with
  | nil =>
    cases t with
    | nil => rfl
    | cons b t =>
      rw [compareBytes, bytes, bytes, List.flatMap_cons, encode_eq]
      rfl
  | cons a s ih =>
    cases t with
    | nil =>
      rw [compareBytes, bytes, bytes, List.flatMap_cons, encode_eq]
      rfl
    | cons b t => rw [compareBytes_cons, ih, compare, List.compareLex_cons_cons]

theorem compareAllBytes_eq : compareAllBytes = compareAll := by
  rw [compareAllBytes, compareAll,
    show compareBytes = compare from funext fun s => funext (compareBytes_eq s)]

section ascii

variable {c d : Char} {s t : Text}

/-- The characters of one byte. -/
def IsAscii (c : Char) : Prop :=
  c.toNat ≤ 0x7f

instance : DecidablePred IsAscii := fun c => inferInstanceAs (Decidable (c.toNat ≤ 0x7f))

/-- The bytes of the other characters. -/
def IsHigh (b : UInt8) : Prop :=
  0x80 ≤ b.toNat

@[simp]
theorem bytes_nil : bytes [] = [] := rfl

theorem bytes_cons (c : Char) (s : Text) : bytes (c :: s) = String.utf8EncodeChar c ++ bytes s :=
  List.flatMap_cons

@[simp]
theorem bytes_append (s t : Text) : bytes (s ++ t) = bytes s ++ bytes t :=
  List.flatMap_append

@[simp]
theorem length_bytes (s : Text) : s.bytes.length = s.byteLength := by
  induction s with
  | nil => rfl
  | cons c s ih =>
    rw [bytes_cons, List.length_append, String.length_utf8EncodeChar, ih]
    rfl

theorem encode_of_isAscii (hc : IsAscii c) : String.utf8EncodeChar c = [c.toUInt8] := by
  have hle : c.toNat ≤ 0x7f := hc
  rw [encode_eq, firstByte, extraBytes, if_pos hle, if_pos hle]
  rfl

theorem toNat_toUInt8 (hc : IsAscii c) : c.toUInt8.toNat = c.toNat := by
  have hlt : c.toNat < UInt8.size := Nat.lt_of_le_of_lt hc (by decide)
  exact UInt8.toNat_ofNat_of_lt' hlt

theorem toUInt8_inj (hc : IsAscii c) (hd : IsAscii d) : c.toUInt8 = d.toUInt8 ↔ c = d := by
  rw [← UInt8.toNat_inj, toNat_toUInt8 hc, toNat_toUInt8 hd, Char.toNat_inj]

theorem not_isHigh_toUInt8 (hc : IsAscii c) : ¬IsHigh c.toUInt8 := by
  rw [IsHigh, toNat_toUInt8 hc]
  exact Nat.not_le_of_lt (Nat.lt_succ_of_le hc)

theorem isHigh_of_mem_digitBytes {b : UInt8} {k n : Nat} (hb : b ∈ digitBytes k n) :
    IsHigh b := by
  induction k with
  | zero => cases hb
  | succ k ih =>
    obtain rfl | hb := List.mem_cons.1 hb
    · have hlt : dropDigits k n % 64 + 0x80 < UInt8.size := by
        rw [UInt8.size]
        omega
      rw [IsHigh, UInt8.toNat_ofNat_of_lt' hlt]
      exact Nat.le_add_left ..
    · exact ih hb

theorem isHigh_of_mem_encode (hc : ¬IsAscii c) : ∀ b ∈ String.utf8EncodeChar c, IsHigh b := by
  have hlt : ¬c.toNat ≤ 0x7f := hc
  rw [encode_eq, List.forall_mem_cons]
  refine ⟨?_, fun b hb => isHigh_of_mem_digitBytes hb⟩
  rw [IsHigh, UInt8.toNat_ofNat_of_lt' (firstByte_lt c), firstByte, if_neg hlt]
  split
  · omega
  · split <;> omega

/-- Whether a text starts with an ASCII character can be seen from its first byte. -/
theorem head?_bytes_eq_iff (hc : IsAscii c) :
    s.bytes.head? = some c.toUInt8 ↔ s.head? = some c := by
  cases s with
  | nil => simp
  | cons d s =>
    by_cases hd : IsAscii d
    · rw [bytes_cons, encode_of_isAscii hd, List.singleton_append, List.head?_cons,
        List.head?_cons, Option.some.injEq, Option.some.injEq, toUInt8_inj hd hc]
    · have hhigh := isHigh_of_mem_encode hd
      rw [bytes_cons]
      rw [encode_eq] at hhigh ⊢
      rw [List.cons_append, List.head?_cons, List.head?_cons, Option.some.injEq,
        Option.some.injEq]
      constructor
      · intro h
        rw [h] at hhigh
        exact absurd (hhigh _ List.mem_cons_self) (not_isHigh_toUInt8 hc)
      · rintro rfl
        exact absurd hc hd

/-- Whether a text starts with ASCII characters can be seen from its bytes. -/
theorem bytes_isPrefix_iff (hs : ∀ c ∈ s, IsAscii c) : s.bytes <+: t.bytes ↔ s <+: t := by
  refine ⟨fun h => ?_, fun ⟨r, h⟩ => ⟨bytes r, by rw [← bytes_append, h]⟩⟩
  induction s generalizing t with
  | nil => exact List.nil_prefix
  | cons c s ih =>
    obtain ⟨hc, htail⟩ := List.forall_mem_cons.1 hs
    obtain ⟨r, h⟩ := h
    rw [bytes_cons, encode_of_isAscii hc, List.singleton_append, List.cons_append] at h
    cases t with
    | nil => cases h
    | cons d t =>
      have hhead : (bytes (d :: t)).head? = some c.toUInt8 := by rw [← h, List.head?_cons]
      obtain rfl := Option.some.inj ((head?_bytes_eq_iff hc).1 hhead)
      rw [bytes_cons, encode_of_isAscii hc, List.singleton_append, List.cons.injEq] at h
      exact (List.prefix_cons_inj d).2 (ih htail ⟨r, h.2⟩)

end ascii

end Text

end CatalogueSync
