import CatalogueSync.Text.Quoted
import CatalogueSync.Token.Basic

/-!
# Scanning

`scan` cuts a text into tokens and never fails. Plain text runs to the next opener; a unit runs
to its first closer, where tags and outputs skip closers inside quoted literals. A unit whose
closer never comes takes the rest of the text and becomes a text token, so that it can never
pass for a closing tag.

The main facts: the first lexeme and the rest make up the text (`nextLexeme_append`), and the
first lexeme of a text that is not empty is not empty (`nextLexeme_raw_ne_nil`).
-/

set_option autoImplicit false

namespace CatalogueSync

/-- The unit whose opener a text starts with, and the text after the opener. -/
def opened? : Text → Option (UnitKind × Text)
  | '{' :: c :: rest => (UnitKind.ofMark? c).map fun k => (k, rest)
  | _ => none

/-- The longest run of plain text at the start of a text, and the rest, which is empty or starts
with an opener. -/
def splitRun : Text → Text × Text
  | [] => ([], [])
  | c :: cs =>
    match opened? (c :: cs) with
    | some _ => ([], c :: cs)
    | none =>
      let r := splitRun cs
      (c :: r.1, r.2)

/-- The inside of a unit up to and including its closer, and the text after it. The second
argument is the quote of the literal that the text is inside of, if it is inside one. -/
def splitUnit (k : UnitKind) : Option Char → Text → Option (Text × Text)
  | _, [] => none
  | none, c :: cs =>
    if k.closer.isPrefixOf (c :: cs) then some (k.closer, cs.tail)
    else
      (splitUnit k (if k.quotes && Text.isQuote c then some c else none) cs).map fun r =>
        (c :: r.1, r.2)
  | some q, c :: cs =>
    if c = '\\' then
      match cs with
      | [] => none
      | d :: ds => (splitUnit k (some q) ds).map fun r => (c :: d :: r.1, r.2)
    else (splitUnit k (if c = q then none else some q) cs).map fun r => (c :: r.1, r.2)

/-- A piece of a text and what follows it. -/
structure Lexeme where
  kind : TokenKind
  raw : Text
  rest : Text

/-- The first piece of a text. -/
def nextLexeme (s : Text) : Lexeme :=
  match opened? s with
  | some (k, inside) =>
    match splitUnit k none inside with
    | some (u, rest) => ⟨.unit k, k.opener ++ u, rest⟩
    | none => ⟨.text, s, []⟩
  | none => ⟨.text, (splitRun s).1, (splitRun s).2⟩

theorem opened?_eq {s : Text} {k : UnitKind} {inside : Text} (h : opened? s = some (k, inside)) :
    s = k.opener ++ inside := by
  unfold opened? at h
  split at h
  · rename_i c rest
    obtain ⟨k', hk, he⟩ := Option.map_eq_some_iff.1 h
    simp only [Prod.mk.injEq] at he
    obtain ⟨rfl, rfl⟩ := he
    simp [UnitKind.opener, UnitKind.eq_openMark_of_ofMark? hk]
  · simp at h

theorem splitRun_append (s : Text) : (splitRun s).1 ++ (splitRun s).2 = s := by
  fun_induction splitRun s with
  | case1 => rfl
  | case2 => rfl
  | case3 c cs _ r ih => simpa using ih

theorem splitUnit_append {k : UnitKind} {q : Option Char} {s u rest : Text}
    (h : splitUnit k q s = some (u, rest)) : u ++ rest = s := by
  fun_induction splitUnit k q s generalizing u rest with
  | case1 => simp at h
  | case2 c cs hc =>
    simp only [Option.some.injEq, Prod.mk.injEq] at h
    obtain ⟨rfl, rfl⟩ := h
    cases cs with
    | nil => simp [UnitKind.closer] at hc
    | cons d ds =>
      simp only [UnitKind.closer, List.isPrefixOf_cons_cons, Bool.and_eq_true, beq_iff_eq] at hc
      obtain ⟨rfl, rfl, -⟩ := hc
      rfl
  | case3 c cs _ ih =>
    obtain ⟨r, hr, he⟩ := Option.map_eq_some_iff.1 h
    simp only [Prod.mk.injEq] at he
    obtain ⟨rfl, rfl⟩ := he
    simp [ih hr]
  | case4 => simp at h
  | case5 q d ds ih =>
    obtain ⟨r, hr, he⟩ := Option.map_eq_some_iff.1 h
    simp only [Prod.mk.injEq] at he
    obtain ⟨rfl, rfl⟩ := he
    simp [ih hr]
  | case6 q c cs _ ih =>
    obtain ⟨r, hr, he⟩ := Option.map_eq_some_iff.1 h
    simp only [Prod.mk.injEq] at he
    obtain ⟨rfl, rfl⟩ := he
    simp [ih hr]

/-- No character is lost or invented between a lexeme and the rest. -/
theorem nextLexeme_append (s : Text) : (nextLexeme s).raw ++ (nextLexeme s).rest = s := by
  unfold nextLexeme
  split
  · rename_i k inside h
    split
    · rename_i u rest hu
      simp [opened?_eq h, splitUnit_append hu]
    · simp
  · simp [splitRun_append]

theorem nextLexeme_raw_ne_nil {s : Text} (h : s ≠ []) : (nextLexeme s).raw ≠ [] := by
  unfold nextLexeme
  split
  · split
    · simp [UnitKind.opener]
    · simpa using h
  · rename_i hn
    cases s with
    | nil => exact absurd rfl h
    | cons c cs => simp [splitRun, hn]

theorem nextLexeme_rest_length_lt {s : Text} (h : s ≠ []) :
    (nextLexeme s).rest.length < s.length := by
  have hlen := congrArg List.length (nextLexeme_append s)
  have hpos := List.length_pos_iff.2 (nextLexeme_raw_ne_nil h)
  simp only [List.length_append] at hlen
  omega

/-- The tokens of a text that starts on a given line. -/
def scanFrom (line : Nat) (s : Text) : List Token :=
  match s with
  | [] => []
  | c :: cs =>
    let l := nextLexeme (c :: cs)
    ⟨l.kind, l.raw, line⟩ :: scanFrom (line + Text.newlines l.raw) l.rest
termination_by s.length
decreasing_by exact nextLexeme_rest_length_lt (List.cons_ne_nil c cs)

/-- The tokens of a text. -/
def scan (s : Text) : List Token :=
  scanFrom 1 s

end CatalogueSync
