import CatalogueSync.Proofs.Text.Quoted
import CatalogueSync.Token.Scan

/-!
# Reading a unit

`IsComplete` says that a text is one unit for the reader of units: it starts with an opener, and
the reader stops exactly at its end. This module has the steps of the reader: over a character,
over a run of plain characters, over a whole literal, and at the closer.
-/

set_option autoImplicit false

namespace CatalogueSync

namespace UnitKind

/-- A text that is one unit of a kind, from its opener to its closer. -/
def IsComplete (k : UnitKind) (raw : Text) : Prop :=
  ∃ inside, raw = k.opener ++ inside ∧ splitUnit k none inside = some (inside, [])

@[simp]
theorem closer_isPrefixOf_cons_cons (k : UnitKind) (c d : Char) (s : Text) :
    k.closer.isPrefixOf (c :: d :: s) = (k.closeMark == c && '}' == d) := by
  simp [closer, List.isPrefixOf]

@[simp]
theorem not_closer_isPrefixOf_singleton (k : UnitKind) (c : Char) :
    k.closer.isPrefixOf [c] = false := by
  simp [closer, List.isPrefixOf]

theorem not_closer_isPrefixOf_of_ne {k : UnitKind} {c : Char} (hc : c ≠ k.closeMark)
    (s : Text) : k.closer.isPrefixOf (c :: s) = false := by
  simp [closer, List.isPrefixOf, hc.symm]

theorem not_closer_isPrefixOf_of_isQuote {k : UnitKind} {q : Char} (hq : Text.isQuote q = true)
    (s : Text) : k.closer.isPrefixOf (q :: s) = false := by
  apply not_closer_isPrefixOf_of_ne
  rintro rfl
  cases k <;> exact absurd hq (by decide)

@[simp]
theorem ofMark?_openMark (k : UnitKind) : ofMark? k.openMark = some k := by
  cases k <;> rfl

@[simp]
theorem opened?_opener_append (k : UnitKind) (s : Text) :
    opened? (k.opener ++ s) = some (k, s) := by
  simp [opened?, opener]

end UnitKind

section splitUnit

variable {k : UnitKind} {q : Option Char}

theorem splitUnit_closer (rest : Text) :
    splitUnit k none (k.closer ++ rest) = some (k.closer, rest) := by
  have h : k.closer.isPrefixOf (k.closeMark :: '}' :: rest) = true := by simp
  show splitUnit k none (k.closeMark :: '}' :: rest) = _
  rw [splitUnit, if_pos h]
  rfl

theorem splitUnit_cons {c : Char} {s : Text} (h : k.closer.isPrefixOf (c :: s) = false) :
    splitUnit k none (c :: s) =
      (splitUnit k (if k.quotes && Text.isQuote c then some c else none) s).map fun r =>
        (c :: r.1, r.2) := by
  rw [splitUnit, if_neg (by simp [h])]

/-- The quote that opens a literal in a tag or an output. -/
theorem splitUnit_quote {q : Char} (hk : k.quotes = true) (hq : Text.isQuote q = true)
    (s : Text) :
    splitUnit k none (q :: s) = (splitUnit k (some q) s).map fun r => (q :: r.1, r.2) := by
  have hquotes : (k.quotes && Text.isQuote q) = true := by rw [hk, hq, Bool.and_self]
  rw [splitUnit_cons (UnitKind.not_closer_isPrefixOf_of_isQuote hq s), if_pos hquotes]

theorem splitUnit_quoted_escape (q c : Char) (s : Text) :
    splitUnit k (some q) ('\\' :: c :: s) =
      (splitUnit k (some q) s).map fun r => ('\\' :: c :: r.1, r.2) := by
  rw [splitUnit.eq_def]
  simp

theorem splitUnit_quoted_cons {q c : Char} (hc : c ≠ '\\') (s : Text) :
    splitUnit k (some q) (c :: s) =
      (splitUnit k (if c = q then none else some q) s).map fun r => (c :: r.1, r.2) := by
  rw [splitUnit.eq_def]
  simp [hc]

/-- Characters that neither close a unit nor open a literal are passed over. -/
theorem splitUnit_append_of_plain {p : Text}
    (hp : ∀ c ∈ p, c ≠ k.closeMark ∧ Text.isQuote c = false) (s : Text) :
    splitUnit k none (p ++ s) = (splitUnit k none s).map fun r => (p ++ r.1, r.2) := by
  induction p with
  | nil => simp
  | cons c p ih =>
    have hc := hp c List.mem_cons_self
    have ih := ih fun d hd => hp d (List.mem_cons_of_mem c hd)
    rw [List.cons_append, splitUnit_cons (UnitKind.not_closer_isPrefixOf_of_ne hc.1 _), hc.2,
      Bool.and_false, if_neg Bool.false_ne_true, ih, Option.map_map]
    rfl

/-- The inside of a literal and its closing quote are passed over. -/
theorem splitUnit_append_of_literalBody {q : Char} {body : Text} (hq : q ≠ '\\')
    (hbody : Text.LiteralBody q body) (s : Text) :
    splitUnit k (some q) (body ++ q :: s) =
      (splitUnit k none s).map fun r => (body ++ q :: r.1, r.2) := by
  induction hbody with
  | nil =>
    rw [List.nil_append, splitUnit_quoted_cons hq, if_pos rfl]
    rfl
  | plain hslash hquote _ ih =>
    rw [List.cons_append, splitUnit_quoted_cons hslash, if_neg hquote, ih, Option.map_map]
    rfl
  | escaped _ ih =>
    rw [List.cons_append, List.cons_append, splitUnit_quoted_escape, ih, Option.map_map]
    rfl

/-- A whole literal is passed over. -/
theorem splitUnit_literal {q : Char} {body : Text} (hk : k.quotes = true)
    (hq : Text.isQuote q = true) (hbody : Text.LiteralBody q body) (s : Text) :
    splitUnit k none (q :: (body ++ q :: s)) =
      (splitUnit k none s).map fun r => (q :: (body ++ q :: r.1), r.2) := by
  rw [splitUnit_quote hk hq,
    splitUnit_append_of_literalBody (Text.ne_backslash_of_isQuote hq) hbody, Option.map_map]
  rfl

/-- A literal that is never closed leaves the unit around it open. -/
theorem splitUnit_eq_none_of_literalBody {q : Char} {s : Text} (h : Text.LiteralBody q s) :
    splitUnit k (some q) s = none := by
  induction h with
  | nil => rfl
  | plain hslash hquote _ ih => rw [splitUnit_quoted_cons hslash, if_neg hquote, ih]; rfl
  | escaped _ ih => rw [splitUnit_quoted_escape, ih]; rfl

end splitUnit

end CatalogueSync
