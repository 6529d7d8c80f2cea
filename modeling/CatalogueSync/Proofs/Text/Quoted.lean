import CatalogueSync.Text.Quoted

/-!
# The insides of quoted literals

`LiteralBody q` describes what may stand between two quotes `q`, without reference to a reader.
The reader of literals stops right after such an inside (`splitClosing_append`). `ClosesLiterals`
describes the texts whose quotes all open or close a literal; in any other text the last literal
stays open (`closesLiterals_or_exists_open`).
-/

set_option autoImplicit false

namespace CatalogueSync.Text

theorem forall_mem_of_all {p : Char → Prop} [DecidablePred p] {s : Text}
    (h : (s.all fun c => decide (p c)) = true) : ∀ c ∈ s, p c := by
  simpa using h

/-- The inside of a literal between quotes `q`: a backslash takes the next character with it, and
no other character is the quote. -/
inductive LiteralBody (q : Char) : Text → Prop where
  | nil : LiteralBody q []
  | plain {c : Char} {s : Text} (hslash : c ≠ '\\') (hquote : c ≠ q) (hs : LiteralBody q s) :
      LiteralBody q (c :: s)
  | escaped {c : Char} {s : Text} (hs : LiteralBody q s) : LiteralBody q ('\\' :: c :: s)

namespace LiteralBody

variable {q : Char}

theorem append {s t : Text} (hs : LiteralBody q s) (ht : LiteralBody q t) :
    LiteralBody q (s ++ t) := by
  induction hs with
  | nil => exact ht
  | plain hslash hquote _ ih => exact .plain hslash hquote ih
  | escaped _ ih => exact .escaped ih

theorem flatMap {f : Char → Text} (hf : ∀ c, LiteralBody q (f c)) (s : Text) :
    LiteralBody q (s.flatMap f) := by
  induction s with
  | nil => exact .nil
  | cons c s ih => exact (hf c).append ih

/-- Characters that are neither the quote nor a backslash need no escape. -/
theorem of_forall {s : Text} (h : ∀ c ∈ s, c ≠ '\\' ∧ c ≠ q) : LiteralBody q s := by
  induction s with
  | nil => exact .nil
  | cons c s ih =>
    have hc := h c List.mem_cons_self
    exact .plain hc.1 hc.2 (ih fun d hd => h d (List.mem_cons_of_mem c hd))

end LiteralBody

/-- The reader of a literal stops after its inside. -/
theorem splitClosing_append {q : Char} {s : Text} (hq : q ≠ '\\') (hs : LiteralBody q s)
    (rest : Text) : splitClosing q (s ++ q :: rest) = some (s, rest) := by
  induction hs with
  | nil =>
    rw [List.nil_append, splitClosing.eq_def]
    simp [hq]
  | plain hslash hquote _ ih =>
    rw [List.cons_append, splitClosing.eq_def]
    simp [hslash, hquote, ih]
  | escaped _ ih =>
    rw [List.cons_append, List.cons_append, splitClosing.eq_def]
    simp [ih]

/-- A text in which every literal that a quote opens is closed again. -/
inductive ClosesLiterals : Text → Prop where
  | nil : ClosesLiterals []
  | plain {c : Char} {s : Text} (hc : isQuote c = false) (hs : ClosesLiterals s) :
      ClosesLiterals (c :: s)
  | literal {q : Char} {body s : Text} (hq : isQuote q = true) (hbody : LiteralBody q body)
      (hs : ClosesLiterals s) : ClosesLiterals (q :: (body ++ q :: s))

/-- A text that starts with a quote starts with a whole literal. -/
theorem ClosesLiterals.exists_literal {q : Char} {s : Text} (h : ClosesLiterals (q :: s))
    (hq : isQuote q = true) :
    ∃ body rest, s = body ++ q :: rest ∧ LiteralBody q body ∧ ClosesLiterals rest := by
  cases h with
  | plain hc _ =>
    rw [hq] at hc
    cases hc
  | literal _ hbody hs => exact ⟨_, _, rfl, hbody, hs⟩

theorem isSpace_of_isQuote {q : Char} (h : isQuote q = true) : isSpace q = false := by
  simp only [isQuote, Bool.or_eq_true, beq_iff_eq] at h
  obtain rfl | rfl := h <;> decide

theorem ne_backslash_of_isQuote {q : Char} (h : isQuote q = true) : q ≠ '\\' := by
  rintro rfl
  exact absurd h (by decide)

/-- What is before the closing quote is the inside of a literal, and where none comes, a space
only keeps the literal open. -/
theorem literalBody_of_splitClosing (q : Char) (hq : q ≠ ' ') (s : Text) :
    match splitClosing q s with
    | some (inner, _) => LiteralBody q inner
    | none => LiteralBody q (s ++ [' ']) := by
  have hspace : LiteralBody q [' '] := .plain (by decide) hq.symm .nil
  fun_induction splitClosing q s with
  | case1 => exact hspace
  | case2 => exact .escaped .nil
  | case3 d ds ih =>
    cases hsplit : splitClosing q ds with
    | none =>
      rw [hsplit] at ih
      exact .escaped ih
    | some r =>
      rw [hsplit] at ih
      exact .escaped ih
  | case4 => exact .nil
  | case5 c cs hslash hquote ih =>
    cases hsplit : splitClosing q cs with
    | none =>
      rw [hsplit] at ih
      exact .plain hslash hquote ih
    | some r =>
      rw [hsplit] at ih
      exact .plain hslash hquote ih

/-- A text closes its literals, or its last quote opens one that a space after the text does not
close. -/
theorem closesLiterals_or_exists_open (s : Text) :
    ClosesLiterals s ∨ ∃ before q body, s = before ++ q :: body ∧ ClosesLiterals before ∧
      isQuote q = true ∧ LiteralBody q (body ++ [' ']) := by
  induction hlen : s.length using Nat.strongRecOn generalizing s with
  | _ len ih =>
    subst hlen
    cases s with
    | nil => exact .inl .nil
    | cons c cs =>
      cases hc : isQuote c with
      | false =>
        obtain hs | ⟨before, q, body, rfl, hbefore, hopen⟩ := ih cs.length (by simp) cs rfl
        · exact .inl (.plain hc hs)
        · exact .inr ⟨c :: before, q, body, rfl, .plain hc hbefore, hopen⟩
      | true =>
        have hbody := literalBody_of_splitClosing c (by rintro rfl; exact absurd hc (by decide)) cs
        cases hsplit : splitClosing c cs with
        | none =>
          rw [hsplit] at hbody
          exact .inr ⟨[], c, cs, rfl, .nil, hc, hbody⟩
        | some r =>
          obtain ⟨inner, rest⟩ := r
          rw [hsplit] at hbody
          obtain rfl := splitClosing_eq hsplit
          obtain hs | ⟨before, q, body, rfl, hbefore, hopen⟩ :=
            ih rest.length (by simp; omega) rest rfl
          · exact .inl (.literal hc hbody hs)
          · exact .inr ⟨c :: (inner ++ c :: before), q, body, by simp, .literal hc hbody hbefore,
              hopen⟩

theorem decodeFrom_length_append (s t : Text) :
    decodeFrom s.length (s ++ t) = decodeFrom 0 t := by
  induction s with
  | nil => rfl
  | cons c s ih => exact ih

/-- An escape of one letter is decoded as its character. -/
theorem decodeFrom_simpleEscape {c d : Char} (hd : simpleEscape? d = some c) (s : Text) :
    decodeFrom 0 ('\\' :: d :: s) = c :: decodeFrom 0 s := by
  have hescape : escape (d :: s) = ([c], 1) := by simp [escape, hd]
  rw [decodeFrom, if_pos rfl, hescape]
  rfl

theorem decodeFrom_cons {c : Char} (hc : c ≠ '\\') (s : Text) :
    decodeFrom 0 (c :: s) = c :: decodeFrom 0 s := by
  rw [decodeFrom, if_neg hc]

/-- When each character is written so that it is decoded as itself, so is a text. -/
theorem decodeEscapes_flatMap {f : Char → Text}
    (hf : ∀ c s, decodeFrom 0 (f c ++ s) = c :: decodeFrom 0 s) (a : Text) :
    decodeEscapes (a.flatMap f) = a := by
  unfold decodeEscapes
  induction a with
  | nil => rfl
  | cons c a ih => rw [List.flatMap_cons, hf, ih]

theorem charOf?_toNat (c : Char) : charOf? c.toNat = some c := by
  have hvalid : c.toNat.isValidChar := c.valid
  rw [charOf?, if_pos hvalid, Char.ofNat_toNat]

section writeLiteral

variable {q : Char}

/-- How a character is written between quotes `q`: the quote and the backslash are escaped. -/
def escapeChar (q c : Char) : Text :=
  if c = '\\' ∨ c = q then ['\\', c] else [c]

/-- The literal between quotes `q` that stands for a text. -/
def writeLiteral (q : Char) (s : Text) : Text :=
  q :: (s.flatMap (escapeChar q) ++ [q])

theorem literalBody_escapeChar (q c : Char) : LiteralBody q (escapeChar q c) := by
  unfold escapeChar
  split
  · exact .escaped .nil
  · rename_i h
    rw [not_or] at h
    exact .plain h.1 h.2 .nil

theorem decodeFrom_escapeChar (hq : isQuote q = true) (c : Char) (s : Text) :
    decodeFrom 0 (escapeChar q c ++ s) = c :: decodeFrom 0 s := by
  unfold escapeChar
  split
  · rename_i h
    refine decodeFrom_simpleEscape ?_ s
    obtain rfl | rfl := h
    · rfl
    · simp only [isQuote, Bool.or_eq_true, beq_iff_eq] at hq
      obtain rfl | rfl := hq <;> rfl
  · rename_i h
    rw [not_or] at h
    exact decodeFrom_cons h.1 s

/-- A written literal is the literal at the start of every text that starts with it, and stands for
what was written. -/
theorem quoted?_writeLiteral (hq : isQuote q = true) (s rest : Text) :
    ∃ body, quoted? (writeLiteral q s ++ rest) = some (body, rest) ∧ decodeEscapes body = s := by
  have hbody := LiteralBody.flatMap (literalBody_escapeChar q) s
  have hsplit := splitClosing_append (ne_backslash_of_isQuote hq) hbody rest
  refine ⟨s.flatMap (escapeChar q), ?_, decodeEscapes_flatMap (decodeFrom_escapeChar hq) s⟩
  simpa [writeLiteral, quoted?, hq] using hsplit

end writeLiteral

end CatalogueSync.Text
