import CatalogueSync.Proofs.Token.Unit

/-!
# Complete units

A unit ends at the first closer behind its opener, where quoted literals in tags and outputs hide
the closers inside of them. `UnitKind.ClosesAfter` says where closers stand, and
`UnitKind.Delimits` which texts are one unit, without reference to a reader. The reader of units
stops at exactly these places (`splitUnit_eq_some_iff`, `splitUnit_eq_none_iff`), so the complete
units are the delimited ones (`UnitKind.isComplete_iff_delimits`).

Units are therefore self-delimiting: what follows a complete unit has no say in where it ends
(`nextLexeme_append_of_isComplete`), and the units that scanning finds are complete
(`isComplete_of_nextLexeme`).
-/

set_option autoImplicit false

namespace CatalogueSync

namespace UnitKind

/-- A closer of the unit stands right after `before`, and no literal that is still open hides
it. -/
structure ClosesAfter (k : UnitKind) (before s : Text) : Prop where
  isPrefix : before ++ k.closer <+: s
  outside : k.quotes = true → Text.ClosesLiterals before

/-- The first closer of the unit stands right after `before`. -/
structure FirstClosesAfter (k : UnitKind) (before s : Text) : Prop where
  closesAfter : k.ClosesAfter before s
  first : ∀ other, k.ClosesAfter other s → before.length ≤ other.length

/-- A text from the opener of a unit to the first closer behind that opener. -/
def Delimits (k : UnitKind) (raw : Text) : Prop :=
  ∃ content, raw = k.opener ++ content ++ k.closer ∧
    k.FirstClosesAfter content (content ++ k.closer)

/-- A text that starts with the opener of a unit and holds no closer for it. -/
def IsUnclosed (k : UnitKind) (raw : Text) : Prop :=
  ∃ inside, raw = k.opener ++ inside ∧ ∀ before, ¬k.ClosesAfter before inside

variable {k : UnitKind} {before s : Text}

namespace FirstClosesAfter

theorem eq {other : Text} (h : k.FirstClosesAfter before s)
    (hother : k.FirstClosesAfter other s) : before = other := by
  have hlen := Nat.le_antisymm (h.first _ hother.closesAfter) (hother.first _ h.closesAfter)
  have hprefix := (List.prefix_append before k.closer).trans h.closesAfter.isPrefix
  have hprefix' := (List.prefix_append other k.closer).trans hother.closesAfter.isPrefix
  exact (List.prefix_of_prefix_length_le hprefix hprefix' (Nat.le_of_eq hlen)).eq_of_length hlen

/-- What stands behind the first closer has no part in it. -/
theorem of_isPrefix {s' : Text} (h : k.FirstClosesAfter before s)
    (hs' : before ++ k.closer <+: s') : k.FirstClosesAfter before s' := by
  refine ⟨⟨hs', h.closesAfter.outside⟩, ?_⟩
  intro other hother
  obtain hle | hle := Nat.le_total before.length other.length
  · exact hle
  · have hlen : (other ++ k.closer).length ≤ (before ++ k.closer).length := by
      simpa using hle
    have hshort := List.prefix_of_prefix_length_le hother.isPrefix hs' hlen
    exact h.first other ⟨hshort.trans h.closesAfter.isPrefix, hother.outside⟩

end FirstClosesAfter

end UnitKind

section splitUnit

variable {k : UnitKind} {before s u rest : Text}

/-- What the reader of a unit returns ends with the closer, and no literal hides that closer. A
literal that is open where the reading starts counts as the start of the text. -/
theorem exists_content_of_splitUnit {q : Option Char} (hq : ∀ c ∈ q, Text.isQuote c = true)
    (h : splitUnit k q s = some (u, rest)) :
    ∃ content, u = content ++ k.closer ∧
      (k.quotes = true → Text.ClosesLiterals (q.toList ++ content)) := by
  fun_induction splitUnit k q s generalizing u rest with
  | case1 => simp at h
  | case2 c cs _ =>
    simp only [Option.some.injEq, Prod.mk.injEq] at h
    exact ⟨[], h.1.symm, fun _ => .nil⟩
  | case3 c cs _ ih =>
    obtain ⟨r, hr, he⟩ := Option.map_eq_some_iff.1 h
    simp only [Prod.mk.injEq] at he
    cases hquote : k.quotes && Text.isQuote c with
    | true =>
      simp only [hquote, if_true] at ih hr
      rw [Bool.and_eq_true] at hquote
      obtain ⟨content, hcontent, hclosed⟩ := ih (by simp [hquote.2]) hr
      exact ⟨c :: content, by rw [← he.1, hcontent, List.cons_append], hclosed⟩
    | false =>
      simp only [hquote, Bool.false_eq_true, if_false] at ih hr
      obtain ⟨content, hcontent, hclosed⟩ := ih (by simp) hr
      refine ⟨c :: content, by rw [← he.1, hcontent, List.cons_append], fun hk => ?_⟩
      rw [hk, Bool.true_and] at hquote
      exact .plain hquote (hclosed hk)
  | case4 => simp at h
  | case5 q d ds ih =>
    obtain ⟨r, hr, he⟩ := Option.map_eq_some_iff.1 h
    simp only [Prod.mk.injEq] at he
    obtain ⟨content, hcontent, hclosed⟩ := ih hq hr
    refine ⟨'\\' :: d :: content, by rw [← he.1, hcontent, List.cons_append, List.cons_append],
      fun hk => ?_⟩
    obtain ⟨body, after, rfl, hbody, hafter⟩ := (hclosed hk).exists_literal (hq q rfl)
    exact .literal (hq q rfl) (.escaped hbody) hafter
  | case6 q c cs hslash ih =>
    obtain ⟨r, hr, he⟩ := Option.map_eq_some_iff.1 h
    simp only [Prod.mk.injEq] at he
    by_cases hc : c = q
    · subst hc
      simp only [if_true] at ih hr
      obtain ⟨content, hcontent, hclosed⟩ := ih (by simp) hr
      refine ⟨c :: content, by rw [← he.1, hcontent, List.cons_append], fun hk => ?_⟩
      exact .literal (hq c rfl) .nil (hclosed hk)
    · simp only [hc, if_false] at ih hr
      obtain ⟨content, hcontent, hclosed⟩ := ih hq hr
      refine ⟨c :: content, by rw [← he.1, hcontent, List.cons_append], fun hk => ?_⟩
      obtain ⟨body, after, rfl, hbody, hafter⟩ := (hclosed hk).exists_literal (hq q rfl)
      exact .literal (hq q rfl) (.plain hslash hc hbody) hafter

theorem exists_closesAfter_of_splitUnit (h : splitUnit k none s = some (u, rest)) :
    ∃ content, u = content ++ k.closer ∧ k.ClosesAfter content s := by
  obtain ⟨content, rfl, hclosed⟩ := exists_content_of_splitUnit (by simp) h
  exact ⟨content, rfl, ⟨rest, splitUnit_append h⟩, hclosed⟩

/-- The reader of a unit stops after at most `m` characters and the closer. -/
def SplitsWithin (k : UnitKind) (m : Nat) (s : Text) : Prop :=
  ∃ content rest, splitUnit k none s = some (content ++ k.closer, rest) ∧ content.length ≤ m

theorem SplitsWithin.cons {m : Nat} {c : Char} (hc : (k.quotes && Text.isQuote c) = false)
    (h : SplitsWithin k m s) : SplitsWithin k (m + 1) (c :: s) := by
  cases hclose : k.closer.isPrefixOf (c :: s) with
  | true => exact ⟨[], s.tail, by rw [splitUnit, if_pos hclose, List.nil_append], Nat.zero_le _⟩
  | false =>
    obtain ⟨content, rest, hsplit, hlen⟩ := h
    refine ⟨c :: content, rest, ?_, Nat.succ_le_succ hlen⟩
    rw [splitUnit_cons hclose, hc, if_neg Bool.false_ne_true, hsplit]
    rfl

theorem SplitsWithin.literal {m : Nat} {q : Char} {body : Text} (hk : k.quotes = true)
    (hq : Text.isQuote q = true) (hbody : Text.LiteralBody q body) (h : SplitsWithin k m s) :
    SplitsWithin k ((q :: (body ++ [q])).length + m) (q :: (body ++ q :: s)) := by
  obtain ⟨content, rest, hsplit, hlen⟩ := h
  refine ⟨q :: (body ++ q :: content), rest, ?_, ?_⟩
  · rw [splitUnit_literal hk hq hbody, hsplit]
    simp
  · simp only [List.length_cons, List.length_append]
    omega

/-- The reader of a unit does not run past a closer. -/
theorem splitsWithin_of_closesAfter (h : k.ClosesAfter before s) :
    SplitsWithin k before.length s := by
  obtain ⟨⟨rest, rfl⟩, houtside⟩ := h
  have hnil : SplitsWithin k 0 (k.closer ++ rest) :=
    ⟨[], rest, splitUnit_closer rest, Nat.le_refl 0⟩
  rw [List.append_assoc]
  cases hk : k.quotes with
  | false =>
    clear houtside
    induction before with
    | nil => exact hnil
    | cons c before ih => exact ih.cons (by rw [hk, Bool.false_and])
  | true =>
    replace houtside := houtside hk
    induction houtside with
    | nil => exact hnil
    | plain hc _ ih => exact ih.cons (by rw [hc, Bool.and_false])
    | @literal q body before hq hbody _ ih =>
      have hliteral := ih.literal hk hq hbody
      have hlen : (q :: (body ++ [q])).length + before.length =
          (q :: (body ++ q :: before)).length := by
        simp only [List.length_cons, List.length_append, List.length_nil]
        omega
      rw [hlen] at hliteral
      simpa using hliteral

/-- The reader of a unit stops right behind the first closer. -/
theorem splitUnit_eq_some_iff :
    splitUnit k none s = some (u, rest) ↔
      ∃ content, u = content ++ k.closer ∧ s = u ++ rest ∧ k.FirstClosesAfter content s := by
  have hfirst : ∀ {u rest}, splitUnit k none s = some (u, rest) →
      ∃ content, u = content ++ k.closer ∧ s = u ++ rest ∧ k.FirstClosesAfter content s := by
    intro u rest h
    obtain ⟨content, rfl, hcloses⟩ := exists_closesAfter_of_splitUnit h
    refine ⟨content, rfl, (splitUnit_append h).symm, hcloses, ?_⟩
    intro other hother
    obtain ⟨content', rest', hsplit, hlen⟩ := splitsWithin_of_closesAfter hother
    rw [h, Option.some.injEq, Prod.mk.injEq] at hsplit
    rwa [List.append_cancel_right hsplit.1]
  refine ⟨hfirst, ?_⟩
  rintro ⟨content, rfl, hs, hcontent⟩
  obtain ⟨content', rest', hsplit, -⟩ := splitsWithin_of_closesAfter hcontent.closesAfter
  obtain ⟨content'', hu, hs', hcontent''⟩ := hfirst hsplit
  obtain rfl := hcontent.eq hcontent''
  rw [hu] at hsplit hs'
  rw [hsplit, List.append_cancel_left (hs'.symm.trans hs)]

/-- The reader of a unit fails exactly when there is no closer. -/
theorem splitUnit_eq_none_iff :
    splitUnit k none s = none ↔ ∀ before, ¬k.ClosesAfter before s := by
  constructor
  · intro h before hbefore
    obtain ⟨content, rest, hsplit, -⟩ := splitsWithin_of_closesAfter hbefore
    rw [h] at hsplit
    cases hsplit
  · intro h
    cases hsplit : splitUnit k none s with
    | none => rfl
    | some r =>
      obtain ⟨content, -, hcloses⟩ := exists_closesAfter_of_splitUnit hsplit
      exact absurd hcloses (h content)

/-- A unit ends where it ends, whatever comes after the text. -/
theorem splitUnit_append_right (h : splitUnit k none s = some (u, rest)) (t : Text) :
    splitUnit k none (s ++ t) = some (u, rest ++ t) := by
  obtain ⟨content, rfl, rfl, hfirst⟩ := splitUnit_eq_some_iff.1 h
  exact splitUnit_eq_some_iff.2 ⟨content, rfl, List.append_assoc ..,
    hfirst.of_isPrefix ((List.prefix_append _ rest).trans (List.prefix_append _ t))⟩

/-- The inside of a unit is a unit's inside on its own. -/
theorem splitUnit_self (h : splitUnit k none s = some (u, rest)) :
    splitUnit k none u = some (u, []) := by
  obtain ⟨content, rfl, rfl, hfirst⟩ := splitUnit_eq_some_iff.1 h
  exact splitUnit_eq_some_iff.2 ⟨content, rfl, (List.append_nil _).symm,
    hfirst.of_isPrefix List.prefix_rfl⟩

end splitUnit

section IsComplete

variable {k : UnitKind} {raw : Text}

/-- The complete units are the texts from an opener to its first closer. -/
theorem UnitKind.isComplete_iff_delimits : k.IsComplete raw ↔ k.Delimits raw := by
  constructor
  · rintro ⟨inside, rfl, hsplit⟩
    obtain ⟨content, rfl, -, hfirst⟩ := splitUnit_eq_some_iff.1 hsplit
    exact ⟨content, (List.append_assoc ..).symm, hfirst⟩
  · rintro ⟨content, rfl, hfirst⟩
    refine ⟨content ++ k.closer, List.append_assoc .., ?_⟩
    exact splitUnit_eq_some_iff.2 ⟨content, rfl, (List.append_nil _).symm, hfirst⟩

/-- A complete unit is the first lexeme of every text that starts with it. -/
theorem nextLexeme_append_of_isComplete (h : k.IsComplete raw) (rest : Text) :
    nextLexeme (raw ++ rest) = ⟨.unit k, raw, rest⟩ := by
  obtain ⟨inside, rfl, hs⟩ := h
  have hs' := splitUnit_append_right hs rest
  rw [List.nil_append] at hs'
  simp [nextLexeme, List.append_assoc, hs']

/-- The units that scanning finds are complete. -/
theorem isComplete_of_nextLexeme {s : Text} (h : (nextLexeme s).kind = .unit k) :
    k.IsComplete (nextLexeme s).raw := by
  unfold nextLexeme at h ⊢
  split at h
  · rename_i k' inside ho
    split at h
    · rename_i u rest hu
      simp only [TokenKind.unit.injEq] at h
      subst h
      exact ⟨u, rfl, splitUnit_self hu⟩
    · simp at h
  · simp at h

theorem UnitKind.IsComplete.exists_content (h : k.IsComplete raw) :
    ∃ content, raw = k.opener ++ content ++ k.closer := by
  obtain ⟨content, rfl, -⟩ := isComplete_iff_delimits.1 h
  exact ⟨content, rfl⟩

@[simp]
theorem Token.body_of_unit (k : UnitKind) (content : Text) (n : Nat) :
    Token.body ⟨.unit k, k.opener ++ content ++ k.closer, n⟩ = Text.trim content := by
  have hopener : Text.byteLength k.opener = 2 := by cases k <;> rfl
  have hcloser : Text.byteLength k.closer = 2 := by cases k <;> rfl
  have hlength : Text.byteLength (k.opener ++ content ++ k.closer) - 4 = content.byteLength := by
    rw [Text.byteLength_append, Text.byteLength_append, hopener, hcloser]
    omega
  have hopened := Text.splitBytes?_append k.opener (content ++ k.closer)
  rw [hopener, ← List.append_assoc] at hopened
  simp only [Token.body, hlength, hopened, Option.bind_some, Text.splitBytes?_append,
    Option.map_some, Option.getD_some]

end IsComplete

end CatalogueSync
