import CatalogueSync.Proofs.Token.Closing

/-!
# What scanning finds

A text that is not empty starts with a complete unit, with a run of plain text up to the next
opener, or with a unit that is never closed. Each case has its equation for `scanFrom`, and
`scan_induction` is the induction over the tokens of a text that has one step for each case.
-/

set_option autoImplicit false

namespace CatalogueSync

section opened

theorem opened?_of_ne {c : Char} (hc : c ≠ '{') (s : Text) : opened? (c :: s) = none := by
  unfold opened?
  split
  · rename_i h
    simp_all
  · rfl

@[simp]
theorem opened?_singleton (c : Char) : opened? [c] = none := by
  unfold opened?
  split
  · rename_i h
    simp at h
  · rfl

/-- Only the first two characters decide whether a text starts with an opener. -/
theorem opened?_cons_cons_eq_none_iff {c d : Char} {s : Text} :
    opened? (c :: d :: s) = none ↔ (c = '{' → UnitKind.ofMark? d = none) := by
  by_cases hc : c = '{'
  · subst hc
    simp [opened?]
  · simp [opened?_of_ne hc, hc]

theorem opened?_eq_none_iff {s : Text} :
    opened? s = none ↔ ∀ k : UnitKind, ¬k.opener <+: s := by
  constructor
  · rintro h k ⟨inside, rfl⟩
    simp at h
  · intro h
    cases ho : opened? s with
    | none => rfl
    | some o =>
      rw [opened?_eq ho] at h
      exact absurd (List.prefix_append ..) (h o.1)

theorem opened?_append_isSome {s : Text} (h : (opened? s).isSome) (r : Text) :
    (opened? (s ++ r)).isSome := by
  obtain ⟨⟨k, inside⟩, ho⟩ := Option.isSome_iff_exists.1 h
  rw [opened?_eq ho, List.append_assoc, UnitKind.opened?_opener_append]
  rfl

/-- An opener that is not there does not come into being behind a longer text; behind a single
character it can. -/
theorem opened?_append_eq_none {c : Char} {s r : Text} (h : opened? (c :: s) = none)
    (hseam : s = [] → opened? (c :: r) = none) : opened? (c :: (s ++ r)) = none := by
  cases s with
  | nil => exact hseam rfl
  | cons d s =>
    rw [List.cons_append, opened?_cons_cons_eq_none_iff]
    exact opened?_cons_cons_eq_none_iff.1 h

theorem opened?_eq_none_of_append {c : Char} {s r : Text}
    (h : opened? (c :: (s ++ r)) = none) : opened? (c :: s) = none := by
  cases s with
  | nil => exact opened?_singleton c
  | cons d s =>
    rw [List.cons_append, opened?_cons_cons_eq_none_iff] at h
    exact opened?_cons_cons_eq_none_iff.2 h

theorem UnitKind.IsComplete.opened?_append_isSome {k : UnitKind} {raw : Text}
    (h : k.IsComplete raw) (s : Text) : (opened? (raw ++ s)).isSome := by
  obtain ⟨inside, rfl, -⟩ := h
  simp [List.append_assoc]

end opened

namespace Token

theorem unclosed?_of_unit {k : UnitKind} (raw : Text) (n : Nat) :
    unclosed? ⟨.unit k, raw, n⟩ = none := by
  simp [unclosed?]

/-- A text token is an unclosed unit when it starts with an opener. -/
theorem unclosed?_of_text {raw : Text} (n : Nat) :
    unclosed? ⟨.text, raw, n⟩ = none ↔ opened? raw = none := by
  simp only [unclosed?, if_true, List.find?_eq_none, List.isPrefixOf_iff_prefix,
    opened?_eq_none_iff]
  exact ⟨fun h k => h k (by cases k <;> simp [UnitKind.all]), fun h k _ => h k⟩

end Token

/-- A run of plain text ends here: the text is over or starts with an opener. -/
def EndsRun (rest : Text) : Prop :=
  rest = [] ∨ (opened? rest).isSome

/-- Plain text before `rest`: no opener starts inside of it. -/
inductive PlainBefore (rest : Text) : Text → Prop where
  | nil : PlainBefore rest []
  | cons {c : Char} {run : Text} (hc : opened? (c :: (run ++ rest)) = none)
      (hrun : PlainBefore rest run) : PlainBefore rest (c :: run)

section run

/-- Plain text stays plain before a longer rest, unless an opener comes into being at the seam. -/
theorem PlainBefore.append {run rest r : Text} (h : PlainBefore rest run)
    (hseam : (run ++ rest).getLast? = some '{' → opened? ('{' :: r) = none) :
    PlainBefore (rest ++ r) run := by
  induction h with
  | nil => exact .nil
  | @cons c run hc _ ih =>
    refine .cons ?_ (ih ?_)
    · rw [← List.append_assoc]
      refine opened?_append_eq_none hc ?_
      intro hnil
      by_cases hbrace : c = '{'
      · subst hbrace
        apply hseam
        rw [List.cons_append, hnil]
        rfl
      · exact opened?_of_ne hbrace r
    · intro hlast
      apply hseam
      rw [List.cons_append, List.getLast?_cons, hlast]
      rfl

theorem PlainBefore.of_append {run rest r : Text} (h : PlainBefore (rest ++ r) run) :
    PlainBefore rest run := by
  induction h with
  | nil => exact .nil
  | cons hc _ ih =>
    rw [← List.append_assoc] at hc
    exact .cons (opened?_eq_none_of_append hc) ih

theorem PlainBefore.append_run {run run' rest : Text} (h : PlainBefore (run' ++ rest) run)
    (h' : PlainBefore rest run') : PlainBefore rest (run ++ run') := by
  induction h with
  | nil => exact h'
  | cons hc _ ih =>
    rw [← List.append_assoc] at hc
    exact .cons hc ih

/-- A text on its own is plain when it holds no opener. -/
theorem plainBefore_nil_iff {run : Text} :
    PlainBefore [] run ↔ ∀ k : UnitKind, ¬k.opener <:+: run := by
  induction run with
  | nil =>
    refine ⟨fun _ k hk => ?_, fun _ => .nil⟩
    have hnil := List.infix_nil.1 hk
    simp [UnitKind.opener] at hnil
  | cons c run ih =>
    simp only [List.infix_cons_iff, not_or, forall_and]
    rw [← opened?_eq_none_iff, ← ih]
    constructor
    · rintro (_ | ⟨hc, hrun⟩)
      exact ⟨by simpa using hc, hrun⟩
    · rintro ⟨hc, hrun⟩
      exact .cons (by simpa using hc) hrun

/-- A brace in front of an opener would open a unit itself. -/
theorem PlainBefore.getLast?_ne {run rest : Text} (h : PlainBefore rest run)
    (hrest : (opened? rest).isSome) : run.getLast? ≠ some '{' := by
  induction h with
  | nil => simp
  | @cons c run hc _ ih =>
    cases run with
    | nil =>
      obtain ⟨o, ho⟩ := Option.isSome_iff_exists.1 hrest
      rw [opened?_eq ho] at hc
      rw [List.getLast?_singleton, ne_eq, Option.some.injEq]
      rintro rfl
      simp [opened?, UnitKind.opener, UnitKind.ofMark?] at hc
    | cons d run => rwa [List.getLast?_cons_cons]

theorem plainBefore_splitRun (s : Text) : PlainBefore (splitRun s).2 (splitRun s).1 := by
  fun_induction splitRun s with
  | case1 => exact .nil
  | case2 => exact .nil
  | case3 c cs hc r ih =>
    refine .cons ?_ ih
    rwa [splitRun_append]

theorem endsRun_splitRun (s : Text) : EndsRun (splitRun s).2 := by
  fun_induction splitRun s with
  | case1 => exact .inl rfl
  | case2 c cs o ho => exact .inr (by rw [ho]; rfl)
  | case3 c cs hc r ih => exact ih

theorem splitRun_of_endsRun {rest : Text} (h : EndsRun rest) : splitRun rest = ([], rest) := by
  cases rest with
  | nil => rfl
  | cons c cs =>
    obtain h | h := h
    · simp at h
    · obtain ⟨o, ho⟩ := Option.isSome_iff_exists.1 h
      simp [splitRun, ho]

theorem splitRun_append_of_plainBefore {run rest : Text} (hrun : PlainBefore rest run)
    (hrest : EndsRun rest) : splitRun (run ++ rest) = (run, rest) := by
  induction hrun with
  | nil => exact splitRun_of_endsRun hrest
  | cons hc _ ih => simp [splitRun, hc, ih]

end run

section scanFrom

variable {n : Nat} {s : Text}

@[simp]
theorem scanFrom_nil (n : Nat) : scanFrom n [] = [] := by
  rw [scanFrom]

theorem scanFrom_of_ne_nil (hs : s ≠ []) :
    scanFrom n s = ⟨(nextLexeme s).kind, (nextLexeme s).raw, n⟩ ::
      scanFrom (n + Text.newlines (nextLexeme s).raw) (nextLexeme s).rest := by
  cases s with
  | nil => exact absurd rfl hs
  | cons c cs => rw [scanFrom]

/-- A complete unit at the start is one token. -/
theorem scanFrom_append_of_isComplete {k : UnitKind} {raw : Text} (h : k.IsComplete raw)
    (n : Nat) (rest : Text) :
    scanFrom n (raw ++ rest) =
      ⟨.unit k, raw, n⟩ :: scanFrom (n + Text.newlines raw) rest := by
  have hne : raw ++ rest ≠ [] := by
    obtain ⟨inside, rfl, -⟩ := h
    simp [UnitKind.opener]
  rw [scanFrom_of_ne_nil hne, nextLexeme_append_of_isComplete h]

/-- Plain text up to an opener or to the end is one token. -/
theorem scanFrom_append_of_plainBefore {c : Char} {run rest : Text}
    (hrun : PlainBefore rest (c :: run)) (hrest : EndsRun rest) (n : Nat) :
    scanFrom n (c :: run ++ rest) =
      ⟨.text, c :: run, n⟩ :: scanFrom (n + Text.newlines (c :: run)) rest := by
  have hsplit := splitRun_append_of_plainBefore hrun hrest
  have hc : opened? (c :: run ++ rest) = none := by
    cases hrun with
    | cons hc _ => exact hc
  have hnext : nextLexeme (c :: run ++ rest) = ⟨.text, c :: run, rest⟩ := by
    simp only [nextLexeme, hc, hsplit]
  have hne : c :: run ++ rest ≠ [] := List.cons_ne_nil c (run ++ rest)
  rw [scanFrom_of_ne_nil hne, hnext]

/-- A unit that is never closed is one text token. -/
theorem scanFrom_of_unclosed {k : UnitKind} {inside : Text}
    (h : splitUnit k none inside = none) (n : Nat) :
    scanFrom n (k.opener ++ inside) = [⟨.text, k.opener ++ inside, n⟩] := by
  have hnext : nextLexeme (k.opener ++ inside) = ⟨.text, k.opener ++ inside, []⟩ := by
    simp [nextLexeme, h]
  have hne : k.opener ++ inside ≠ [] := by simp [UnitKind.opener]
  rw [scanFrom_of_ne_nil hne, hnext, scanFrom_nil]

/-- Behind the first token of a text the scan goes on with what is left of the text. -/
theorem exists_scanFrom_of_cons {t : Token} {ts : List Token}
    (h : scanFrom n s = t :: ts) : ∃ m rest, ts = scanFrom m rest := by
  by_cases hs : s = []
  · rw [hs, scanFrom_nil] at h
    cases h
  · rw [scanFrom_of_ne_nil hs] at h
    obtain ⟨-, hts⟩ := List.cons.inj h
    exact ⟨_, _, hts.symm⟩

/-- The induction over the tokens of a text: a complete unit, a run of plain text, or a unit that
takes the rest because it is never closed. -/
@[elab_as_elim]
theorem scan_induction {motive : Nat → Text → Prop} (nil : ∀ n, motive n [])
    (unit : ∀ n k raw rest, UnitKind.IsComplete k raw →
      motive (n + Text.newlines raw) rest → motive n (raw ++ rest))
    (run : ∀ n c run rest, PlainBefore rest (c :: run) → EndsRun rest →
      motive (n + Text.newlines (c :: run)) rest → motive n (c :: run ++ rest))
    (unclosed : ∀ n (k : UnitKind) inside, splitUnit k none inside = none →
      motive n (k.opener ++ inside))
    (n : Nat) (s : Text) : motive n s := by
  induction hlen : s.length using Nat.strongRecOn generalizing n s with
  | _ len ih =>
    subst hlen
    cases s with
    | nil => exact nil n
    | cons c cs =>
      cases ho : opened? (c :: cs) with
      | none =>
        have happ := splitRun_append (c :: cs)
        have hplain := plainBefore_splitRun (c :: cs)
        have hends := endsRun_splitRun (c :: cs)
        have hfst : (splitRun (c :: cs)).1 = c :: (splitRun cs).1 := by simp [splitRun, ho]
        have hlt := congrArg List.length happ
        rw [hfst] at happ hplain hlt
        rw [← happ]
        refine run n c _ _ hplain hends (ih _ ?_ _ _ rfl)
        simp only [List.length_append, List.length_cons] at hlt ⊢
        omega
      | some o =>
        obtain ⟨k, inside⟩ := o
        rw [opened?_eq ho]
        cases hu : splitUnit k none inside with
        | none => exact unclosed n k inside hu
        | some r =>
          obtain ⟨u, rest⟩ := r
          have hcomplete : k.IsComplete (k.opener ++ u) := ⟨u, rfl, splitUnit_self hu⟩
          have happ := splitUnit_append hu
          rw [← happ, ← List.append_assoc]
          refine unit n k _ rest hcomplete (ih _ ?_ _ _ rfl)
          rw [opened?_eq ho, ← happ]
          simp only [UnitKind.opener, List.length_append, List.length_cons]
          omega

/-- Scanning loses no character. -/
theorem flatMap_raw_scanFrom (n : Nat) (s : Text) :
    (scanFrom n s).flatMap Token.raw = s := by
  induction n, s using scan_induction with
  | nil n => simp
  | unit n k raw rest hraw ih =>
    rw [scanFrom_append_of_isComplete hraw, List.flatMap_cons, ih]
  | run n c run rest hrun hrest ih =>
    rw [scanFrom_append_of_plainBefore hrun hrest, List.flatMap_cons, ih]
  | unclosed n k inside h => simp [scanFrom_of_unclosed h]

end scanFrom

end CatalogueSync
