import CatalogueSync.Proofs.Text.Trim
import CatalogueSync.Proofs.Token.Joining

/-!
# Texts made of complete units

`ComposedOf us s` says that the text `s` consists of plain characters and of the complete units
`us`, in this order. It is scanning without lines and without the grouping of plain characters
into tokens, so it goes well with joining texts (`ComposedOf.append`) and with whitespace around
them (`ComposedOf.trim_iff`). The texts for which it holds are those that scanning finds no
unclosed unit in (`composedOf_of_scanFrom`, `ComposedOf.scanFrom`), and they are scanned
in front of other text as they are on their own (`ComposedOf.scanFrom_append`).
-/

set_option autoImplicit false

namespace CatalogueSync

namespace Token

/-- The unit that a token is. -/
def unit? (t : Token) : Option (UnitKind × Text) :=
  match t.kind with
  | .text => none
  | .unit k => some (k, t.raw)

end Token

/-- A text of plain characters and of the given units, each of which is complete. -/
inductive ComposedOf : List (UnitKind × Text) → Text → Prop where
  | nil : ComposedOf [] []
  | char {us : List (UnitKind × Text)} {c : Char} {s : Text} (hc : opened? (c :: s) = none)
      (hs : ComposedOf us s) : ComposedOf us (c :: s)
  | unit {us : List (UnitKind × Text)} {k : UnitKind} {raw s : Text} (hraw : k.IsComplete raw)
      (hs : ComposedOf us s) : ComposedOf ((k, raw) :: us) (raw ++ s)

namespace Text

theorem ne_openBrace_of_isSpace {c : Char} (h : isSpace c = true) : c ≠ '{' := by
  rintro rfl
  exact absurd h (by decide)

theorem ofMark?_of_isSpace {c : Char} (h : isSpace c = true) : UnitKind.ofMark? c = none := by
  have hp : c ≠ '%' := by
    rintro rfl
    exact absurd h (by decide)
  have hh : c ≠ '#' := by
    rintro rfl
    exact absurd h (by decide)
  simp [UnitKind.ofMark?, hp, hh, ne_openBrace_of_isSpace h]

end Text

namespace UnitKind.IsComplete

variable {k : UnitKind} {raw : Text}

/-- A unit ends with a closing brace. -/
theorem exists_append_closeBrace (h : k.IsComplete raw) : ∃ before, raw = before ++ ['}'] := by
  obtain ⟨content, rfl⟩ := h.exists_content
  exact ⟨k.opener ++ content ++ [k.closeMark], by simp [closer]⟩

end UnitKind.IsComplete

namespace ComposedOf

variable {us vs : List (UnitKind × Text)} {s r w : Text}

theorem eq_nil (h : ComposedOf us []) : us = [] := by
  generalize htext : ([] : Text) = text at h
  cases h with
  | nil => rfl
  | char _ _ => simp at htext
  | @unit _ _ _ s hraw _ =>
    have hopened := hraw.opened?_append_isSome s
    rw [← htext] at hopened
    simp [opened?] at hopened

/-- A text that starts with a complete unit is made of that unit and of what the rest is made
of. -/
theorem of_unit_append {k : UnitKind} {raw : Text} (hraw : k.IsComplete raw)
    (h : ComposedOf us (raw ++ s)) : ∃ us', us = (k, raw) :: us' ∧ ComposedOf us' s := by
  have hopened := hraw.opened?_append_isSome s
  have hnext := nextLexeme_append_of_isComplete hraw s
  generalize htext : raw ++ s = text at h hopened hnext
  cases h with
  | nil => simp [opened?] at hopened
  | char hc _ => simp [hc] at hopened
  | unit hraw' hs' =>
    rw [nextLexeme_append_of_isComplete hraw'] at hnext
    simp only [Lexeme.mk.injEq, TokenKind.unit.injEq] at hnext
    obtain ⟨rfl, rfl, rfl⟩ := hnext
    exact ⟨_, rfl, hs'⟩

/-- A text that starts with a plain character is made of what the rest is made of. -/
theorem of_char {c : Char} (hc : opened? (c :: s) = none) (h : ComposedOf us (c :: s)) :
    ComposedOf us s := by
  generalize htext : c :: s = text at h
  cases h with
  | nil => simp at htext
  | char _ hs =>
    obtain ⟨rfl, rfl⟩ := List.cons.inj htext
    exact hs
  | @unit _ _ _ s' hraw _ =>
    have hopened := hraw.opened?_append_isSome s'
    rw [← htext, hc] at hopened
    simp at hopened

/-- No text with a unit that is never closed is made of complete units. -/
theorem not_of_unclosed {k : UnitKind} (h : splitUnit k none s = none) :
    ¬ComposedOf us (k.opener ++ s) := by
  intro hs
  generalize htext : k.opener ++ s = text at hs
  cases hs with
  | nil => simp [UnitKind.opener] at htext
  | char hc _ =>
    rw [← htext, UnitKind.opened?_opener_append] at hc
    simp at hc
  | @unit _ _ _ s' hraw _ =>
    have hnext := nextLexeme_append_of_isComplete hraw s'
    rw [← htext] at hnext
    simp [nextLexeme, h] at hnext

theorem of_plainBefore (hs : ComposedOf us s) (hr : PlainBefore s r) : ComposedOf us (r ++ s) := by
  induction hr with
  | nil => exact hs
  | cons hc _ ih => exact .char hc ih

theorem of_plainBefore_append (h : ComposedOf us (r ++ s)) (hr : PlainBefore s r) :
    ComposedOf us s := by
  induction hr with
  | nil => exact h
  | cons hc _ ih => exact ih (of_char hc h)

/-- Texts are joined at a seam where no opener comes into being. -/
theorem append (hs : ComposedOf us s) (hr : ComposedOf vs r)
    (hseam : s.getLast? = some '{' → opened? ('{' :: r) = none) :
    ComposedOf (us ++ vs) (s ++ r) := by
  induction hs with
  | nil => exact hr
  | @char us c s hc _ ih =>
    refine .char (opened?_append_eq_none hc ?_) (ih ?_)
    · rintro rfl
      by_cases hbrace : c = '{'
      · subst hbrace
        exact hseam rfl
      · exact opened?_of_ne hbrace r
    · intro hlast
      apply hseam
      rw [List.getLast?_cons, hlast]
      rfl
  | @unit us k raw s hraw _ ih =>
    rw [List.cons_append, List.append_assoc]
    refine .unit hraw (ih ?_)
    intro hlast
    apply hseam
    rw [List.getLast?_append, hlast]
    rfl

theorem of_isBlank (hw : Text.isBlank w = true) : ComposedOf [] w := by
  induction w with
  | nil => exact .nil
  | cons c w ih =>
    simp only [Text.isBlank, List.all_cons, Bool.and_eq_true] at hw
    exact .char (opened?_of_ne (Text.ne_openBrace_of_isSpace hw.1) w) (ih hw.2)

theorem opened?_openBrace_of_isBlank (hw : Text.isBlank w = true) :
    opened? ('{' :: w) = none := by
  cases w with
  | nil => rfl
  | cons c w =>
    simp only [Text.isBlank, List.all_cons, Bool.and_eq_true] at hw
    exact opened?_cons_cons_eq_none_iff.2 fun _ => Text.ofMark?_of_isSpace hw.1

theorem isBlank_append_iff (hw : Text.isBlank w = true) :
    ComposedOf us (w ++ s) ↔ ComposedOf us s := by
  induction w with
  | nil => rfl
  | cons c w ih =>
    simp only [Text.isBlank, List.all_cons, Bool.and_eq_true] at hw
    have hc := opened?_of_ne (Text.ne_openBrace_of_isSpace hw.1) (w ++ s)
    rw [← ih hw.2]
    exact ⟨fun h => of_char hc h, fun h => .char hc h⟩

/-- Units end with a closing brace, so whitespace that ends a text is no part of them. -/
theorem of_append_isBlank (hw : Text.isBlank w = true) (h : ComposedOf us (s ++ w)) :
    ComposedOf us s := by
  generalize htext : s ++ w = text at h
  induction h generalizing s with
  | nil =>
    obtain ⟨rfl, -⟩ := List.append_eq_nil_iff.1 htext
    exact .nil
  | @char us c t hc ht ih =>
    cases s with
    | nil =>
      have hblank : ComposedOf us (w ++ []) := by
        rw [List.append_nil, ← List.nil_append w, htext]
        exact .char hc ht
      exact (isBlank_append_iff hw).1 hblank
    | cons d s =>
      obtain ⟨rfl, rfl⟩ := List.cons.inj htext
      exact .char (opened?_eq_none_of_append hc) (ih rfl)
  | @unit us k raw t hraw _ ih =>
    obtain ⟨a, rfl, rfl⟩ | ⟨b, rfl, rfl⟩ := List.append_eq_append_iff.1 htext
    · obtain rfl | ⟨a, c, rfl⟩ := List.eq_nil_or_concat a
      · rw [List.append_nil] at hraw ⊢
        simpa using ComposedOf.unit hraw (ih (s := []) rfl)
      · obtain ⟨before, hbefore⟩ := hraw.exists_append_closeBrace
        rw [List.concat_eq_append, ← List.append_assoc] at hbefore
        obtain rfl : c = '}' := by simpa using (List.append_inj' hbefore rfl).2
        have hspace := Text.isBlank_iff.1 hw '}' (by simp)
        exact absurd hspace (by decide)
    · exact .unit hraw (ih rfl)

/-- Whitespace around a text does not change the units that it is made of. -/
theorem surround_iff {w' : Text} (hw : Text.isBlank w = true) (hw' : Text.isBlank w' = true) :
    ComposedOf us (w ++ s ++ w') ↔ ComposedOf us s := by
  rw [List.append_assoc, isBlank_append_iff hw]
  constructor
  · exact of_append_isBlank hw'
  · intro h
    have happ := h.append (of_isBlank hw') fun _ => opened?_openBrace_of_isBlank hw'
    rwa [List.append_nil] at happ

theorem trim_iff : ComposedOf us (Text.trim s) ↔ ComposedOf us s := by
  obtain ⟨w, w', hw, hw', hs⟩ := Text.exists_surround s
  conv_rhs => rw [hs]
  exact (surround_iff hw hw').symm

end ComposedOf

section scanFrom

variable {us : List (UnitKind × Text)} {s : Text}

/-- A text in which scanning finds no unclosed unit is made of the units that it finds. -/
theorem composedOf_of_scanFrom {n : Nat} (h : ∀ t ∈ scanFrom n s, t.unclosed? = none) :
    ComposedOf ((scanFrom n s).filterMap Token.unit?) s := by
  induction n, s using scan_induction with
  | nil n => simpa using ComposedOf.nil
  | unit n k raw rest hraw ih =>
    rw [scanFrom_append_of_isComplete hraw] at h ⊢
    exact .unit hraw (ih fun t ht => h t (List.mem_cons_of_mem _ ht))
  | run n c run rest hrun hrest ih =>
    rw [scanFrom_append_of_plainBefore hrun hrest] at h ⊢
    exact (ih fun t ht => h t (List.mem_cons_of_mem _ ht)).of_plainBefore hrun
  | unclosed n k inside hu =>
    rw [scanFrom_of_unclosed hu] at h
    have ht := (Token.unclosed?_of_text n).1 (h _ List.mem_cons_self)
    simp at ht

namespace ComposedOf

/-- The tokens of a text made of complete units: none is an unclosed unit, and the units among
them are the units of the text. -/
theorem scanFrom (h : ComposedOf us s) (n : Nat) :
    (∀ t ∈ scanFrom n s, t.unclosed? = none) ∧
      (CatalogueSync.scanFrom n s).filterMap Token.unit? = us := by
  induction n, s using scan_induction generalizing us with
  | nil n =>
    obtain rfl := h.eq_nil
    simp
  | unit n k raw rest hraw ih =>
    obtain ⟨us', rfl, hrest⟩ := of_unit_append hraw h
    obtain ⟨hclosed, hunits⟩ := ih hrest
    rw [scanFrom_append_of_isComplete hraw]
    refine ⟨List.forall_mem_cons.2 ⟨Token.unclosed?_of_unit raw n, hclosed⟩, ?_⟩
    simp only [List.filterMap_cons, Token.unit?, hunits]
  | run n c run rest hrun hrest ih =>
    obtain ⟨hclosed, hunits⟩ := ih (h.of_plainBefore_append hrun)
    have hc : opened? (c :: run) = none := by
      cases hrun with
      | cons hc _ => exact opened?_eq_none_of_append hc
    rw [scanFrom_append_of_plainBefore hrun hrest]
    refine ⟨List.forall_mem_cons.2 ⟨(Token.unclosed?_of_text n).2 hc, hclosed⟩, ?_⟩
    simp only [List.filterMap_cons, Token.unit?, hunits]
  | unclosed n k inside hu => exact absurd h (not_of_unclosed hu)

/-- Text that starts with an opener, and the end, do not change how the text before is scanned. -/
theorem scanFrom_append {r : Text} (h : ComposedOf us s)
    (hseam : s.getLast? = some '{' → opened? ('{' :: r) = none) (hr : EndsRun r) (n : Nat) :
    CatalogueSync.scanFrom n (s ++ r) =
      CatalogueSync.scanFrom n s ++ CatalogueSync.scanFrom (n + Text.newlines s) r := by
  obtain ⟨hclosed, -⟩ := h.scanFrom n
  rw [CatalogueSync.scanFrom_append hclosed hseam,
    Token.join_eq_append (unclosed?_ne_none_of_endsRun hr _)]

end ComposedOf

end scanFrom

end CatalogueSync
