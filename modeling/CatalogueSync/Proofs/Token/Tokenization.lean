import CatalogueSync.Proofs.Token.Scan

/-!
# The tokens of a text

`IsTokenization` says of a list of tokens what the language says of a text: which pieces are
units, where the text between them ends, what becomes of a unit that is never closed, and on which
line each piece starts. Scanning gives the one list of which all this is true
(`scan_eq_iff_isTokenization`).
-/

set_option autoImplicit false

namespace CatalogueSync

/-- A token has its place between other tokens of a text that starts on line `n`. Only the last
token may be a unit that is never closed, which is a text, and only such a text may follow another
one. A text with a token behind it does not end with a brace, as the two would make an opener. -/
structure Token.HasPlace (n : Nat) (before : List Token) (t : Token) (after : List Token) :
    Prop where
  ne_nil : t.raw ≠ []
  line : t.line = n + Text.newlines (before.flatMap Token.raw)
  unit : ∀ k, t.kind = .unit k → k.Delimits t.raw
  text : t.kind = .text →
    (∀ k : UnitKind, ¬k.opener <:+: t.raw) ∨ (after = [] ∧ ∃ k : UnitKind, k.IsUnclosed t.raw)
  adjacent : t.kind = .text → ∀ u ∈ after.head?, u.kind = .text →
    ∃ k : UnitKind, k.IsUnclosed u.raw
  seam : t.kind = .text → after ≠ [] → t.raw.getLast? ≠ some '{'

/-- The tokens make up the text, which starts on line `n`, and each has its place in it. -/
structure IsTokenization (n : Nat) (s : Text) (ts : List Token) : Prop where
  raws : ts.flatMap Token.raw = s
  hasPlace : ∀ before t after, ts = before ++ t :: after → t.HasPlace n before after

theorem UnitKind.IsUnclosed.opened?_append_isSome {k : UnitKind} {raw : Text}
    (h : k.IsUnclosed raw) (s : Text) : (opened? (raw ++ s)).isSome := by
  obtain ⟨inside, rfl, -⟩ := h
  simp [List.append_assoc]

namespace Token.HasPlace

variable {n : Nat} {t : Token} {pre before after more : List Token}

/-- Tokens further up only move a token down. -/
theorem append_iff :
    t.HasPlace n (pre ++ before) after ↔
      t.HasPlace (n + Text.newlines (pre.flatMap Token.raw)) before after := by
  have hline : n + Text.newlines ((pre ++ before).flatMap Token.raw) =
      n + Text.newlines (pre.flatMap Token.raw) + Text.newlines (before.flatMap Token.raw) := by
    rw [List.flatMap_append, Text.newlines_append, Nat.add_assoc]
  exact ⟨fun h => ⟨h.ne_nil, h.line.trans hline, h.unit, h.text, h.adjacent, h.seam⟩,
    fun h => ⟨h.ne_nil, h.line.trans hline.symm, h.unit, h.text, h.adjacent, h.seam⟩⟩

/-- A token keeps its place when tokens at the end are taken away. -/
theorem of_append (h : t.HasPlace n before (after ++ more)) : t.HasPlace n before after := by
  refine ⟨h.ne_nil, h.line, h.unit, ?_, ?_, ?_⟩
  · intro htext
    exact (h.text htext).imp_right fun hlast => ⟨(List.append_eq_nil_iff.1 hlast.1).1, hlast.2⟩
  · intro htext u hu
    exact h.adjacent htext u (by rw [List.head?_append, Option.mem_def.1 hu]; rfl)
  · intro htext hne
    exact h.seam htext (List.append_ne_nil_of_left_ne_nil hne more)

/-- A unit has its place wherever it stands. -/
theorem of_delimits {k : UnitKind} {raw : Text} (h : k.Delimits raw) :
    Token.HasPlace n [] ⟨.unit k, raw, n⟩ after where
  ne_nil := by
    obtain ⟨content, rfl, -⟩ := h
    simp [UnitKind.opener]
  line := rfl
  unit := by
    intro k' hk
    obtain rfl := TokenKind.unit.inj hk
    exact h
  text := by intro htext; cases htext
  adjacent := by intro htext; cases htext
  seam := by intro htext; cases htext

/-- A text without openers has its place between units. -/
theorem of_plain {raw : Text} (hne : raw ≠ []) (hplain : ∀ k : UnitKind, ¬k.opener <:+: raw)
    (hadjacent : ∀ u ∈ after.head?, u.kind = .text → ∃ k : UnitKind, k.IsUnclosed u.raw)
    (hseam : after ≠ [] → raw.getLast? ≠ some '{') : Token.HasPlace n [] ⟨.text, raw, n⟩ after where
  ne_nil := hne
  line := rfl
  unit := by intro k hk; cases hk
  text := fun _ => .inl hplain
  adjacent := fun _ => hadjacent
  seam := fun _ => hseam

/-- A unit that is never closed has its place at the end. -/
theorem of_isUnclosed {k : UnitKind} {raw : Text} (h : k.IsUnclosed raw) :
    Token.HasPlace n [] ⟨.text, raw, n⟩ [] where
  ne_nil := by
    obtain ⟨inside, rfl, -⟩ := h
    simp [UnitKind.opener]
  line := rfl
  unit := by intro k' hk; cases hk
  text := fun _ => .inr ⟨rfl, k, h⟩
  adjacent := by intro _ u hu; cases hu
  seam := by intro _ hne; exact absurd rfl hne

end Token.HasPlace

namespace IsTokenization

variable {n : Nat} {s : Text} {t : Token} {ts pre post : List Token}

theorem nil : IsTokenization n [] [] :=
  ⟨rfl, by simp⟩

theorem cons (ht : t.HasPlace n [] ts) (hts : IsTokenization (n + Text.newlines t.raw) s ts) :
    IsTokenization n (t.raw ++ s) (t :: ts) := by
  refine ⟨by rw [List.flatMap_cons, hts.raws], ?_⟩
  intro before u after h
  obtain ⟨rfl, hafter⟩ | ⟨before, rfl, hafter⟩ := List.cons_eq_append_iff.1 h
  · obtain ⟨rfl, rfl⟩ := List.cons.inj hafter
    exact ht
  · rw [← List.singleton_append, Token.HasPlace.append_iff]
    simpa using hts.hasPlace _ _ _ hafter

/-- The tokens before and behind any place are those of the two parts of the text. -/
theorem of_append (h : IsTokenization n s (pre ++ post)) :
    IsTokenization n (pre.flatMap Token.raw) pre ∧
      IsTokenization (n + Text.newlines (pre.flatMap Token.raw)) (post.flatMap Token.raw) post := by
  refine ⟨⟨rfl, ?_⟩, ⟨rfl, ?_⟩⟩
  · rintro before t after rfl
    exact (h.hasPlace before t (after ++ post) (by simp)).of_append
  · rintro before t after rfl
    exact Token.HasPlace.append_iff.1 (h.hasPlace (pre ++ before) t after (by simp))

/-- A text whose first token is no plain text is empty or starts with an opener. -/
theorem endsRun (h : IsTokenization n s ts)
    (hfirst : ∀ u ∈ ts.head?, u.kind = .text → ∃ k : UnitKind, k.IsUnclosed u.raw) :
    EndsRun s := by
  cases ts with
  | nil => exact .inl h.raws.symm
  | cons u us =>
    right
    rw [← h.raws, List.flatMap_cons]
    cases hu : u.kind with
    | text =>
      obtain ⟨k, hk⟩ := hfirst u rfl hu
      exact hk.opened?_append_isSome _
    | unit k =>
      have hunit := (h.hasPlace [] u us rfl).unit k hu
      exact (UnitKind.isComplete_iff_delimits.2 hunit).opened?_append_isSome _

end IsTokenization

section scanFrom

variable {n : Nat} {s : Text} {ts : List Token}

/-- Where an opener stands, a unit is scanned or text that has no end. -/
theorem exists_isUnclosed_of_opened (hs : (opened? s).isSome) (n : Nat) :
    ∀ u ∈ (scanFrom n s).head?, u.kind = .text → ∃ k : UnitKind, k.IsUnclosed u.raw := by
  obtain ⟨⟨k, inside⟩, ho⟩ := Option.isSome_iff_exists.1 hs
  rw [opened?_eq ho]
  intro u hu htext
  cases hsplit : splitUnit k none inside with
  | none =>
    rw [scanFrom_of_unclosed hsplit, List.head?_cons, Option.mem_some_iff] at hu
    rw [← hu]
    exact ⟨k, inside, rfl, splitUnit_eq_none_iff.1 hsplit⟩
  | some r =>
    have hcomplete : k.IsComplete (k.opener ++ r.1) := ⟨r.1, rfl, splitUnit_self hsplit⟩
    rw [← splitUnit_append hsplit, ← List.append_assoc,
      scanFrom_append_of_isComplete hcomplete, List.head?_cons, Option.mem_some_iff] at hu
    rw [← hu] at htext
    cases htext

/-- Every token that is scanned has its place in the text. -/
theorem isTokenization_scanFrom (n : Nat) (s : Text) : IsTokenization n s (scanFrom n s) := by
  induction n, s using scan_induction with
  | nil n =>
    rw [scanFrom_nil]
    exact .nil
  | unit n k raw rest hraw ih =>
    rw [scanFrom_append_of_isComplete hraw]
    exact .cons (.of_delimits (UnitKind.isComplete_iff_delimits.1 hraw)) ih
  | run n c run rest hrun hrest ih =>
    rw [scanFrom_append_of_plainBefore hrun hrest]
    have halone : PlainBefore [] (c :: run) := .of_append hrun
    have hplain := plainBefore_nil_iff.1 halone
    refine .cons (.of_plain (List.cons_ne_nil c run) hplain ?_ ?_) ih
    · obtain rfl | hopen := hrest
      · simp
      · exact exists_isUnclosed_of_opened hopen _
    · obtain rfl | hopen := hrest
      · simp
      · exact fun _ => hrun.getLast?_ne hopen
  | unclosed n k inside h =>
    have hunclosed : k.IsUnclosed (k.opener ++ inside) :=
      ⟨inside, rfl, splitUnit_eq_none_iff.1 h⟩
    have hcons := IsTokenization.cons (Token.HasPlace.of_isUnclosed (n := n) hunclosed) .nil
    rwa [List.append_nil, ← scanFrom_of_unclosed h] at hcons

/-- Tokens that have their places in a text are those that are scanned. -/
theorem IsTokenization.eq_scanFrom (h : IsTokenization n s ts) : ts = scanFrom n s := by
  induction ts generalizing n s with
  | nil =>
    rw [← h.raws, List.flatMap_nil, scanFrom_nil]
  | cons t ts ih =>
    have hplace := h.hasPlace [] t ts rfl
    rw [← h.raws, List.flatMap_cons]
    rw [← List.singleton_append] at h
    obtain ⟨-, hts⟩ := h.of_append
    obtain ⟨kind, raw, line⟩ := t
    obtain rfl : line = n := by simpa [Text.newlines] using hplace.line
    simp only [List.flatMap_cons, List.flatMap_nil, List.append_nil] at hts
    cases kind with
    | unit k =>
      have hcomplete := UnitKind.isComplete_iff_delimits.2 (hplace.unit k rfl)
      rw [scanFrom_append_of_isComplete hcomplete, ← ih hts]
    | text =>
      obtain hplain | ⟨rfl, k, inside, rfl, hopen⟩ := hplace.text rfl
      · have hends := hts.endsRun (hplace.adjacent rfl)
        have halone : PlainBefore [] raw := plainBefore_nil_iff.2 hplain
        have hrun : PlainBefore (ts.flatMap Token.raw) raw := by
          refine halone.append ?_
          rw [List.append_nil]
          intro hlast
          cases ts with
          | nil => rfl
          | cons u us => exact absurd hlast (hplace.seam rfl (List.cons_ne_nil u us))
        cases raw with
        | nil => exact absurd rfl hplace.ne_nil
        | cons c run => rw [scanFrom_append_of_plainBefore hrun hends, ← ih hts]
      · rw [List.flatMap_nil, List.append_nil,
          scanFrom_of_unclosed (splitUnit_eq_none_iff.2 hopen)]

end scanFrom

/-- The tokens of a text are the complete units in it, each up to its first closer, the runs of
text without an opener between them, and at the end what follows the opener of a unit that is never
closed. They make up the whole text, and each knows its line. -/
theorem scan_eq_iff_isTokenization (s : Text) (ts : List Token) :
    scan s = ts ↔ IsTokenization 1 s ts := by
  constructor
  · rintro rfl
    exact isTokenization_scanFrom 1 s
  · intro h
    exact h.eq_scanFrom.symm

example : scan "a\x7b\x7b%\x7d\x7d\x7b#\x7d#\x7db\x7b% '%\x7d".toList =
    [⟨.text, "a".toList, 1⟩, ⟨.unit .output, "\x7b\x7b%\x7d\x7d".toList, 1⟩,
      ⟨.unit .comment, "\x7b#\x7d#\x7d".toList, 1⟩, ⟨.text, "b".toList, 1⟩,
      ⟨.text, "\x7b% '%\x7d".toList, 1⟩] := by
  decide +kernel

end CatalogueSync
