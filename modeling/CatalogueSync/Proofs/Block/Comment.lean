import CatalogueSync.Block
import CatalogueSync.Proofs.Token.Composition

/-!
# Comments that lead a block

`takeComment` takes a comment exactly when the text, without leading whitespace, starts with a
closed one (`takeComment_scanFrom_cases`). A comment that fits (`FitsComment`) is read back from
its unit, and every comment that is read fits.
-/

set_option autoImplicit false

namespace CatalogueSync

namespace Text

theorem contains_iff_infix {needle s : Text} : contains needle s = true ↔ needle <:+: s := by
  induction s with
  | nil => simp [contains]
  | cons c s ih =>
    rw [contains, Bool.or_eq_true, ih, List.isPrefixOf_iff_prefix, List.infix_cons_iff]

/-- What does not occur in a text does not occur in a part of it. -/
theorem contains_eq_false_of_infix {needle s t : Text} (ht : t <:+: s)
    (h : contains needle s = false) : contains needle t = false := by
  rw [← Bool.not_eq_true, contains_iff_infix] at h ⊢
  exact fun hneedle => h (hneedle.trans ht)

theorem trim_infix (s : Text) : trim s <:+: s := by
  obtain ⟨w, w', -, -, hs⟩ := exists_surround s
  exact ⟨w, w', hs.symm⟩

end Text

/-- A text that can stand alone in a comment. -/
structure FitsComment (c : Text) : Prop where
  ne_nil : c ≠ []
  trimmed : Text.trim c = c
  unclosed : Text.contains UnitKind.comment.closer c = false

namespace UnitKind

/-- In a comment no character hides the closer. -/
theorem splitUnit_comment_append {p : Text} (hp : Text.contains comment.closer p = false) :
    splitUnit comment none (p ++ ' ' :: comment.closer) =
      some (p ++ ' ' :: comment.closer, []) := by
  induction p with
  | nil => rfl
  | cons c p ih =>
    rw [Text.contains, Bool.or_eq_false_iff] at hp
    have hc : comment.closer.isPrefixOf (c :: (p ++ ' ' :: comment.closer)) = false := by
      cases p with
      | nil => simp
      | cons d p =>
        rw [closer_isPrefixOf_cons_cons] at hp
        rw [List.cons_append, closer_isPrefixOf_cons_cons, hp.1]
    have hquotes : (comment.quotes && Text.isQuote c) = false := rfl
    rw [List.cons_append, splitUnit_cons hc, hquotes, if_neg Bool.false_ne_true, ih hp.2]
    rfl

theorem isComplete_comment {p : Text} (hp : Text.contains comment.closer p = false) :
    comment.IsComplete (comment.opener ++ (p ++ [' ']) ++ comment.closer) := by
  refine ⟨p ++ [' '] ++ comment.closer, List.append_assoc .., ?_⟩
  rw [List.append_assoc]
  exact splitUnit_comment_append hp

/-- A comment ends at its first closer. -/
theorem IsComplete.exists_comment {raw : Text} (h : comment.IsComplete raw) :
    ∃ content, raw = comment.opener ++ content ++ comment.closer ∧
      Text.contains comment.closer content = false := by
  obtain ⟨content, rfl, hfirst⟩ := isComplete_iff_delimits.1 h
  refine ⟨content, rfl, ?_⟩
  rw [← Bool.not_eq_true, Text.contains_iff_infix]
  rintro ⟨before, after, rfl⟩
  have hcloses : comment.ClosesAfter before
      (before ++ comment.closer ++ after ++ comment.closer) :=
    ⟨⟨after ++ comment.closer, by simp⟩, by intro hquotes; cases hquotes⟩
  have hlen := hfirst.first before hcloses
  simp only [List.length_append, closer, List.length_cons, List.length_nil] at hlen
  omega

end UnitKind

/-- The comment that a comment unit with some content gives: none if the content is blank. -/
def commentOf (content : Text) : Option Text :=
  if (Text.trim content).isEmpty then none else some (Text.trim content)

theorem FitsComment.of_commentOf {content c : Text}
    (hcontent : Text.contains UnitKind.comment.closer content = false)
    (h : commentOf content = some c) : FitsComment c := by
  unfold commentOf at h
  split at h
  · simp at h
  · rename_i hne
    obtain rfl := Option.some.inj h
    exact ⟨by simpa using hne, Text.trim_trim content,
      Text.contains_eq_false_of_infix (Text.trim_infix content) hcontent⟩

section takeComment

variable {n : Nat} {s w : Text}

theorem plainBefore_of_isBlank {rest : Text} (hw : Text.isBlank w = true) :
    PlainBefore rest w := by
  induction w with
  | nil => exact .nil
  | cons c w ih =>
    simp only [Text.isBlank, List.all_cons, Bool.and_eq_true] at hw
    exact .cons (opened?_of_ne (Text.ne_openBrace_of_isSpace hw.1) _) (ih hw.2)

/-- Whitespace is one blank token, or none. -/
theorem scanFrom_isBlank_append {rest : Text} (hw : Text.isBlank w = true)
    (hrest : EndsRun rest) (n : Nat) :
    ∃ ts, (∀ t ∈ ts, t.isBlank = true) ∧
      scanFrom n (w ++ rest) = ts ++ scanFrom (n + Text.newlines w) rest := by
  cases w with
  | nil => exact ⟨[], by simp, by simp [Text.newlines]⟩
  | cons c w =>
    refine ⟨[⟨.text, c :: w, n⟩], ?_, ?_⟩
    · intro t ht
      rw [List.mem_singleton.1 ht]
      simpa [Token.isBlank] using hw
    · exact scanFrom_append_of_plainBefore (plainBefore_of_isBlank hw) hrest n

/-- A closed comment after whitespace is taken. -/
theorem takeComment_scanFrom {content : Text} (hw : Text.isBlank w = true)
    (hcomment : UnitKind.comment.IsComplete
      (UnitKind.comment.opener ++ content ++ UnitKind.comment.closer)) (n : Nat) (rest : Text) :
    ∃ m, takeComment (scanFrom n
        (w ++ (UnitKind.comment.opener ++ content ++ UnitKind.comment.closer ++ rest))) =
      (commentOf content, scanFrom m rest) := by
  have hends : EndsRun
      (UnitKind.comment.opener ++ content ++ UnitKind.comment.closer ++ rest) :=
    .inr (hcomment.opened?_append_isSome rest)
  obtain ⟨ts, hts, hscan⟩ := scanFrom_isBlank_append hw hends n
  rw [hscan, scanFrom_append_of_isComplete hcomment]
  have hdrop : ∀ (t : Token) (rest : List Token), t.isBlank = false →
      (ts ++ t :: rest).dropWhile Token.isBlank = t :: rest := by
    intro t rest ht
    rw [List.dropWhile_append_of_pos hts, List.dropWhile_cons_of_neg (by simp [ht])]
  refine ⟨n + Text.newlines w + Text.newlines
    (UnitKind.comment.opener ++ content ++ UnitKind.comment.closer), ?_⟩
  rw [takeComment, hdrop _ _ rfl]
  simp only [if_true, Token.body_of_unit]
  rfl

/-- A text starts with a closed comment after whitespace, or the first token that is not blank is
no comment. -/
theorem leadingComment_cases (n : Nat) (s : Text) :
    (∃ w raw rest, Text.isBlank w = true ∧ UnitKind.comment.IsComplete raw ∧
      s = w ++ (raw ++ rest)) ∨
    ∀ t ∈ ((scanFrom n s).dropWhile Token.isBlank).head?, t.kind ≠ .unit .comment := by
  induction n, s using scan_induction with
  | nil n =>
    right
    simp
  | unit n k raw rest hraw ih =>
    by_cases hk : k = .comment
    · subst hk
      exact .inl ⟨[], raw, rest, rfl, hraw, rfl⟩
    · right
      rw [scanFrom_append_of_isComplete hraw, List.dropWhile_cons_of_neg (by simp [Token.isBlank])]
      intro t ht
      obtain rfl := Option.some.inj ht
      simpa using hk
  | run n c run rest hrun hrest ih =>
    rw [scanFrom_append_of_plainBefore hrun hrest]
    by_cases hblank : Text.isBlank (c :: run) = true
    · rw [List.dropWhile_cons_of_pos (by simpa [Token.isBlank] using hblank)]
      obtain ⟨w, raw, rest', hw, hraw, rfl⟩ | hnot := ih
      · refine .inl ⟨c :: run ++ w, raw, rest', ?_, hraw, by simp⟩
        rw [Text.isBlank, List.all_append, Bool.and_eq_true]
        exact ⟨hblank, hw⟩
      · exact .inr hnot
    · right
      rw [List.dropWhile_cons_of_neg (by simpa [Token.isBlank] using hblank)]
      intro t ht
      obtain rfl := Option.some.inj ht
      simp
  | unclosed n k inside hu =>
    right
    rw [scanFrom_of_unclosed hu]
    intro t ht
    have hmem := (List.dropWhile_subset Token.isBlank) (List.mem_of_mem_head? ht)
    obtain rfl := List.mem_singleton.1 hmem
    simp

theorem takeComment_eq_none {ts : List Token}
    (h : ∀ t ∈ (ts.dropWhile Token.isBlank).head?, t.kind ≠ .unit .comment) :
    takeComment ts = (none, ts) := by
  unfold takeComment
  split
  · rename_i t rest hdrop
    rw [hdrop] at h
    rw [if_neg (h t rfl)]
  · rfl

/-- Text alone holds no comment. -/
theorem takeComment_eq_none_of_text {ts : List Token} (h : ∀ t ∈ ts, t.kind = .text) :
    takeComment ts = (none, ts) := by
  apply takeComment_eq_none
  intro t ht
  have hmem : t ∈ ts :=
    (List.dropWhile_sublist _).subset (List.mem_of_mem_head? ht)
  simp [h t hmem]

/-- Either a closed comment leads the text and is taken, or nothing is taken. -/
theorem takeComment_scanFrom_cases (n : Nat) (s : Text) :
    (∃ content m rest, Text.contains UnitKind.comment.closer content = false ∧
      takeComment (scanFrom n s) = (commentOf content, scanFrom m rest)) ∨
    takeComment (scanFrom n s) = (none, scanFrom n s) := by
  obtain ⟨w, raw, rest, hw, hraw, rfl⟩ | hnot := leadingComment_cases n s
  · obtain ⟨content, rfl, hcontent⟩ := hraw.exists_comment
    obtain ⟨m, htake⟩ := takeComment_scanFrom hw hraw n rest
    exact .inl ⟨content, m, rest, hcontent, htake⟩
  · exact .inr (takeComment_eq_none hnot)

/-- Without a comment's opener at the start no comment is taken. -/
theorem takeComment_scanFrom_of_not_prefix
    (h : ¬UnitKind.comment.opener <+: Text.trimStart s) (n : Nat) :
    takeComment (scanFrom n s) = (none, scanFrom n s) := by
  obtain ⟨w, raw, rest, hw, hraw, rfl⟩ | hnot := leadingComment_cases n s
  · obtain ⟨inside, rfl, -⟩ := hraw
    have hbrace : Text.trimStart (UnitKind.comment.opener ++ inside ++ rest) =
        UnitKind.comment.opener ++ inside ++ rest := by
      rw [Text.trimStart_eq_self_iff]
      intro c hc
      obtain rfl := Option.some.inj hc
      decide
    rw [Text.trimStart_append_of_isBlank hw, hbrace, List.append_assoc] at h
    exact absurd (List.prefix_append ..) h
  · exact takeComment_eq_none hnot

/-- The comment that is read fits, and what is left is scanned as it stands. -/
theorem of_takeComment_scanFrom {c? : Option Text} {ts : List Token}
    (h : takeComment (scanFrom n s) = (c?, ts)) :
    (∀ c ∈ c?, FitsComment c) ∧ ∃ m rest, ts = scanFrom m rest := by
  obtain ⟨content, m, rest, hcontent, htake⟩ | htake := takeComment_scanFrom_cases n s
  · rw [htake] at h
    obtain ⟨rfl, rfl⟩ := Prod.mk.inj h
    exact ⟨fun c hc => .of_commentOf hcontent hc, m, rest, rfl⟩
  · rw [htake] at h
    obtain ⟨rfl, rfl⟩ := Prod.mk.inj h
    exact ⟨by simp, n, s, rfl⟩

end takeComment

end CatalogueSync
