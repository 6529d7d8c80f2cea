import CatalogueSync.Proofs.Token.Tokenization

/-!
# Scanning texts in parts

Scanning remembers nothing from one token to the next but the line. A text can be cut between any
two tokens, and the parts are scanned as they were in the whole; texts can be joined, and their
tokens are those of the parts (`scan_split_and_join`), but for the text at the seam
(`Token.join`): two runs of plain text become one.
-/

set_option autoImplicit false

namespace CatalogueSync

namespace Token

/-- The token, `m` lines further down. -/
def movedDown (m : Nat) (t : Token) : Token :=
  { t with line := t.line + m }

/-- A token in front of others, where plain text behind a text is joined to it. A unit that is
never closed is no plain text and stays on its own. -/
def joinFirst (t : Token) : List Token → List Token
  | [] => [t]
  | u :: us =>
    if t.kind = .text ∧ u.kind = .text ∧ u.unclosed? = none then
      { t with raw := t.raw ++ u.raw } :: us
    else t :: u :: us

/-- The tokens of one text in front of those of another, where the text at the seam is joined. -/
def join : List Token → List Token → List Token
  | [], us => us
  | [t], us => joinFirst t us
  | t :: t' :: ts, us => t :: join (t' :: ts) us

section join

variable {t : Token} {ts us : List Token}

theorem joinFirst_eq_cons (h : t.kind = .text → ∀ u ∈ us.head?, u.kind = .text →
    u.unclosed? ≠ none) : joinFirst t us = t :: us := by
  cases us with
  | nil => rfl
  | cons u us =>
    rw [joinFirst, if_neg]
    rintro ⟨ht, hu, hplain⟩
    exact h ht u rfl hu hplain

theorem join_cons_of_ne_nil (h : ts ≠ []) (t : Token) (us : List Token) :
    join (t :: ts) us = t :: join ts us := by
  cases ts with
  | nil => exact absurd rfl h
  | cons t' ts => rfl

theorem join_cons_of_ne_text (h : t.kind ≠ .text) (ts us : List Token) :
    join (t :: ts) us = t :: join ts us := by
  cases ts with
  | nil => exact joinFirst_eq_cons fun ht => absurd ht h
  | cons t' ts => rfl

/-- Only plain text at the start of the second text is joined. -/
theorem join_eq_append (h : ∀ u ∈ us.head?, u.kind = .text → u.unclosed? ≠ none) :
    join ts us = ts ++ us := by
  induction ts with
  | nil => rfl
  | cons t ts ih =>
    cases ts with
    | nil => exact joinFirst_eq_cons fun _ => h
    | cons t' ts =>
      rw [join_cons_of_ne_nil (List.cons_ne_nil t' ts), ih]
      rfl

end join

end Token

section scanFrom

/-- The line on which a text starts has no part in its tokens but for their lines. -/
theorem scanFrom_add (n m : Nat) (s : Text) :
    scanFrom (n + m) s = (scanFrom n s).map (Token.movedDown m) := by
  induction n, s using scan_induction with
  | nil n => simp
  | unit n k raw rest hraw ih =>
    rw [scanFrom_append_of_isComplete hraw, scanFrom_append_of_isComplete hraw,
      Nat.add_right_comm, ih]
    rfl
  | run n c run rest hrun hrest ih =>
    rw [scanFrom_append_of_plainBefore hrun hrest, scanFrom_append_of_plainBefore hrun hrest,
      Nat.add_right_comm, ih]
    rfl
  | unclosed n k inside h =>
    rw [scanFrom_of_unclosed h, scanFrom_of_unclosed h]
    rfl

/-- Plain text in front of another text is joined to its first token, if that is plain text too. -/
theorem scanFrom_run_append {c : Char} {run b : Text} (hrun : PlainBefore b (c :: run)) (n : Nat) :
    scanFrom n (c :: run ++ b) =
      Token.joinFirst ⟨.text, c :: run, n⟩ (scanFrom (n + Text.newlines (c :: run)) b) := by
  generalize hm : n + Text.newlines (c :: run) = m
  induction m, b using scan_induction with
  | nil m =>
    rw [scanFrom_append_of_plainBefore hrun (.inl rfl), scanFrom_nil, scanFrom_nil]
    rfl
  | unit m k raw rest hraw _ =>
    have hends : EndsRun (raw ++ rest) := .inr (hraw.opened?_append_isSome rest)
    rw [scanFrom_append_of_plainBefore hrun hends, hm, scanFrom_append_of_isComplete hraw,
      Token.joinFirst_eq_cons]
    simp
  | run m c' run' rest hrun' hrest _ =>
    have hc : opened? (c' :: run') = none := by
      cases hrun' with
      | cons hc _ => exact opened?_eq_none_of_append hc
    have hboth : PlainBefore rest (c :: (run ++ c' :: run')) := hrun.append_run hrun'
    have hscan := scanFrom_append_of_plainBefore hboth hrest n
    rw [scanFrom_append_of_plainBefore hrun' hrest, Token.joinFirst,
      if_pos ⟨rfl, rfl, (Token.unclosed?_of_text m).2 hc⟩, ← hm, Nat.add_assoc,
      ← Text.newlines_append]
    simpa using hscan
  | unclosed m k inside h =>
    have hends : EndsRun (k.opener ++ inside) := .inr (by simp)
    rw [scanFrom_append_of_plainBefore hrun hends, hm, scanFrom_of_unclosed h,
      Token.joinFirst_eq_cons]
    simp [Token.unclosed?_of_text]

/-- Where a run of plain text has ended, the next token is no plain text. -/
theorem unclosed?_ne_none_of_endsRun {s : Text} (hs : EndsRun s) (n : Nat) :
    ∀ u ∈ (scanFrom n s).head?, u.kind = .text → u.unclosed? ≠ none := by
  obtain rfl | hopen := hs
  · simp
  · intro u hu htext
    obtain ⟨k, inside, hraw, -⟩ := exists_isUnclosed_of_opened hopen n u hu htext
    obtain ⟨kind, raw, line⟩ := u
    obtain rfl : kind = .text := htext
    obtain rfl : raw = k.opener ++ inside := hraw
    simp [Token.unclosed?_of_text]

/-- Text behind a text without unclosed units goes on where that text ends, unless a brace at its
end makes an opener. -/
theorem scanFrom_append {n : Nat} {a b : Text} (hclosed : ∀ t ∈ scanFrom n a, t.unclosed? = none)
    (hseam : a.getLast? = some '{' → opened? ('{' :: b) = none) :
    scanFrom n (a ++ b) = Token.join (scanFrom n a) (scanFrom (n + Text.newlines a) b) := by
  induction n, a using scan_induction with
  | nil n => simp [Token.join, Text.newlines]
  | unit n k raw rest hraw ih =>
    rw [scanFrom_append_of_isComplete hraw] at hclosed ⊢
    have hrest := (List.forall_mem_cons.1 hclosed).2
    have hseam' : rest.getLast? = some '{' → opened? ('{' :: b) = none := fun hlast =>
      hseam (by rw [List.getLast?_append, hlast]; rfl)
    rw [List.append_assoc, scanFrom_append_of_isComplete hraw, ih hrest hseam',
      Token.join_cons_of_ne_text (by simp), Text.newlines_append, Nat.add_assoc]
  | run n c run rest hrun hrest ih =>
    rw [scanFrom_append_of_plainBefore hrun hrest] at hclosed ⊢
    have hboth : PlainBefore (rest ++ b) (c :: run) := hrun.append hseam
    obtain rfl | hopen := hrest
    · rw [List.nil_append] at hboth
      rw [List.append_nil, scanFrom_run_append hboth, scanFrom_nil]
      rfl
    · have hseam' : rest.getLast? = some '{' → opened? ('{' :: b) = none := fun hlast =>
        hseam (by rw [List.getLast?_append, hlast]; rfl)
      have hends : EndsRun (rest ++ b) := .inr (opened?_append_isSome hopen b)
      have hne : scanFrom (n + Text.newlines (c :: run)) rest ≠ [] := by
        have hrest : rest ≠ [] := by
          rintro rfl
          cases hopen
        rw [scanFrom_of_ne_nil hrest]
        exact List.cons_ne_nil _ _
      rw [List.append_assoc, scanFrom_append_of_plainBefore hboth hends,
        ih (List.forall_mem_cons.1 hclosed).2 hseam', Token.join_cons_of_ne_nil hne,
        Text.newlines_append, Nat.add_assoc]
  | unclosed n k inside h =>
    rw [scanFrom_of_unclosed h] at hclosed
    have ht := (Token.unclosed?_of_text n).1 (hclosed _ List.mem_cons_self)
    simp at ht

/-- The tokens on either side of a place between two tokens are those of the texts on either
side. -/
theorem scanFrom_of_eq_append {n : Nat} {s : Text} {pre post : List Token}
    (h : scanFrom n s = pre ++ post) :
    scanFrom n (pre.flatMap Token.raw) = pre ∧
      scanFrom (n + Text.newlines (pre.flatMap Token.raw)) (post.flatMap Token.raw) = post := by
  have htokens := isTokenization_scanFrom n s
  rw [h] at htokens
  obtain ⟨hpre, hpost⟩ := htokens.of_append
  exact ⟨hpre.eq_scanFrom.symm, hpost.eq_scanFrom.symm⟩

end scanFrom

/-- The tokens of a text can be parted anywhere: each part is what the text of the part is scanned
as, where lines count from the start of that text. And two texts can be joined when no unit is open
at the end of the first one and no brace stands there: the whole is scanned as the first one and
then the second one, with text at the seam made one token. -/
theorem scan_split_and_join :
    (∀ s pre post, scan s = pre ++ post →
      scan (pre.flatMap Token.raw) = pre ∧
        (scan (post.flatMap Token.raw)).map
          (Token.movedDown (Text.newlines (pre.flatMap Token.raw))) = post) ∧
      ∀ a b, (∀ t ∈ scan a, t.unclosed? = none) → a.getLast? ≠ some '{' →
        scan (a ++ b) =
          Token.join (scan a) ((scan b).map (Token.movedDown (Text.newlines a))) := by
  constructor
  · intro s pre post h
    obtain ⟨hpre, hpost⟩ := scanFrom_of_eq_append h
    rw [scanFrom_add] at hpost
    exact ⟨hpre, hpost⟩
  · intro a b hclosed hbrace
    have hseam : a.getLast? = some '{' → opened? ('{' :: b) = none := fun hlast =>
      absurd hlast hbrace
    have hjoin := scanFrom_append hclosed hseam
    rwa [scanFrom_add] at hjoin

/-- A tag over two lines, with a closer in a literal, in front of a unit that is never closed; and
a comment over two lines with text on either side of the seam. -/
theorem scan_split_and_join_lines :
    ∃ pre post, scan "x\x7b% '%\x7d\n' %\x7d\ny\x7b\x7b".toList = pre ++ post ∧
      pre.map Token.raw = ["x".toList, "\x7b% '%\x7d\n' %\x7d".toList] ∧
      post.map Token.line = [2, 3] ∧
      scan (pre.flatMap Token.raw) = pre ∧
      (scan (post.flatMap Token.raw)).map (Token.movedDown 1) = post ∧
      scan ("\x7b#\n#\x7du".toList ++ "v\nw\x7b%".toList) =
        [⟨.unit .comment, "\x7b#\n#\x7d".toList, 1⟩, ⟨.text, "uv\nw".toList, 2⟩,
          ⟨.text, "\x7b%".toList, 3⟩] := by
  obtain ⟨hsplit, hjoin⟩ := scan_split_and_join
  have hscan : scan "x\x7b% '%\x7d\n' %\x7d\ny\x7b\x7b".toList =
      [⟨.text, ['x'], 1⟩, ⟨.unit .tag, "\x7b% '%\x7d\n' %\x7d".toList, 1⟩] ++
        [⟨.text, "\ny".toList, 2⟩, ⟨.text, "\x7b\x7b".toList, 3⟩] := by
    decide +kernel
  obtain ⟨hpre, hpost⟩ := hsplit _ _ _ hscan
  refine ⟨_, _, hscan, rfl, rfl, hpre, hpost, ?_⟩
  rw [hjoin "\x7b#\n#\x7du".toList _ (by decide +kernel) (by decide)]
  decide +kernel

end CatalogueSync
