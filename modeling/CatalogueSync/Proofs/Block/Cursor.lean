import CatalogueSync.Cursor
import CatalogueSync.Proofs.Block.Grammar

/-!
# Moves of a cursor

`Cursor.Gives` says of each move of a cursor what it gives and where the cursor stands afterwards,
in terms of the list of tokens and the position alone: a block runs to the first tag that can close
it, a comment is taken when only blank text is before it. A cursor makes exactly these moves
(`Cursor.gives_iff_run`), it never loses a token (`Cursor.tokens_run`), and so every run of moves
goes as the list of tokens demands (`Cursor.runAll_iff_givesAll`).

The moves over several tokens come down to the moves over one: a block is read by advancing up to
its closing tag (`Cursor.readBlock_eq_advanceToClosing`), a comment is taken by advancing over blank
text and going back where there is none (`Cursor.takeComment_eq_advanceOverBlank`).
-/

set_option autoImplicit false

namespace CatalogueSync.Cursor

/-- A move of a cursor. -/
inductive Move where
  | peek
  | advance
  | moveTo (position : Nat)
  | readBlock (closing : List Text) (openedAt : Nat)
  | takeComment

/-- What a move gives. -/
inductive Answer where
  | token (t : Option Token)
  | nothing
  | block (b : Except ParseError Block)
  | comment (text : Option Text)
  deriving DecidableEq

/-- What a move gives, and the cursor after it. -/
def Move.run (c : Cursor) : Move → Answer × Cursor
  | peek => (.token c.peek?, c)
  | advance => (.token c.advance.1, c.advance.2)
  | moveTo position => (.nothing, c.moveTo position)
  | readBlock closing openedAt =>
    (.block (c.readBlock closing openedAt).1, (c.readBlock closing openedAt).2)
  | takeComment => (.comment c.takeComment.1, c.takeComment.2)

/-- What some moves give one after the other, and the cursor after them. -/
def Move.runAll (c : Cursor) : List Move → List Answer × Cursor
  | [] => ([], c)
  | move :: moves =>
    let (answer, c') := move.run c
    let (answers, c'') := runAll c' moves
    (answer :: answers, c'')

/-- What a move gives at position `p` among the tokens `ts`, and the position after it. -/
inductive Gives (ts : List Token) (p : Nat) : Move → Answer → Nat → Prop where
  | peek : Gives ts p .peek (.token ts[p]?) p
  | advance : Gives ts p .advance (.token ts[p]?) (min (p + 1) ts.length)
  | moveTo (position : Nat) : Gives ts p (.moveTo position) .nothing (min position ts.length)
  | closed {closing : List Text} {body after : List Token} {t : Token} {close : Tag}
      (openedAt : Nat) (hts : ts.drop p = body ++ t :: after)
      (hbody : ∀ u ∈ body, u.tag? closing = none) (ht : t.tag? closing = some close) :
      Gives ts p (.readBlock closing openedAt)
        (.block (.ok ⟨Text.trim (body.flatMap Token.raw), close⟩)) (p + body.length + 1)
  | unclosed {closing : List Text} (openedAt : Nat)
      (hts : ∀ u ∈ ts.drop p, u.tag? closing = none) :
      Gives ts p (.readBlock closing openedAt)
        (.block (.error (.unterminatedBlock openedAt closing))) ts.length
  | comment {blank after : List Token} {t : Token} (hts : ts.drop p = blank ++ t :: after)
      (hblank : ∀ u ∈ blank, u.isBlank = true) (ht : t.kind = .unit .comment) :
      Gives ts p .takeComment (.comment (if t.body = [] then none else some t.body))
        (p + blank.length + 1)
  | noComment (hts : ¬StartsWithComment (ts.drop p)) : Gives ts p .takeComment (.comment none) p

/-- What some moves give from position `p` on, and the position after them. No move ends beyond the
tokens. -/
inductive GivesAll (ts : List Token) : Nat → List Move → List Answer → Nat → Prop where
  | nil {p : Nat} : GivesAll ts p [] [] p
  | cons {p q r : Nat} {move : Move} {moves : List Move} {answer : Answer} {answers : List Answer}
      (hmove : Gives ts p move answer q) (hq : q ≤ ts.length)
      (hmoves : GivesAll ts q moves answers r) :
      GivesAll ts p (move :: moves) (answer :: answers) r

section place

variable {c : Cursor}

theorem drop_position (c : Cursor) : c.tokens.drop c.position = c.remaining :=
  List.drop_left

theorem position_le (c : Cursor) : c.position ≤ c.tokens.length := by
  rw [tokens, List.length_append]
  exact Nat.le_add_right ..

theorem eq_of_position_eq {c' : Cursor} (htokens : c.tokens = c'.tokens)
    (hposition : c.position = c'.position) : c = c' := by
  obtain ⟨passed, remaining⟩ := c
  obtain ⟨passed', remaining'⟩ := c'
  obtain ⟨rfl, rfl⟩ := List.append_inj htokens hposition
  rfl

theorem isExhausted_iff : c.isExhausted = true ↔ c.position = c.tokens.length := by
  rw [isExhausted, List.isEmpty_iff, ← drop_position, List.drop_eq_nil_iff]
  exact ⟨fun h => Nat.le_antisymm c.position_le h, Nat.le_of_eq ∘ Eq.symm⟩

theorem peek?_eq (c : Cursor) : c.peek? = c.tokens[c.position]? := by
  rw [peek?, ← drop_position, List.head?_drop]

@[simp]
theorem tokens_moveTo (c : Cursor) (p : Nat) : (c.moveTo p).tokens = c.tokens :=
  List.take_append_drop ..

@[simp]
theorem position_moveTo (c : Cursor) (p : Nat) :
    (c.moveTo p).position = min p c.tokens.length :=
  List.length_take ..

@[simp]
theorem tokens_leaving (c : Cursor) (left : Nat) : (c.leaving left).tokens = c.tokens :=
  c.tokens_moveTo _

theorem leaving_length (taken rest : List Token) (h : c.tokens = taken ++ rest) :
    c.leaving rest.length = ⟨taken, rest⟩ := by
  rw [leaving, moveTo, h, List.length_append, Nat.add_sub_cancel, List.take_left, List.drop_left]

/-- The cursor that leaves the tokens `rest` has passed those before them. -/
theorem position_leaving (taken rest : List Token) (h : c.remaining = taken ++ rest) :
    (c.leaving rest.length).position = c.position + taken.length := by
  have htokens : c.tokens = c.passed ++ taken ++ rest := by
    rw [tokens, h, List.append_assoc]
  rw [leaving_length _ _ htokens]
  exact List.length_append

theorem advance_cons (passed remaining : List Token) (t : Token) :
    advance ⟨passed, t :: remaining⟩ = (some t, ⟨passed ++ [t], remaining⟩) := by
  have htokens : tokens ⟨passed, t :: remaining⟩ = passed ++ [t] ++ remaining :=
    List.append_cons passed t remaining
  have hposition : position ⟨passed, t :: remaining⟩ + 1 = (passed ++ [t]).length := by
    rw [position, List.length_append, List.length_singleton]
  rw [advance, moveTo, htokens, hposition, List.take_left, List.drop_left]

theorem advance_fst (c : Cursor) : c.advance.1 = c.peek? := by
  rw [advance, peek?]
  cases c.remaining <;> rfl

theorem tokens_advance (c : Cursor) : c.advance.2.tokens = c.tokens := by
  rw [advance]
  split
  · rfl
  · exact c.tokens_moveTo _

theorem position_advance (c : Cursor) :
    c.advance.2.position = min (c.position + 1) c.tokens.length := by
  have htokens : c.tokens.length = c.position + c.remaining.length := List.length_append
  rw [advance]
  split
  · rename_i hnil
    rw [hnil, List.length_nil] at htokens
    change c.position = _
    omega
  · exact c.position_moveTo _

end place

section readers

variable {c : Cursor} {closing : List Text} {openedAt : Nat}

theorem tokens_readBlock (c : Cursor) (closing : List Text) (openedAt : Nat) :
    (c.readBlock closing openedAt).2.tokens = c.tokens := by
  rw [readBlock]
  split <;> exact c.tokens_leaving _

/-- A block that is read ends the cursor's move right behind its closing tag. -/
theorem readBlock_of_tag? {body after : List Token} {t : Token} {close : Tag}
    (hremaining : c.remaining = body ++ t :: after) (hbody : ∀ u ∈ body, u.tag? closing = none)
    (ht : t.tag? closing = some close) (openedAt : Nat) :
    (c.readBlock closing openedAt).1 = .ok ⟨Text.trim (body.flatMap Token.raw), close⟩ ∧
      (c.readBlock closing openedAt).2.position = c.position + body.length + 1 := by
  have hread : CatalogueSync.readBlock closing openedAt c.remaining =
      .ok (⟨Text.trim (body.flatMap Token.raw), close⟩, after) :=
    readBlock_eq_ok_iff.2 ⟨body, t, hremaining, tagFree_iff_tag?.2 hbody, ht, rfl⟩
  have hposition := position_leaving (body ++ [t]) after
    (by rw [hremaining, List.append_assoc, List.singleton_append])
  rw [List.length_append, List.length_singleton, ← Nat.add_assoc] at hposition
  rw [readBlock, hread]
  exact ⟨rfl, hposition⟩

/-- A block that is not closed takes all tokens. -/
theorem readBlock_of_tag?_eq_none (h : ∀ u ∈ c.remaining, u.tag? closing = none)
    (openedAt : Nat) :
    (c.readBlock closing openedAt).1 = .error (.unterminatedBlock openedAt closing) ∧
      (c.readBlock closing openedAt).2.position = c.tokens.length := by
  have hread : CatalogueSync.readBlock closing openedAt c.remaining =
      .error (.unterminatedBlock openedAt closing) :=
    readBlock_eq_error_iff.2 ⟨tagFree_iff_tag?.2 h, rfl⟩
  rw [readBlock, hread]
  refine ⟨rfl, ?_⟩
  rw [leaving, position_moveTo, Nat.sub_zero, Nat.min_self]

theorem tokens_takeComment (c : Cursor) : c.takeComment.2.tokens = c.tokens :=
  c.tokens_leaving _

/-- A comment that is taken ends the cursor's move right behind it. -/
theorem takeComment_of_blank {blank after : List Token} {t : Token}
    (hremaining : c.remaining = blank ++ t :: after) (hblank : ∀ u ∈ blank, u.isBlank = true)
    (ht : t.kind = .unit .comment) :
    c.takeComment.1 = (if t.body = [] then none else some t.body) ∧
      c.takeComment.2.position = c.position + blank.length + 1 := by
  have htake := takeComment_append_cons hblank ht after
  have hposition := position_leaving (blank ++ [t]) after
    (by rw [hremaining, List.append_assoc, List.singleton_append])
  rw [List.length_append, List.length_singleton, ← Nat.add_assoc] at hposition
  rw [takeComment, hremaining, htake]
  exact ⟨rfl, hposition⟩

/-- Without a comment the cursor is left where it was. -/
theorem takeComment_of_not_startsWithComment (h : ¬StartsWithComment c.remaining) :
    c.takeComment.1 = none ∧ c.takeComment.2.position = c.position := by
  have htake := CatalogueSync.takeComment_of_not_startsWithComment h
  have hposition := position_leaving [] c.remaining rfl
  rw [takeComment, htake]
  exact ⟨rfl, hposition⟩

end readers

section steps

variable {closing : List Text} {openedAt : Nat}

theorem remaining_advance_length_lt {c : Cursor} (h : c.peek?.isSome) :
    c.advance.2.remaining.length < c.remaining.length := by
  obtain ⟨passed, _ | ⟨t, remaining⟩⟩ := c
  · cases h
  · rw [advance_cons]
    exact Nat.lt_succ_self _

/-- Advances from token to token up to a tag named in `closing`, where `text` is what has been
passed so far. -/
def advanceToClosing (closing : List Text) (openedAt : Nat) (text : Text) (c : Cursor) :
    Except ParseError Block × Cursor :=
  match _h : c.peek? with
  | none => (.error (.unterminatedBlock openedAt closing), c.advance.2)
  | some t =>
    match t.tag? closing with
    | some close => (.ok ⟨Text.trim text, close⟩, c.advance.2)
    | none => advanceToClosing closing openedAt (text ++ t.raw) c.advance.2
termination_by c.remaining.length
decreasing_by exact remaining_advance_length_lt (by rw [_h]; rfl)

/-- Advances over blank text. -/
def advanceOverBlank (c : Cursor) : Cursor :=
  match _h : c.peek? with
  | none => c
  | some t => if t.isBlank then advanceOverBlank c.advance.2 else c
termination_by c.remaining.length
decreasing_by exact remaining_advance_length_lt (by rw [_h]; rfl)

/-- The text of a block is gathered while the cursor advances. -/
theorem advanceToClosing_eq (closing : List Text) (openedAt : Nat) (text : Text)
    (passed remaining : List Token) :
    advanceToClosing closing openedAt text ⟨passed, remaining⟩ =
      match splitBlock closing remaining with
      | some (raw, close, rest) =>
        (.ok ⟨Text.trim (text ++ raw), close⟩, leaving ⟨passed, remaining⟩ rest.length)
      | none =>
        (.error (.unterminatedBlock openedAt closing), leaving ⟨passed, remaining⟩ 0) := by
  induction remaining generalizing passed text with
  | nil =>
    have hleaving := leaving_length (c := ⟨passed, []⟩) passed [] rfl
    rw [List.length_nil] at hleaving
    rw [advanceToClosing, splitBlock, hleaving]
    rfl
  | cons t remaining ih =>
    have htokens : tokens ⟨passed, t :: remaining⟩ = passed ++ [t] ++ remaining :=
      List.append_cons passed t remaining
    rw [advanceToClosing, splitBlock]
    simp only [peek?, List.head?_cons, advance_cons]
    cases htag : t.tag? closing with
    | some close => simp only [List.append_nil, leaving_length _ _ htokens]
    | none =>
      have hleaving (n : Nat) :
          leaving ⟨passed ++ [t], remaining⟩ n = leaving ⟨passed, t :: remaining⟩ n := by
        rw [leaving, leaving, moveTo, moveTo, htokens]
        rfl
      simp only [ih, hleaving]
      cases splitBlock closing remaining <;> simp

/-- A block is read token by token. -/
theorem readBlock_eq_advanceToClosing (c : Cursor) :
    c.readBlock closing openedAt = advanceToClosing closing openedAt [] c := by
  rw [advanceToClosing_eq, readBlock, CatalogueSync.readBlock]
  cases splitBlock closing c.remaining <;> rfl

theorem advanceOverBlank_eq (passed remaining : List Token) :
    advanceOverBlank ⟨passed, remaining⟩ =
      ⟨passed ++ remaining.takeWhile Token.isBlank, remaining.dropWhile Token.isBlank⟩ := by
  induction remaining generalizing passed with
  | nil =>
    rw [advanceOverBlank, List.takeWhile_nil, List.append_nil]
    rfl
  | cons t remaining ih =>
    rw [advanceOverBlank]
    simp only [peek?, List.head?_cons, advance_cons]
    cases hblank : t.isBlank with
    | true => simp [hblank, ih]
    | false => simp [hblank]

/-- A comment is taken token by token, and the cursor goes back where none is found. -/
theorem takeComment_eq_advanceOverBlank (c : Cursor) :
    c.takeComment =
      match c.advanceOverBlank.peek? with
      | some t =>
        if t.kind = .unit .comment then
          (if t.body.isEmpty then none else some t.body, c.advanceOverBlank.advance.2)
        else (none, c.advanceOverBlank.moveTo c.position)
      | none => (none, c.advanceOverBlank.moveTo c.position) := by
  have hback : c.advanceOverBlank.moveTo c.position = c.leaving c.remaining.length := by
    rw [leaving_length c.passed c.remaining rfl, advanceOverBlank_eq, moveTo, tokens,
      List.append_assoc, List.takeWhile_append_dropWhile, position, List.take_left, List.drop_left]
  rw [hback, takeComment, CatalogueSync.takeComment, advanceOverBlank_eq, peek?]
  cases hrest : c.remaining.dropWhile Token.isBlank with
  | nil => rfl
  | cons t rest =>
    have htokens : c.tokens = c.passed ++ c.remaining.takeWhile Token.isBlank ++ [t] ++ rest := by
      rw [← List.append_cons, ← hrest, List.append_assoc, List.takeWhile_append_dropWhile, tokens]
    simp only [List.head?_cons, advance_cons]
    split
    · rw [leaving_length _ _ htokens]
    · rfl

end steps

section run

variable {ts : List Token} {p q : Nat} {move : Move} {answer : Answer}

/-- A move neither loses nor changes a token. -/
theorem tokens_run (c : Cursor) (move : Move) : (move.run c).2.tokens = c.tokens := by
  cases move with
  | peek => rfl
  | advance => exact c.tokens_advance
  | moveTo position => exact c.tokens_moveTo position
  | readBlock closing openedAt => exact c.tokens_readBlock closing openedAt
  | takeComment => exact c.tokens_takeComment

/-- Every move gives what the tokens demand. -/
theorem gives_run (c : Cursor) (move : Move) :
    Gives c.tokens c.position move (move.run c).1 (move.run c).2.position := by
  cases move with
  | peek =>
    rw [Move.run, peek?_eq]
    exact .peek
  | advance =>
    rw [Move.run, advance_fst, peek?_eq, position_advance]
    exact .advance
  | moveTo position =>
    rw [Move.run, position_moveTo]
    exact .moveTo position
  | readBlock closing openedAt =>
    rw [Move.run]
    cases hread : CatalogueSync.readBlock closing openedAt c.remaining with
    | error e =>
      have hnone := tagFree_iff_tag?.1 (readBlock_eq_error_iff.1 hread).1
      obtain ⟨hanswer, hposition⟩ := readBlock_of_tag?_eq_none hnone openedAt
      rw [hanswer, hposition]
      exact .unclosed openedAt (by rwa [drop_position])
    | ok r =>
      obtain ⟨body, t, hremaining, hbody, ht, -⟩ := readBlock_eq_ok_iff.1 hread
      have hnone := tagFree_iff_tag?.1 hbody
      obtain ⟨hanswer, hposition⟩ := readBlock_of_tag? hremaining hnone ht openedAt
      rw [hanswer, hposition]
      exact .closed openedAt (by rwa [drop_position]) hnone ht
  | takeComment =>
    rw [Move.run]
    by_cases hstart : StartsWithComment c.remaining
    · obtain ⟨blank, t, after, hremaining, hblank, ht⟩ := hstart
      obtain ⟨hanswer, hposition⟩ := takeComment_of_blank hremaining hblank ht
      rw [hanswer, hposition]
      exact .comment (by rwa [drop_position]) hblank ht
    · obtain ⟨hanswer, hposition⟩ := takeComment_of_not_startsWithComment hstart
      rw [hanswer, hposition]
      exact .noComment (by rwa [drop_position])

/-- A move gives what the tokens demand and nothing else. -/
theorem gives_iff_run {c : Cursor} :
    Gives c.tokens c.position move answer q ↔
      (move.run c).1 = answer ∧ (move.run c).2.position = q := by
  constructor
  · intro h
    cases h with
    | peek => exact ⟨congrArg Answer.token c.peek?_eq, rfl⟩
    | advance =>
      refine ⟨congrArg Answer.token ?_, c.position_advance⟩
      rw [advance_fst, peek?_eq]
    | moveTo position => exact ⟨rfl, c.position_moveTo position⟩
    | closed openedAt hts hbody ht =>
      rw [drop_position] at hts
      exact (readBlock_of_tag? hts hbody ht openedAt).imp_left (congrArg Answer.block)
    | unclosed openedAt hts =>
      rw [drop_position] at hts
      exact (readBlock_of_tag?_eq_none hts openedAt).imp_left (congrArg Answer.block)
    | comment hts hblank ht =>
      rw [drop_position] at hts
      exact (takeComment_of_blank hts hblank ht).imp_left (congrArg Answer.comment)
    | noComment hts =>
      rw [drop_position] at hts
      exact (takeComment_of_not_startsWithComment hts).imp_left (congrArg Answer.comment)
  · rintro ⟨rfl, rfl⟩
    exact gives_run c move

theorem tokens_runAll (c : Cursor) (moves : List Move) :
    (Move.runAll c moves).2.tokens = c.tokens := by
  induction moves generalizing c with
  | nil => rfl
  | cons move moves ih => exact (ih _).trans (c.tokens_run move)

theorem givesAll_iff_runAll {c : Cursor} {moves : List Move} {answers : List Answer} :
    GivesAll c.tokens c.position moves answers q ↔
      (Move.runAll c moves).1 = answers ∧ (Move.runAll c moves).2.position = q := by
  induction moves generalizing c answers with
  | nil =>
    constructor
    · rintro ⟨⟩
      exact ⟨rfl, rfl⟩
    · rintro ⟨rfl, rfl⟩
      exact .nil
  | cons move moves ih =>
    have htokens := c.tokens_run move
    constructor
    · rintro (_ | ⟨hmove, -, hmoves⟩)
      obtain ⟨rfl, rfl⟩ := gives_iff_run.1 hmove
      rw [← htokens] at hmoves
      obtain ⟨rfl, rfl⟩ := ih.1 hmoves
      exact ⟨rfl, rfl⟩
    · rintro ⟨rfl, rfl⟩
      have hle := (move.run c).2.position_le
      rw [htokens] at hle
      refine .cons (gives_run c move) hle ?_
      rw [← htokens]
      exact ih.2 ⟨rfl, rfl⟩

/-- Whatever is done with a cursor over some tokens, it goes over these tokens and stays among
them, and its answers and its places are those that the tokens demand. -/
theorem runAll_iff_givesAll (ts : List Token) (moves : List Move) :
    (∀ answers c, Move.runAll (ofTokens ts) moves = (answers, c) ↔
      c.tokens = ts ∧ GivesAll ts 0 moves answers c.position) ∧
    (Move.runAll (ofTokens ts) moves).2.position ≤ ts.length ∧
    ((Move.runAll (ofTokens ts) moves).2.isExhausted = true ↔
      (Move.runAll (ofTokens ts) moves).2.position = ts.length) := by
  have hend : (Move.runAll (ofTokens ts) moves).2.tokens = ts := tokens_runAll (ofTokens ts) moves
  have hgives : ∀ {answers q}, GivesAll ts 0 moves answers q ↔ _ :=
    givesAll_iff_runAll (c := ofTokens ts)
  refine ⟨?_, ?_, ?_⟩
  · intro answers c
    constructor
    · intro h
      rw [h] at hend
      exact ⟨hend, hgives.2 ⟨congrArg Prod.fst h, congrArg (position ∘ Prod.snd) h⟩⟩
    · rintro ⟨htokens, h⟩
      obtain ⟨hanswers, hposition⟩ := hgives.1 h
      exact Prod.ext hanswers (eq_of_position_eq (hend.trans htokens.symm) hposition)
  · have hle := position_le (Move.runAll (ofTokens ts) moves).2
    rwa [hend] at hle
  · rw [isExhausted_iff, hend]

example : (Move.runAll (ofTokens (scan " \x7b# b #\x7d c\x7b% d %\x7d".toList))
    [.takeComment, .takeComment, .readBlock [['d']] 7, .readBlock [['d']] 7, .moveTo 1, .peek]).1 =
    [.comment (some ['b']), .comment none, .block (.ok ⟨['c'], ['d'], [], 1⟩),
      .block (.error (.unterminatedBlock 7 [['d']])), .nothing,
      .token (some ⟨.unit .comment, "\x7b# b #\x7d".toList, 1⟩)] := by
  decide +kernel

end run

end CatalogueSync.Cursor
