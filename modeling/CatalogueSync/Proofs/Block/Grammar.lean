import CatalogueSync.Wording
import CatalogueSync.Proofs.Block.Comment
import CatalogueSync.Proofs.Block.Contents

/-!
# The grammar of blocks

What a block is, which comment leads it and how it is worded are said here of the tokens alone. The
readers take exactly the tokens that the grammar allows (`readBlock_eq_ok_iff`,
`takeComment_eq_iff`, `readWording_eq_ok_iff`); when these do not come, they fail with the line of
the tag that opened the block and with the names of the tags that could still have closed it
(`readBlock_eq_error_iff`, `readWording_eq_error_iff`).
-/

set_option autoImplicit false

namespace CatalogueSync

namespace Token

/-- A tag whose first word is the name. -/
structure IsTag (name : Text) (t : Token) : Prop where
  kind : t.kind = .unit .tag
  word : (Tag.splitWord t.body).1 = name
  ne_nil : name ≠ []

/-- The arguments behind the first word of a tag. -/
def arguments (t : Token) : List Text :=
  Tag.readArguments (Tag.splitWord t.body).2

variable {t : Token} {name : Text} {names : List Text} {g : Tag}

theorem IsTag.tag?_eq (h : t.IsTag name) (hmem : name ∈ names) :
    t.tag? names = some ⟨name, t.arguments, t.line⟩ := by
  obtain ⟨hkind, rfl, hne⟩ := h
  simp [tag?, hkind, hne, hmem, arguments]

theorem of_tag? (h : t.tag? names = some g) :
    g.name ∈ names ∧ t.IsTag g.name ∧ g.arguments = t.arguments ∧ g.line = t.line := by
  obtain ⟨hkind, hword, hne, hmem, -⟩ := of_tag?_eq_some h
  have htag : t.IsTag g.name := ⟨hkind, hword.symm, hne⟩
  have hg : ⟨g.name, t.arguments, t.line⟩ = g :=
    Option.some.inj ((htag.tag?_eq hmem).symm.trans h)
  exact ⟨hmem, htag, (congrArg Tag.arguments hg).symm, (congrArg Tag.line hg).symm⟩

theorem IsTag.not_isTag {other : Text} (h : t.IsTag name) (hne : name ≠ other) :
    ¬t.IsTag other :=
  fun hother => hne (h.word.symm.trans hother.word)

theorem tag?_eq_none_iff_forall : t.tag? names = none ↔ ∀ name ∈ names, ¬t.IsTag name := by
  rw [tag?_eq_none_iff]
  constructor
  · rintro h name hmem ⟨hkind, rfl, hne⟩
    exact h hkind hne hmem
  · intro h hkind hne hmem
    exact h _ hmem ⟨hkind, rfl, hne⟩

theorem tag?_singleton_eq_none_iff : t.tag? [name] = none ↔ ¬t.IsTag name := by
  simp [tag?_eq_none_iff_forall]

/-- A tag of one name, as it is classified. -/
theorem of_tag?_singleton (h : t.tag? [name] = some g) :
    t.IsTag name ∧ g = ⟨name, t.arguments, t.line⟩ := by
  obtain ⟨hmem, htag, harguments, hline⟩ := of_tag? h
  obtain ⟨name', arguments, line⟩ := g
  obtain rfl := List.mem_singleton.1 hmem
  exact ⟨htag, by rw [← harguments, ← hline]⟩

theorem tag?_eq_none_of_kind (hkind : t.kind ≠ .unit .tag) : t.tag? names = none :=
  tag?_eq_none_iff.2 fun h => absurd h hkind

theorem kind_of_inlineLiteral? {literal : Text} (h : t.inlineLiteral? = some literal) :
    t.kind = .unit .output := by
  unfold inlineLiteral? at h
  split at h
  · assumption
  · cases h

theorem kind_of_unclosed? {kind : UnitKind} (h : t.unclosed? = some kind) : t.kind = .text := by
  unfold unclosed? at h
  split at h
  · assumption
  · cases h

theorem prefix_of_unclosed? {kind : UnitKind} (h : t.unclosed? = some kind) :
    kind.opener <+: t.raw := by
  rw [unclosed?, if_pos (kind_of_unclosed? h)] at h
  have hprefix := List.find?_some h
  exact List.isPrefixOf_iff_prefix.1 hprefix

end Token

/-- None of the tokens is a tag with one of the names. -/
def TagFree (names : List Text) (ts : List Token) : Prop :=
  ∀ t ∈ ts, ∀ name ∈ names, ¬t.IsTag name

/-- The text that a block of tokens spells, trimmed. -/
def blockText (ts : List Token) : Text :=
  Text.trim (ts.flatMap Token.raw)

section readBlock

variable {closing : List Text} {openedAt : Nat} {ts rest : List Token} {b : Block}
  {e : ParseError}

theorem tagFree_iff_tag? : TagFree closing ts ↔ ∀ t ∈ ts, t.tag? closing = none :=
  forall₂_congr fun _ _ => Token.tag?_eq_none_iff_forall.symm

@[simp]
theorem tagFree_nil : TagFree closing [] := by simp [TagFree]

@[simp]
theorem tagFree_cons_iff {t : Token} :
    TagFree closing (t :: ts) ↔ (∀ name ∈ closing, ¬t.IsTag name) ∧ TagFree closing ts :=
  List.forall_mem_cons

@[simp]
theorem tagFree_append_iff :
    TagFree closing (ts ++ rest) ↔ TagFree closing ts ∧ TagFree closing rest :=
  List.forall_mem_append

theorem TagFree.mono {names : List Text} (hsub : names ⊆ closing) (h : TagFree closing ts) :
    TagFree names ts :=
  fun t ht name hname => h t ht name (hsub hname)

theorem splitBlock_eq_some_iff {raw : Text} {close : Tag} :
    splitBlock closing ts = some (raw, close, rest) ↔
      ∃ body t, ts = body ++ t :: rest ∧ TagFree closing body ∧ t.tag? closing = some close ∧
        raw = body.flatMap Token.raw := by
  constructor
  · intro h
    induction ts generalizing raw with
    | nil => cases h
    | cons u ts ih =>
      rw [splitBlock] at h
      split at h
      · rename_i close' hu
        obtain ⟨rfl, rfl, rfl⟩ := h
        exact ⟨[], u, rfl, tagFree_nil, hu, rfl⟩
      · rename_i hu
        obtain ⟨⟨raw', r⟩, hr, hraw⟩ := Option.map_eq_some_iff.1 h
        obtain ⟨rfl, rfl⟩ := hraw
        obtain ⟨body, t, rfl, hbody, ht, rfl⟩ := ih hr
        refine ⟨u :: body, t, rfl, ?_, ht, rfl⟩
        exact tagFree_cons_iff.2 ⟨Token.tag?_eq_none_iff_forall.1 hu, hbody⟩
  · rintro ⟨body, t, rfl, hbody, ht, rfl⟩
    exact splitBlock_append (tagFree_iff_tag?.1 hbody) ht rest

theorem splitBlock_eq_none_iff : splitBlock closing ts = none ↔ TagFree closing ts := by
  rw [tagFree_iff_tag?]
  induction ts with
  | nil => simp [splitBlock]
  | cons u ts ih =>
    rw [splitBlock, List.forall_mem_cons, ← ih]
    cases u.tag? closing <;> simp

/-- A block runs to the first tag that can close it. -/
theorem readBlock_eq_ok_iff :
    readBlock closing openedAt ts = .ok (b, rest) ↔
      ∃ body t, ts = body ++ t :: rest ∧ TagFree closing body ∧ t.tag? closing = some b.close ∧
        b.text = blockText body := by
  rw [readBlock]
  constructor
  · intro h
    split at h
    · rename_i hsplit
      obtain ⟨rfl, rfl⟩ := Prod.mk.inj (Except.ok.inj h)
      obtain ⟨body, t, hts, hbody, ht, rfl⟩ := splitBlock_eq_some_iff.1 hsplit
      exact ⟨body, t, hts, hbody, ht, rfl⟩
    · cases h
  · rintro ⟨body, t, hts, hbody, ht, htext⟩
    rw [splitBlock_eq_some_iff.2 ⟨body, t, hts, hbody, ht, rfl⟩]
    obtain ⟨text, close⟩ := b
    obtain rfl : text = blockText body := htext
    rfl

theorem readBlock_of_isTag {body : List Token} {t : Token} {name : Text}
    (hbody : TagFree closing body) (ht : t.IsTag name) (hmem : name ∈ closing) (openedAt : Nat)
    (rest : List Token) :
    readBlock closing openedAt (body ++ t :: rest) =
      .ok (⟨blockText body, ⟨name, t.arguments, t.line⟩⟩, rest) :=
  readBlock_eq_ok_iff.2 ⟨body, t, rfl, hbody, ht.tag?_eq hmem, rfl⟩

theorem of_readBlock (h : readBlock closing openedAt ts = .ok (b, rest)) :
    ∃ body t, ts = body ++ t :: rest ∧ TagFree closing body ∧ t.IsTag b.close.name ∧
      b.close.name ∈ closing ∧ b.text = blockText body := by
  obtain ⟨body, t, hts, hbody, ht, htext⟩ := readBlock_eq_ok_iff.1 h
  obtain ⟨hmem, htag, -, -⟩ := Token.of_tag? ht
  exact ⟨body, t, hts, hbody, htag, hmem, htext⟩

/-- Without such a tag the block is not closed. -/
theorem readBlock_eq_error_iff :
    readBlock closing openedAt ts = .error e ↔
      TagFree closing ts ∧ e = .unterminatedBlock openedAt closing := by
  rw [← splitBlock_eq_none_iff, readBlock]
  cases splitBlock closing ts with
  | none => simp [eq_comm]
  | some r => simp

end readBlock

/-- The tokens start with a comment, or with blank text and a comment. -/
def StartsWithComment (ts : List Token) : Prop :=
  ∃ blank t after, ts = blank ++ t :: after ∧ (∀ u ∈ blank, u.isBlank = true) ∧
    t.kind = .unit .comment

/-- The tokens `lead` in front of `rest` are a comment and the blank text before it, or there are
none of them as no comment leads `rest`. -/
inductive LeadsBlock : Option Text → List Token → List Token → Prop where
  | comment {blank rest : List Token} {t : Token} (hblank : ∀ u ∈ blank, u.isBlank = true)
      (ht : t.kind = .unit .comment) :
      LeadsBlock (if t.body = [] then none else some t.body) (blank ++ [t]) rest
  | none {rest : List Token} (hrest : ¬StartsWithComment rest) : LeadsBlock none [] rest

section takeComment

variable {ts lead rest : List Token} {comment : Option Text}

theorem takeComment_append_cons {blank : List Token} {t : Token}
    (hblank : ∀ u ∈ blank, u.isBlank = true) (ht : t.kind = .unit .comment) (rest : List Token) :
    takeComment (blank ++ t :: rest) = (if t.body = [] then none else some t.body, rest) := by
  have hdrop : (blank ++ t :: rest).dropWhile Token.isBlank = t :: rest := by
    rw [List.dropWhile_append_of_pos hblank,
      List.dropWhile_cons_of_neg (by simp [Token.isBlank, ht])]
  rw [takeComment, hdrop]
  simp only [ht, if_true, List.isEmpty_iff]

theorem takeComment_of_not_startsWithComment (h : ¬StartsWithComment ts) :
    takeComment ts = (none, ts) := by
  apply takeComment_eq_none
  intro t ht hkind
  obtain ⟨after, hafter⟩ := List.head?_eq_some_iff.1 ht
  refine h ⟨ts.takeWhile Token.isBlank, t, after, ?_, ?_, hkind⟩
  · rw [← hafter, List.takeWhile_append_dropWhile]
  · exact fun u hu => List.mem_takeWhile_imp hu

theorem LeadsBlock.takeComment_append (h : LeadsBlock comment lead rest) :
    takeComment (lead ++ rest) = (comment, rest) := by
  cases h with
  | @comment blank _ t hblank ht =>
    rw [List.append_assoc, List.singleton_append, takeComment_append_cons hblank ht]
  | none hstart => exact takeComment_of_not_startsWithComment hstart

/-- A comment is taken exactly when it leads the tokens, with the blank text before it. -/
theorem takeComment_eq_iff :
    takeComment ts = (comment, rest) ↔
      ∃ lead, ts = lead ++ rest ∧ LeadsBlock comment lead rest := by
  constructor
  · intro h
    by_cases hstart : StartsWithComment ts
    · obtain ⟨blank, t, after, rfl, hblank, ht⟩ := hstart
      rw [takeComment_append_cons hblank ht] at h
      obtain ⟨rfl, rfl⟩ := Prod.mk.inj h
      exact ⟨blank ++ [t], by simp, .comment hblank ht⟩
    · rw [takeComment_of_not_startsWithComment hstart] at h
      obtain ⟨rfl, rfl⟩ := Prod.mk.inj h
      exact ⟨[], rfl, .none hstart⟩
  · rintro ⟨lead, rfl, hlead⟩
    exact hlead.takeComment_append

theorem startsWithComment_cons_iff {u : Token} :
    StartsWithComment (u :: ts) ↔
      u.kind = .unit .comment ∨ u.isBlank = true ∧ StartsWithComment ts := by
  constructor
  · rintro ⟨blank, t, after, hts, hblank, ht⟩
    cases blank with
    | nil =>
      obtain ⟨rfl, rfl⟩ := List.cons.inj hts
      exact .inl ht
    | cons v blank =>
      obtain ⟨rfl, rfl⟩ := List.cons.inj hts
      obtain ⟨hu, hblank⟩ := List.forall_mem_cons.1 hblank
      exact .inr ⟨hu, blank, t, after, rfl, hblank, ht⟩
  · rintro (hu | ⟨hu, blank, t, after, rfl, hblank, ht⟩)
    · exact ⟨[], u, ts, rfl, by simp, hu⟩
    · exact ⟨u :: blank, t, after, rfl, List.forall_mem_cons.2 ⟨hu, hblank⟩, ht⟩

/-- Whether tokens with a tag among them start with a comment does not depend on what follows. -/
theorem startsWithComment_append_iff (hts : ∃ t ∈ ts, t.kind = .unit .tag) (more : List Token) :
    StartsWithComment (ts ++ more) ↔ StartsWithComment ts := by
  induction ts with
  | nil => simp at hts
  | cons u ts ih =>
    rw [List.cons_append, startsWithComment_cons_iff, startsWithComment_cons_iff]
    by_cases hu : u.kind = .unit .tag
    · simp [Token.isBlank, hu]
    · rw [ih (by simpa [hu] using hts)]

/-- A comment and the blank text before it hold no tag. -/
theorem LeadsBlock.tagFree (h : LeadsBlock comment lead rest) (names : List Text) :
    TagFree names lead := by
  cases h with
  | @comment blank _ t hblank ht =>
    have htext : TagFree names blank := by
      intro u hu name _ htag
      have hkind := hblank u hu
      simp [Token.isBlank, htag.kind] at hkind
    refine tagFree_append_iff.2 ⟨htext, tagFree_cons_iff.2 ⟨?_, tagFree_nil⟩⟩
    intro name _ htag
    cases ht.symm.trans htag.kind
  | none _ => exact tagFree_nil

theorem LeadsBlock.append_iff (hrest : ∃ t ∈ rest, t.kind = .unit .tag) (more : List Token) :
    LeadsBlock comment lead (rest ++ more) ↔ LeadsBlock comment lead rest := by
  constructor
  · rintro (⟨hblank, ht⟩ | hstart)
    · exact .comment hblank ht
    · exact .none (mt (startsWithComment_append_iff hrest more).2 hstart)
  · rintro (⟨hblank, ht⟩ | hstart)
    · exact .comment hblank ht
    · exact .none (mt (startsWithComment_append_iff hrest more).1 hstart)

end takeComment

/-- The tokens spell a singular text and, behind the tag that separates them, a plural text, up to
the tag `close`. -/
inductive SpellsWording (close : Text) : Wording → List Token → Prop where
  | singular {body : List Token} {t : Token} (hbody : TagFree [TagName.plural, close] body)
      (ht : t.IsTag close) : SpellsWording close ⟨blockText body, none⟩ (body ++ [t])
  | plural {body body' : List Token} {t t' : Token}
      (hbody : TagFree [TagName.plural, close] body) (ht : t.IsTag TagName.plural)
      (hbody' : TagFree [close] body') (ht' : t'.IsTag close) :
      SpellsWording close ⟨blockText body, some (blockText body')⟩ (body ++ t :: (body' ++ [t']))

theorem SpellsWording.exists_concat {close : Text} {w : Wording} {ts : List Token}
    (h : SpellsWording close w ts) : ∃ before t, ts = before ++ [t] ∧ t.IsTag close := by
  cases h with
  | singular _ ht => exact ⟨_, _, rfl, ht⟩
  | @plural body body' t t' _ _ _ ht' => exact ⟨body ++ t :: body', t', by simp, ht'⟩

/-- A comment leads a wording whatever comes behind the wording. -/
theorem SpellsWording.leadsBlock_append_iff {close : Text} {w : Wording} {comment : Option Text}
    {lead words : List Token} (h : SpellsWording close w words) (rest : List Token) :
    LeadsBlock comment lead (words ++ rest) ↔ LeadsBlock comment lead words := by
  obtain ⟨before, t, rfl, ht⟩ := h.exists_concat
  exact LeadsBlock.append_iff ⟨t, by simp, ht.kind⟩ rest

/-- The tokens start a wording and are over before the tag `close`, where one of the tags `expected`
could have come. -/
inductive CutsWording (close : Text) : List Text → List Token → Prop where
  | singular {body : List Token} (hbody : TagFree [TagName.plural, close] body) :
      CutsWording close [TagName.plural, close] body
  | plural {body body' : List Token} {t : Token} (hbody : TagFree [TagName.plural, close] body)
      (ht : t.IsTag TagName.plural) (hbody' : TagFree [close] body') :
      CutsWording close [close] (body ++ t :: body')

section readWording

variable {close : Text} {openedAt : Nat} {ts rest : List Token} {w : Wording} {e : ParseError}

theorem SpellsWording.readWording_append (hclose : close ≠ TagName.plural)
    (h : SpellsWording close w ts) (openedAt : Nat) (rest : List Token) :
    readWording close openedAt (ts ++ rest) = .ok (w, rest) := by
  cases h with
  | singular hbody ht =>
    rw [List.append_assoc, List.singleton_append, readWording,
      readBlock_of_isTag hbody ht (by simp)]
    simp only [if_neg hclose]
  | plural hbody ht hbody' ht' =>
    rw [List.append_assoc, List.cons_append, List.append_assoc, List.singleton_append,
      readWording, readBlock_of_isTag hbody ht (by simp)]
    simp only [if_true, readBlock_of_isTag hbody' ht' (List.mem_singleton.2 rfl)]

theorem CutsWording.readWording_eq {expected : List Text} (h : CutsWording close expected ts)
    (openedAt : Nat) :
    readWording close openedAt ts = .error (.unterminatedBlock openedAt expected) := by
  cases h with
  | singular hbody => rw [readWording, readBlock_eq_error_iff.2 ⟨hbody, rfl⟩]
  | plural hbody ht hbody' =>
    rw [readWording, readBlock_of_isTag hbody ht (by simp)]
    simp only [if_true, readBlock_eq_error_iff.2 ⟨hbody', rfl⟩]

/-- A wording is read as the grammar has it. -/
theorem readWording_eq_ok_iff (hclose : close ≠ TagName.plural) :
    readWording close openedAt ts = .ok (w, rest) ↔
      ∃ body, ts = body ++ rest ∧ SpellsWording close w body := by
  constructor
  · intro h
    rw [readWording] at h
    split at h
    · cases h
    · rename_i singular rest' hsingular
      obtain ⟨body, t, rfl, hbody, ht, hname, htext⟩ := of_readBlock hsingular
      split at h
      · rename_i hplural
        rw [hplural] at ht
        split at h
        · cases h
        · rename_i plural rest'' hread
          obtain ⟨body', t', rfl, hbody', ht', hname', htext'⟩ := of_readBlock hread
          rw [List.mem_singleton.1 hname'] at ht'
          obtain ⟨rfl, rfl⟩ := Prod.mk.inj (Except.ok.inj h)
          rw [htext, htext']
          exact ⟨_, by simp, .plural hbody ht hbody' ht'⟩
      · rename_i hplural
        have hname' : singular.close.name = close := by simpa [hplural] using hname
        rw [hname'] at ht
        obtain ⟨rfl, rfl⟩ := Prod.mk.inj (Except.ok.inj h)
        rw [htext]
        exact ⟨_, by simp, .singular hbody ht⟩
  · rintro ⟨body, rfl, hbody⟩
    exact hbody.readWording_append hclose openedAt rest

/-- A wording that is read fails when the tokens are over before the tag that closes it. -/
theorem readWording_eq_error_iff :
    readWording close openedAt ts = .error e ↔
      ∃ expected, CutsWording close expected ts ∧ e = .unterminatedBlock openedAt expected := by
  constructor
  · intro h
    rw [readWording] at h
    split at h
    · rename_i e' hread
      obtain ⟨hbody, rfl⟩ := readBlock_eq_error_iff.1 hread
      exact ⟨_, .singular hbody, (Except.error.inj h).symm⟩
    · rename_i singular rest' hsingular
      obtain ⟨body, t, rfl, hbody, ht, hname, htext⟩ := of_readBlock hsingular
      split at h
      · rename_i hplural
        rw [hplural] at ht
        split at h
        · rename_i e' hread
          obtain ⟨hbody', rfl⟩ := readBlock_eq_error_iff.1 hread
          exact ⟨_, .plural hbody ht hbody', (Except.error.inj h).symm⟩
        · cases h
      · cases h
  · rintro ⟨expected, hts, rfl⟩
    exact hts.readWording_eq openedAt

end readWording

end CatalogueSync
