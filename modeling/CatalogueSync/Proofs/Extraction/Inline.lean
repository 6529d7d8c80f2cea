import CatalogueSync.Proofs.Extraction.Messages

/-!
# Inline literals

A template can hold any text as an inline literal: between quotes of either kind, with the quote
and the backslash escaped, piped into `trans` and into any filters after that. `InlineStyle` is
everything about this form but the text. What is written in this way is one output token, the
literal of that token is the text, and the messages of a template that consists of it are those
that the text asks for (`messages_write_inline`).
-/

set_option autoImplicit false

namespace CatalogueSync

namespace Text

theorem plain_of_isBlank {w : Text} (hw : isBlank w = true) :
    ∀ c ∈ w, c ≠ '}' ∧ isQuote c = false := by
  intro c hc
  have hspace := isBlank_iff.1 hw c hc
  constructor
  · rintro rfl
    exact absurd hspace (by decide)
  · rw [Bool.eq_false_iff]
    intro hquote
    rw [isSpace_of_isQuote hquote] at hspace
    cases hspace

/-- A text of whitespace holds no bar. -/
theorem ne_bar_of_isBlank {w : Text} (hw : isBlank w = true) : ∀ c ∈ w, (c != '|') = true := by
  intro c hc
  rw [bne_iff_ne]
  rintro rfl
  exact absurd (isBlank_iff.1 hw _ hc) (by decide)

theorem takeWhile_isPrefix {p : Char → Bool} {s t : Text} (h : s <+: t) :
    s.takeWhile p <+: t.takeWhile p := by
  obtain ⟨r, rfl⟩ := h
  rw [List.takeWhile_append]
  split
  · exact (List.takeWhile_prefix p).trans (List.prefix_append s _)
  · exact List.prefix_rfl

end Text

namespace Template

/-- A filter behind `trans`, with the whitespace around its name. Every text without quotes and
closing braces can be the name, all texts made of letters among them. -/
structure Filter where
  before : Text
  name : Text
  after : Text
  isBlank_before : Text.isBlank before = true
  plain_name : ∀ c ∈ name, c ≠ '}' ∧ Text.isQuote c = false
  isBlank_after : Text.isBlank after = true

/-- The step of a pipeline that a filter is. -/
def Filter.write (f : Filter) : Text :=
  '|' :: f.before ++ f.name ++ f.after

/-- A way to write an inline literal: the quotes, the whitespace around the literal, the bar and
`trans`, and the filters behind them. -/
structure InlineStyle where
  quote : Char
  beforeLiteral : Text
  afterLiteral : Text
  beforeTrans : Text
  afterTrans : Text
  filters : List Filter
  isQuote_quote : Text.isQuote quote = true
  isBlank_beforeLiteral : Text.isBlank beforeLiteral = true
  isBlank_afterLiteral : Text.isBlank afterLiteral = true
  isBlank_beforeTrans : Text.isBlank beforeTrans = true
  isBlank_afterTrans : Text.isBlank afterTrans = true

namespace InlineStyle

/-- The pipeline behind the literal, up to and including `trans`. -/
def step (p : InlineStyle) : Text :=
  p.afterLiteral ++ '|' :: p.beforeTrans ++ TagName.trans

/-- What is behind `trans`. -/
def rest (p : InlineStyle) : Text :=
  p.afterTrans ++ p.filters.flatMap Filter.write

/-- The template that consists of the literal for a text. -/
def write (p : InlineStyle) (s : Text) : Text :=
  UnitKind.output.opener ++
      (p.beforeLiteral ++ Text.writeLiteral p.quote s ++ p.step ++ p.rest) ++
    UnitKind.output.closer

variable (p : InlineStyle) (s : Text)

theorem plain_steps : ∀ c ∈ p.step ++ p.rest, c ≠ '}' ∧ Text.isQuote c = false := by
  have htrans : ∀ c ∈ TagName.trans, c ≠ '}' ∧ Text.isQuote c = false :=
    Text.forall_mem_of_all (by decide)
  have hbar : '|' ≠ '}' ∧ Text.isQuote '|' = false := by decide
  intro c hc
  simp only [step, rest, List.mem_append, List.mem_cons, List.mem_flatMap] at hc
  obtain (((hc | rfl | hc) | hc) | (hc | ⟨f, -, hc⟩)) := hc
  · exact Text.plain_of_isBlank p.isBlank_afterLiteral c hc
  · exact hbar
  · exact Text.plain_of_isBlank p.isBlank_beforeTrans c hc
  · exact htrans c hc
  · exact Text.plain_of_isBlank p.isBlank_afterTrans c hc
  · simp only [Filter.write, List.mem_append, List.mem_cons] at hc
    obtain (((rfl | hc) | hc) | hc) := hc
    · exact hbar
    · exact Text.plain_of_isBlank f.isBlank_before c hc
    · exact f.plain_name c hc
    · exact Text.plain_of_isBlank f.isBlank_after c hc

/-- The literal hides what the text holds, and nothing else in the template closes the output. -/
theorem isComplete_write : UnitKind.output.IsComplete (p.write s) := by
  have hbody := Text.LiteralBody.flatMap (Text.literalBody_escapeChar p.quote) s
  have hclose := splitUnit_closer (k := .output) []
  rw [List.append_nil] at hclose
  refine ⟨p.beforeLiteral ++ Text.writeLiteral p.quote s ++ p.step ++ p.rest ++
    UnitKind.output.closer, List.append_assoc .., ?_⟩
  have hassoc : p.beforeLiteral ++ Text.writeLiteral p.quote s ++ p.step ++ p.rest ++
      UnitKind.output.closer =
      p.beforeLiteral ++ p.quote :: (s.flatMap (Text.escapeChar p.quote) ++
        p.quote :: (p.step ++ p.rest ++ UnitKind.output.closer)) := by
    simp [Text.writeLiteral]
  rw [hassoc, splitUnit_append_of_plain (Text.plain_of_isBlank p.isBlank_beforeLiteral),
    splitUnit_literal rfl p.isQuote_quote hbody, splitUnit_append_of_plain p.plain_steps, hclose]
  rfl

/-- The body of the output starts with the literal, and trimming takes away no more than whitespace
at the end of the pipeline. -/
theorem body_write (n : Nat) :
    Token.body ⟨.unit .output, p.write s, n⟩ =
      Text.writeLiteral p.quote s ++ (p.step ++ Text.trimEnd p.rest) := by
  have hfirst : Text.trimStart (Text.writeLiteral p.quote s ++ (p.step ++ p.rest)) =
      Text.writeLiteral p.quote s ++ (p.step ++ p.rest) := by
    rw [Text.trimStart_eq_self_iff]
    simpa [Text.writeLiteral] using Text.isSpace_of_isQuote p.isQuote_quote
  have hlast : Text.trimEnd (Text.writeLiteral p.quote s ++ p.step) =
      Text.writeLiteral p.quote s ++ p.step := by
    have htrans : p.step.getLast? = some 's' := by
      rw [step, List.getLast?_append]
      rfl
    have hspace : Text.isSpace 's' = false := by decide
    rw [Text.trimEnd_eq_self_iff, List.getLast?_append, htrans]
    simpa using hspace
  rw [write, Token.body_of_unit, Text.trim, List.append_assoc, List.append_assoc,
    Text.trimStart_append_of_isBlank p.isBlank_beforeLiteral, hfirst, ← List.append_assoc,
    Text.trimEnd_append hlast, List.append_assoc]

/-- Behind `trans` there is only whitespace up to the next bar, also when the end is trimmed. -/
theorem isBlank_takeWhile_rest :
    Text.isBlank ((Text.trimEnd p.rest).takeWhile fun c => c != '|') = true := by
  have hwhole : (p.rest.takeWhile fun c => c != '|') = p.afterTrans := by
    rw [rest, List.takeWhile_append_of_pos (Text.ne_bar_of_isBlank p.isBlank_afterTrans)]
    cases p.filters with
    | nil => simp
    | cons f fs => simp [Filter.write]
  have hpre : ((Text.trimEnd p.rest).takeWhile fun c => c != '|') <+: p.afterTrans := by
    rw [← hwhole]
    exact Text.takeWhile_isPrefix (List.rdropWhile_prefix Text.isSpace p.rest)
  rw [Text.isBlank_iff]
  intro c hc
  exact Text.isBlank_iff.1 p.isBlank_afterTrans c (hpre.subset hc)

/-- The first step is `trans`, also when the end of the pipeline is trimmed. -/
theorem firstStep?_step :
    Token.firstStep? (p.step ++ Text.trimEnd p.rest) = some TagName.trans := by
  have hstart : ∀ t, Text.trimStart ('|' :: t) = '|' :: t := fun t =>
    List.dropWhile_cons_of_neg (by decide)
  have hbar : Text.trimStart (p.step ++ Text.trimEnd p.rest) =
      '|' :: (p.beforeTrans ++ TagName.trans ++ Text.trimEnd p.rest) := by
    rw [step, List.append_assoc, List.append_assoc,
      Text.trimStart_append_of_isBlank p.isBlank_afterLiteral, List.cons_append, hstart,
      List.append_assoc]
  have hpass : ∀ c ∈ p.beforeTrans ++ TagName.trans, (c != '|') = true := by
    have htrans : ∀ c ∈ TagName.trans, (c != '|') = true := Text.forall_mem_of_all (by decide)
    intro c hc
    obtain hc | hc := List.mem_append.1 hc
    · exact Text.ne_bar_of_isBlank p.isBlank_beforeTrans c hc
    · exact htrans c hc
  have htrim : Text.trim TagName.trans = TagName.trans := by decide
  simp only [Token.firstStep?, hbar]
  rw [List.takeWhile_append_of_pos hpass,
    Text.trim_surround p.isBlank_beforeTrans p.isBlank_takeWhile_rest, htrim]

theorem inlineLiteral?_write (n : Nat) :
    Token.inlineLiteral? ⟨.unit .output, p.write s, n⟩ = some s := by
  obtain ⟨body, hquoted, hdecoded⟩ :=
    Text.quoted?_writeLiteral p.isQuote_quote s (p.step ++ Text.trimEnd p.rest)
  simp only [Token.inlineLiteral?, if_true, body_write, hquoted, firstStep?_step, hdecoded]

theorem scan_write : scan (p.write s) = [⟨.unit .output, p.write s, 1⟩] := by
  have hscan := scanFrom_append_of_isComplete (p.isComplete_write s) 1 []
  rwa [List.append_nil, scanFrom_nil] at hscan

theorem messages_write (path : Text) :
    messages ⟨path, p.write s⟩ =
      if holdsDelimiter (Text.trim s) then .error (.delimiterInLiteral 1 (Text.trim s))
      else .ok
        (if (Text.trim s).isEmpty then [] else [⟨Text.trim s, [place path 1], none, none⟩]) := by
  have htag : Token.tag? [TagName.trans] ⟨.unit .output, p.write s, 1⟩ = none := by
    simp [Token.tag?]
  rw [messages, scan_write, readMessages, htag]
  simp only [inlineLiteral?_write]
  simp [readMessages, Except.map]

end InlineStyle

/-- Every text can be written as an inline literal, in any style: the template is one output token
that holds the text. It asks for a message with the trimmed text as its key when there is one,
unless an opener or a closer is in it. -/
theorem messages_write_inline (p : InlineStyle) (s path : Text) :
    scan (p.write s) = [⟨.unit .output, p.write s, 1⟩] ∧
      Token.inlineLiteral? ⟨.unit .output, p.write s, 1⟩ = some s ∧
      (Text.trim s ≠ [] →
        (∀ k : UnitKind, ¬k.opener <:+: Text.trim s ∧ ¬k.closer <:+: Text.trim s) →
        messages ⟨path, p.write s⟩ = .ok [⟨Text.trim s, [place path 1], none, none⟩]) ∧
      ((∃ k : UnitKind, k.opener <:+: Text.trim s ∨ k.closer <:+: Text.trim s) →
        messages ⟨path, p.write s⟩ = .error (.delimiterInLiteral 1 (Text.trim s))) ∧
      (Text.trim s = [] → messages ⟨path, p.write s⟩ = .ok []) := by
  have hmessages := p.messages_write s path
  refine ⟨p.scan_write s, p.inlineLiteral?_write s 1, ?_, ?_, ?_⟩
  · intro hne hplain
    have hdelimiter : holdsDelimiter (Text.trim s) = false := by
      rw [Bool.eq_false_iff, ne_eq, holdsDelimiter_iff]
      rintro ⟨k, hk | hk⟩
      · exact (hplain k).1 hk
      · exact (hplain k).2 hk
    rw [hmessages, hdelimiter]
    simp [hne]
  · intro hdelimiter
    rw [hmessages, holdsDelimiter_iff.2 hdelimiter, if_pos rfl]
  · intro hnil
    have hnone : holdsDelimiter [] = false := by decide
    rw [hmessages, hnil, hnone]
    rfl

/-- Escapes, bars and quotes of the other kind are part of the text, and so is a backslash in front
of a letter. -/
theorem messages_write_inline_escapes :
    ∃ p : InlineStyle,
      p.write "it's \"a|b\\n".toList =
        "\x7b\x7b 'it\\'s \"a|b\\\\n'\n|trans | upper\x7d\x7d".toList ∧
      messages ⟨"t".toList, p.write "it's \"a|b\\n".toList⟩ =
        .ok [⟨"it's \"a|b\\n".toList, ["t#L1".toList], none, none⟩] ∧
      messages ⟨"t".toList, p.write " 5 %\x7d".toList⟩ =
        .error (.delimiterInLiteral 1 "5 %\x7d".toList) ∧
      messages ⟨"t".toList, p.write " ".toList⟩ = .ok [] := by
  let upper : Filter := ⟨[' '], "upper".toList, [], by decide, Text.forall_mem_of_all (by decide),
    by decide⟩
  let p : InlineStyle := ⟨'\'', [' '], ['\n'], [], [' '], [upper], by decide, by decide, by decide,
    by decide, by decide⟩
  have hplain : ∀ k : UnitKind, ¬k.opener <:+: Text.trim "it's \"a|b\\n".toList ∧
      ¬k.closer <:+: Text.trim "it's \"a|b\\n".toList := by
    intro k
    cases k <;> decide +kernel
  obtain ⟨-, -, hkey, -, -⟩ := messages_write_inline p "it's \"a|b\\n".toList "t".toList
  obtain ⟨-, -, -, hdelimiter, -⟩ := messages_write_inline p " 5 %\x7d".toList "t".toList
  obtain ⟨-, -, -, -, hblank⟩ := messages_write_inline p " ".toList "t".toList
  exact ⟨p, by decide +kernel, hkey (by decide +kernel) hplain,
    hdelimiter ⟨.tag, .inr (by decide +kernel)⟩, hblank (by decide +kernel)⟩

end Template

end CatalogueSync
