import CatalogueSync.Proofs.Block.Grammar
import CatalogueSync.Proofs.Extraction.Messages

/-!
# The grammar of templates

A template consists of blocks, of inline literals and of other tokens (`Template.SpellsUnits`), and
its messages are the units of the first two kinds that have text. Reading takes such templates and
no others, and fails at the first unit that is not closed or not plain
(`Template.FirstFault`). Both facts rest on how one unit in front of other tokens is read
(`Template.SpellsUnits.readMessages_append`).
-/

set_option autoImplicit false

namespace CatalogueSync

namespace Template

/-- No opener and no closer of any unit stands in the text. -/
def IsPlain (s : Text) : Prop :=
  ∀ k : UnitKind, ¬k.opener <:+: s ∧ ¬k.closer <:+: s

/-- The tokens spell the given units with other tokens around them: blocks from a tag `trans` to a
tag `endtrans`, and inline literals. Units without text are units too. -/
inductive SpellsUnits (path : Text) : List Message → List Token → Prop where
  | nil : SpellsUnits path [] []
  | other {us : List Message} {t : Token} {ts : List Token} (ht : ¬t.IsTag TagName.trans)
      (hinline : t.inlineLiteral? = none) (hts : SpellsUnits path us ts) :
      SpellsUnits path us (t :: ts)
  | inline {us : List Message} {t : Token} {ts : List Token} {literal : Text}
      (ht : t.inlineLiteral? = some literal) (hplain : IsPlain (Text.trim literal))
      (hts : SpellsUnits path us ts) :
      SpellsUnits path (⟨Text.trim literal, [place path t.line], none, none⟩ :: us) (t :: ts)
  | block {us : List Message} {t : Token} {lead words ts : List Token} {comment : Option Text}
      {w : Wording} (ht : t.IsTag TagName.trans) (hlead : LeadsBlock comment lead words)
      (hwords : SpellsWording TagName.endtrans w words) (hts : SpellsUnits path us ts) :
      SpellsUnits path (⟨w.singular, [place path t.line], w.plural, comment⟩ :: us)
        (t :: (lead ++ (words ++ ts)))

/-- The messages that units ask for: the units that have text. -/
def requested (us : List Message) : List Message :=
  us.filter fun u => u.key ≠ []

/-- The tokens spell units with other tokens around them up to a block that is not closed or an
inline literal that is not plain. -/
inductive FirstFault (path : Text) : ParseError → List Token → Prop where
  | unclosedBlock {us : List Message} {before lead words : List Token} {t : Token}
      {comment : Option Text} {expected : List Text} (hbefore : SpellsUnits path us before)
      (ht : t.IsTag TagName.trans) (hlead : LeadsBlock comment lead words)
      (hwords : CutsWording TagName.endtrans expected words) :
      FirstFault path (.unterminatedBlock t.line expected) (before ++ t :: (lead ++ words))
  | delimiter {us : List Message} {before after : List Token} {t : Token} {literal : Text}
      (hbefore : SpellsUnits path us before) (ht : t.inlineLiteral? = some literal)
      (hplain : ¬IsPlain (Text.trim literal)) :
      FirstFault path (.delimiterInLiteral t.line (Text.trim literal)) (before ++ t :: after)

variable {path : Text} {ts rest lead : List Token} {t : Token} {us : List Message}
  {cause : ParseError}

theorem holdsDelimiter_eq_true_iff {s : Text} : holdsDelimiter s = true ↔ ¬IsPlain s := by
  rw [holdsDelimiter_iff, IsPlain]
  grind

theorem holdsDelimiter_eq_false_iff {s : Text} : holdsDelimiter s = false ↔ IsPlain s := by
  rw [← Bool.not_eq_true, holdsDelimiter_eq_true_iff, not_not]

theorem requested_singleton_append (m : Message) (ms : List Message) :
    requested [m] ++ ms = if m.key.isEmpty then ms else m :: ms := by
  cases hkey : m.key <;> simp [requested, hkey]

theorem requested_cons (m : Message) (us : List Message) :
    requested (m :: us) = if m.key.isEmpty then requested us else m :: requested us := by
  rw [← requested_singleton_append]
  exact List.filter_append [m] us

/-- Units in front of others ask for their messages in front of those of the others. -/
theorem map_requested_append (us us' : List Message) (x : Except ParseError (List Message)) :
    (x.map (requested us' ++ ·)).map (requested us ++ ·) = x.map (requested (us ++ us') ++ ·) := by
  cases x with
  | error => rfl
  | ok ms => simp [Except.map, requested]

section readMessages

theorem readMessages_cons_of_isTag (ht : t.IsTag TagName.trans) (ts : List Token) :
    readMessages path (t :: ts) =
      (readWording TagName.endtrans t.line (takeComment ts).2).bind fun r =>
        let unit := ⟨r.1.singular, [place path t.line], r.1.plural, (takeComment ts).1⟩
        (readMessages path r.2).map (requested [unit] ++ ·) := by
  rw [readMessages, ht.tag?_eq List.mem_cons_self]
  simp only [requested_singleton_append]
  split
  · rename_i e he
    rw [he]
    rfl
  · rename_i w rest he
    rw [he]
    rfl

theorem readMessages_cons_of_inline {literal : Text} (ht : t.inlineLiteral? = some literal)
    (ts : List Token) :
    readMessages path (t :: ts) =
      if holdsDelimiter (Text.trim literal) then
        .error (.delimiterInLiteral t.line (Text.trim literal))
      else (readMessages path ts).map
        (requested [⟨Text.trim literal, [place path t.line], none, none⟩] ++ ·) := by
  have hkind : t.kind ≠ .unit .tag := by simp [Token.kind_of_inlineLiteral? ht]
  rw [readMessages, Token.tag?_eq_none_of_kind hkind, ht]
  simp only [requested_singleton_append]

theorem readMessages_cons_of_other (ht : ¬t.IsTag TagName.trans)
    (hinline : t.inlineLiteral? = none) (ts : List Token) :
    readMessages path (t :: ts) = readMessages path ts := by
  rw [readMessages, Token.tag?_singleton_eq_none_iff.2 ht, hinline]

/-- Units and other tokens are read as the grammar has them, whatever comes behind. -/
theorem SpellsUnits.readMessages_append (h : SpellsUnits path us ts) (rest : List Token) :
    readMessages path (ts ++ rest) = (readMessages path rest).map (requested us ++ ·) := by
  induction h with
  | nil =>
    rw [List.nil_append]
    cases readMessages path rest <;> rfl
  | other ht hinline _ ih => rw [List.cons_append, readMessages_cons_of_other ht hinline, ih]
  | inline ht hplain _ ih =>
    have hdelimiter := holdsDelimiter_eq_false_iff.2 hplain
    rw [List.cons_append, readMessages_cons_of_inline ht, hdelimiter, if_neg Bool.false_ne_true,
      ih, map_requested_append, List.singleton_append]
  | @block _ t lead words ts comment w ht hlead hwords _ ih =>
    have hlead' := (hwords.leadsBlock_append_iff (ts ++ rest)).2 hlead
    rw [List.cons_append, List.append_assoc, List.append_assoc, readMessages_cons_of_isTag ht,
      hlead'.takeComment_append, hwords.readWording_append (by decide)]
    show (readMessages path (ts ++ rest)).map _ = _
    rw [ih, map_requested_append, List.singleton_append]

theorem readMessages_eq_ok_iff {ms : List Message} :
    readMessages path ts = .ok ms ↔ ∃ us, SpellsUnits path us ts ∧ ms = requested us := by
  constructor
  · intro h
    fun_induction readMessages path ts generalizing ms with
    | case1 =>
      obtain rfl := Except.ok.inj h
      exact ⟨[], .nil, rfl⟩
    | case2 => cases h
    | case3 t ts opening hopening w rest hwording ih =>
      obtain ⟨ht, rfl⟩ := Token.of_tag?_singleton hopening
      cases htake : takeComment ts with
      | mk comment ts₁ =>
      obtain ⟨lead, rfl, hlead⟩ := takeComment_eq_iff.1 htake
      simp only [htake] at hwording h
      obtain ⟨words, rfl, hwords⟩ := (readWording_eq_ok_iff (by decide)).1 hwording
      obtain ⟨ms', hms, rfl⟩ := of_map_eq_ok h
      obtain ⟨us, hus, rfl⟩ := ih hms
      refine ⟨_, .block ht ((hwords.leadsBlock_append_iff rest).1 hlead) hwords hus, ?_⟩
      rw [requested_cons]
    | case4 => cases h
    | case5 t ts _ literal hinline _ hdelimiter =>
      rename_i ih
      obtain ⟨ms', hms, rfl⟩ := of_map_eq_ok h
      obtain ⟨us, hus, rfl⟩ := ih hms
      have hplain := holdsDelimiter_eq_false_iff.1 (by simpa using hdelimiter)
      refine ⟨_, .inline hinline hplain hus, ?_⟩
      rw [requested_cons]
    | case6 t ts hopening hinline ih =>
      obtain ⟨us, hus, rfl⟩ := ih h
      exact ⟨us, .other (Token.tag?_singleton_eq_none_iff.1 hopening) hinline hus, rfl⟩
  · rintro ⟨us, hus, rfl⟩
    have hread := hus.readMessages_append []
    rw [List.append_nil] at hread
    rw [hread, readMessages]
    simp [Except.map]

theorem SpellsUnits.append {us' : List Message} (h : SpellsUnits path us ts)
    (h' : SpellsUnits path us' rest) : SpellsUnits path (us ++ us') (ts ++ rest) := by
  induction h with
  | nil => exact h'
  | other ht hinline _ ih => exact .other ht hinline ih
  | inline ht hplain _ ih => exact .inline ht hplain ih
  | block ht hlead hwords _ ih =>
    rw [List.cons_append, List.cons_append, List.append_assoc, List.append_assoc]
    exact .block ht hlead hwords ih

theorem FirstFault.append (h : FirstFault path cause rest) (hts : SpellsUnits path us ts) :
    FirstFault path cause (ts ++ rest) := by
  cases h with
  | unclosedBlock hbefore ht hlead hwords =>
    rw [← List.append_assoc]
    exact .unclosedBlock (hts.append hbefore) ht hlead hwords
  | delimiter hbefore ht hplain =>
    rw [← List.append_assoc]
    exact .delimiter (hts.append hbefore) ht hplain

/-- Reading fails with the first fault. -/
theorem readMessages_eq_error_iff :
    readMessages path ts = .error cause ↔ FirstFault path cause ts := by
  constructor
  · intro h
    fun_induction readMessages path ts generalizing cause with
    | case1 => cases h
    | case2 t ts opening hopening cause' hwording =>
      obtain ⟨ht, rfl⟩ := Token.of_tag?_singleton hopening
      obtain rfl := Except.error.inj h
      cases htake : takeComment ts with
      | mk comment words =>
      obtain ⟨lead, rfl, hlead⟩ := takeComment_eq_iff.1 htake
      rw [htake] at hwording
      obtain ⟨expected, hwords, rfl⟩ := readWording_eq_error_iff.1 hwording
      exact .unclosedBlock .nil ht hlead hwords
    | case3 t ts opening hopening w rest hwording ih =>
      obtain ⟨ht, rfl⟩ := Token.of_tag?_singleton hopening
      cases htake : takeComment ts with
      | mk comment ts₁ =>
      obtain ⟨lead, rfl, hlead⟩ := takeComment_eq_iff.1 htake
      rw [htake] at hwording
      obtain ⟨words, rfl, hwords⟩ := (readWording_eq_ok_iff (by decide)).1 hwording
      have hfault := (ih (map_eq_error_iff.1 h)).append
        (.block ht ((hwords.leadsBlock_append_iff rest).1 hlead) hwords .nil)
      simpa using hfault
    | case4 t ts _ literal hinline _ =>
      rename_i hdelimiter
      obtain rfl := Except.error.inj h
      exact .delimiter .nil hinline (holdsDelimiter_eq_true_iff.1 hdelimiter)
    | case5 t ts _ literal hinline _ hdelimiter =>
      rename_i ih
      have hplain := holdsDelimiter_eq_false_iff.1 (by simpa using hdelimiter)
      exact (ih (map_eq_error_iff.1 h)).append (.inline hinline hplain .nil)
    | case6 t ts hopening hinline ih =>
      exact (ih h).append (.other (Token.tag?_singleton_eq_none_iff.1 hopening) hinline .nil)
  · intro h
    cases h with
    | @unclosedBlock _ before lead words t _ _ hbefore ht hlead hwords =>
      rw [hbefore.readMessages_append, readMessages_cons_of_isTag ht, hlead.takeComment_append,
        hwords.readWording_eq]
      rfl
    | delimiter hbefore ht hplain =>
      rw [hbefore.readMessages_append, readMessages_cons_of_inline ht,
        if_pos (holdsDelimiter_eq_true_iff.2 hplain)]
      rfl

end readMessages

/-- A template is read exactly when it consists of blocks, plain inline literals and other tokens,
and its messages are then the units that have text, in order. It is refused for its first unit that
is a block without an end or an inline literal with a delimiter. -/
theorem messages_eq_iff_spellsUnits (t : Template) :
    (∀ ms, t.messages = .ok ms ↔
      ∃ us, SpellsUnits t.path us (scan t.text) ∧ ms = us.filter fun u => u.key ≠ []) ∧
    ∀ cause, t.messages = .error cause ↔ FirstFault t.path cause (scan t.text) :=
  ⟨fun _ => readMessages_eq_ok_iff, fun _ => readMessages_eq_error_iff⟩

/-- A comment leads the first block and stands inside of the second one. -/
example : messages ⟨"a".toList, ("\x7b% trans %\x7d \x7b# c #\x7dx\x7b% endtrans %\x7d\n" ++
    "\x7b% trans %\x7dy\x7b# c #\x7d\x7b% plural %\x7dz\x7b% endtrans %\x7d").toList⟩ =
      .ok [⟨"x".toList, ["a#L1".toList], none, some "c".toList⟩,
        ⟨"y\x7b# c #\x7d".toList, ["a#L2".toList], some "z".toList, none⟩] := by
  decide +kernel

end Template

end CatalogueSync
