import CatalogueSync.Proofs.Block.Grammar
import CatalogueSync.Proofs.Catalogue.Grouping
import CatalogueSync.Proofs.Catalogue.RoundTrip

/-!
# The grammar of catalogue files

An entry is spelled by tokens from a tag `msg` to a tag `endmsg` (`LocaleEntry.SpellsEntry`), and a
file by entries with junk between them (`LocaleEntry.SpellsFile`). Reading takes such files and no
others (`LocaleEntry.readAll_eq_ok_iff`), and it refuses another file for the first place where
neither an entry nor junk goes on (`LocaleEntry.readAll_eq_error_iff`). Both facts rest on the same
two for one entry, and these on the grammar of blocks. The catalogue of a file is the one that
gathers its entries (`LocaleCatalogue.gathers_iff`).
-/

set_option autoImplicit false

namespace CatalogueSync

namespace LocaleEntry

/-- The tokens spell the texts of variants, with a tag `msg` behind each but the last and the tag of
the source language behind the last. -/
inductive SpellsVariants (sourceTag : Text) : List Text → List Token → Prop where
  | last {body : List Token} {t : Token} (hbody : TagFree [TagName.msg, sourceTag] body)
      (ht : t.IsTag sourceTag) : SpellsVariants sourceTag [blockText body] (body ++ [t])
  | more {texts : List Text} {body ts : List Token} {t : Token}
      (hbody : TagFree [TagName.msg, sourceTag] body) (ht : t.IsTag TagName.msg)
      (hts : SpellsVariants sourceTag texts ts) :
      SpellsVariants sourceTag (blockText body :: texts) (body ++ t :: ts)

/-- The tokens spell an entry, from the tag `msg` that opens it to the tag `endmsg`. Texts of
variants that are empty are no variants. -/
inductive SpellsEntry (sourceTag : Text) : LocaleEntry → List Token → Prop where
  | mk {opening : Token} {comment : Option Text} {lead vs words : List Token} {texts : List Text}
      {w : Wording} (hopening : opening.IsTag TagName.msg)
      (hlead : LeadsBlock comment lead (vs ++ words)) (hvs : SpellsVariants sourceTag texts vs)
      (hwords : SpellsWording TagName.endmsg w words) :
      SpellsEntry sourceTag
        { key := w.singular, sources := opening.arguments, plural := w.plural, comment,
          variants := texts.filter fun text => text ≠ [] }
        (opening :: (lead ++ (vs ++ words)))

/-- Behind the tag that opens an entry the tokens are over before the entry is, where one of the
tags `expected` could have come. -/
inductive CutsEntry (sourceTag : Text) : List Text → List Token → Prop where
  | variants {ts : List Token} (hts : TagFree [sourceTag] ts) :
      CutsEntry sourceTag [TagName.msg, sourceTag] ts
  | wording {comment : Option Text} {lead vs words : List Token} {texts expected : List Text}
      (hlead : LeadsBlock comment lead (vs ++ words)) (hvs : SpellsVariants sourceTag texts vs)
      (hwords : CutsWording TagName.endmsg expected words) :
      CutsEntry sourceTag expected (lead ++ (vs ++ words))

/-- A token that can stand between entries. -/
structure IsJunk (t : Token) : Prop where
  not_isTag : ¬t.IsTag TagName.msg
  inlineLiteral? : t.inlineLiteral? = none
  unclosed? : t.unclosed? = none

/-- The tokens spell a list of entries with junk between them. -/
inductive SpellsFile (sourceTag : Text) : List LocaleEntry → List Token → Prop where
  | nil : SpellsFile sourceTag [] []
  | junk {es : List LocaleEntry} {t : Token} {ts : List Token} (ht : IsJunk t)
      (hts : SpellsFile sourceTag es ts) : SpellsFile sourceTag es (t :: ts)
  | entry {e : LocaleEntry} {es : List LocaleEntry} {used ts : List Token}
      (he : SpellsEntry sourceTag e used) (hts : SpellsFile sourceTag es ts) :
      SpellsFile sourceTag (e :: es) (used ++ ts)

/-- The tokens spell entries with junk between them up to a place where neither can go on. -/
inductive FirstViolation (sourceTag : Text) : ParseError → List Token → Prop where
  | output {es : List LocaleEntry} {before after : List Token} {t : Token}
      (hbefore : SpellsFile sourceTag es before) (ht : t.inlineLiteral?.isSome) :
      FirstViolation sourceTag (.outputBetweenEntries t.line) (before ++ t :: after)
  | unclosedUnit {es : List LocaleEntry} {before after : List Token} {t : Token} {kind : UnitKind}
      (hbefore : SpellsFile sourceTag es before) (ht : t.unclosed? = some kind) :
      FirstViolation sourceTag (.unclosedUnit t.line kind) (before ++ t :: after)
  | unclosedEntry {es : List LocaleEntry} {before after : List Token} {t : Token}
      {expected : List Text} (hbefore : SpellsFile sourceTag es before)
      (ht : t.IsTag TagName.msg) (hafter : CutsEntry sourceTag expected after) :
      FirstViolation sourceTag (.unterminatedBlock t.line expected) (before ++ t :: after)

variable {sourceTag : Text} {openedAt : Nat} {ts rest : List Token} {texts : List Text}
  {e : LocaleEntry} {cause : ParseError}

section readVariants

theorem SpellsVariants.exists_tag (h : SpellsVariants sourceTag texts ts) :
    ∃ t ∈ ts, t.kind = .unit .tag := by
  cases h with
  | last _ ht => exact ⟨_, by simp, ht.kind⟩
  | more _ ht _ => exact ⟨_, by simp, ht.kind⟩

/-- A text stands for a variant unless it is empty. -/
theorem filter_ne_nil_cons (text : Text) (texts : List Text) :
    ((text :: texts).filter fun text => text ≠ []) =
      (if text.isEmpty then [] else [text]) ++ texts.filter fun text => text ≠ [] := by
  cases text <;> simp

theorem SpellsVariants.readVariants_append (hne : sourceTag ≠ TagName.msg)
    (h : SpellsVariants sourceTag texts ts) (openedAt : Nat) (rest : List Token) :
    readVariants sourceTag openedAt (ts ++ rest) =
      .ok (texts.filter fun text => text ≠ [], rest) := by
  induction h with
  | last hbody ht =>
    rw [List.append_assoc, List.singleton_append,
      readVariants_of_readBlock (readBlock_of_isTag hbody ht (by simp) _ _), if_pos rfl,
      filter_ne_nil_cons, List.filter_nil, List.append_nil]
  | more hbody ht _ ih =>
    rw [List.append_assoc, List.cons_append,
      readVariants_of_readBlock (readBlock_of_isTag hbody ht (by simp) _ _), if_neg hne.symm, ih,
      filter_ne_nil_cons]
    rfl

theorem readVariants_eq_ok_iff (hne : sourceTag ≠ TagName.msg) {variants : List Text} :
    readVariants sourceTag openedAt ts = .ok (variants, rest) ↔
      ∃ texts body, ts = body ++ rest ∧ SpellsVariants sourceTag texts body ∧
        variants = texts.filter fun text => text ≠ [] := by
  constructor
  · intro h
    fun_induction readVariants sourceTag openedAt ts generalizing variants rest with
    | case1 => cases h
    | case2 ts b next hread _ =>
      rename_i hclose
      obtain ⟨body, t, rfl, hbody, ht, -, htext⟩ := of_readBlock hread
      rw [hclose] at ht
      obtain ⟨rfl, rfl⟩ := Prod.mk.inj (Except.ok.inj h)
      refine ⟨_, _, by simp, .last hbody ht, ?_⟩
      rw [filter_ne_nil_cons, ← htext]
      exact (List.append_nil _).symm
    | case3 => cases h
    | case4 ts b next hread _ hclose more next' hmore =>
      rename_i ih
      obtain ⟨body, t, rfl, hbody, ht, hname, htext⟩ := of_readBlock hread
      obtain ⟨texts, body', rfl, hvs, rfl⟩ := ih hmore
      have hmsg : b.close.name = TagName.msg := by simpa [hclose] using hname
      rw [hmsg] at ht
      obtain ⟨rfl, rfl⟩ := Prod.mk.inj (Except.ok.inj h)
      refine ⟨_, _, by simp, .more hbody ht hvs, ?_⟩
      rw [filter_ne_nil_cons, ← htext]
      rfl
  · rintro ⟨texts, body, rfl, hvs, rfl⟩
    exact hvs.readVariants_append hne openedAt rest

/-- Variants are not closed exactly when the tag of the source language does not come any more. -/
theorem readVariants_eq_error_iff :
    readVariants sourceTag openedAt ts = .error cause ↔
      TagFree [sourceTag] ts ∧ cause = .unterminatedBlock openedAt [TagName.msg, sourceTag] := by
  have hsub : [sourceTag] ⊆ [TagName.msg, sourceTag] := by simp
  fun_induction readVariants sourceTag openedAt ts with
  | case1 ts cause' hread =>
    obtain ⟨hts, rfl⟩ := readBlock_eq_error_iff.1 hread
    simp [hts.mono hsub, eq_comm]
  | case2 ts b next hread _ =>
    rename_i hclose
    obtain ⟨body, t, rfl, -, ht, -, -⟩ := of_readBlock hread
    rw [hclose] at ht
    simp [ht]
  | case3 ts b next hread hclose cause' hmore ih =>
    obtain ⟨body, t, rfl, hbody, ht, -, -⟩ := of_readBlock hread
    rw [← hmore]
    refine ih.trans ?_
    simp [hbody.mono hsub, ht.not_isTag hclose]
  | case4 ts b next hread _ hclose more next' hmore =>
    rename_i ih
    obtain ⟨body, t, rfl, hbody, ht, -, -⟩ := of_readBlock hread
    rw [hmore] at ih
    have hnot := mt ih.2 (by simp)
    simpa [hbody.mono hsub, ht.not_isTag hclose] using hnot

end readVariants

section read

variable {t : Token}

theorem SpellsEntry.read_append (hne : sourceTag ≠ TagName.msg)
    (h : SpellsEntry sourceTag e (t :: ts)) (rest : List Token) :
    read sourceTag ⟨TagName.msg, t.arguments, t.line⟩ (ts ++ rest) = .ok (e, rest) := by
  cases h with
  | @mk _ comment lead vs words texts w _ hlead hvs hwords =>
    obtain ⟨u, hu, hkind⟩ := hvs.exists_tag
    have hlead' : LeadsBlock comment lead (vs ++ words ++ rest) :=
      (LeadsBlock.append_iff ⟨u, List.mem_append_left _ hu, hkind⟩ rest).2 hlead
    rw [List.append_assoc, read, hlead'.takeComment_append]
    simp only [List.append_assoc, hvs.readVariants_append hne,
      hwords.readWording_append (by decide)]

theorem CutsEntry.read_eq {expected : List Text} (hne : sourceTag ≠ TagName.msg)
    (h : CutsEntry sourceTag expected ts) (opening : Tag) :
    read sourceTag opening ts = .error (.unterminatedBlock opening.line expected) := by
  rw [read]
  cases h with
  | variants hfree =>
    cases htake : takeComment ts with
    | mk comment ts₁ =>
    obtain ⟨lead, rfl, hlead⟩ := takeComment_eq_iff.1 htake
    have hfree' := (tagFree_append_iff.1 hfree).2
    simp only [readVariants_eq_error_iff.2 ⟨hfree', rfl⟩]
  | wording hlead hvs hwords =>
    rw [hlead.takeComment_append]
    simp only [hvs.readVariants_append hne, hwords.readWording_eq]

/-- An entry is read from behind its first tag as the grammar has it. -/
theorem read_eq_ok_iff (hne : sourceTag ≠ TagName.msg) (ht : t.IsTag TagName.msg) :
    read sourceTag ⟨TagName.msg, t.arguments, t.line⟩ ts = .ok (e, rest) ↔
      ∃ body, ts = body ++ rest ∧ SpellsEntry sourceTag e (t :: body) := by
  constructor
  · intro h
    rw [read] at h
    cases htake : takeComment ts with
    | mk comment ts₁ =>
    rw [htake] at h
    simp only at h
    split at h
    · cases h
    · rename_i variants ts₂ hvariants
      split at h
      · cases h
      · rename_i w ts₃ hwording
        obtain ⟨lead, rfl, hlead⟩ := takeComment_eq_iff.1 htake
        obtain ⟨texts, vs, rfl, hvs, rfl⟩ := (readVariants_eq_ok_iff hne).1 hvariants
        obtain ⟨words, rfl, hwords⟩ := (readWording_eq_ok_iff (by decide)).1 hwording
        obtain ⟨rfl, rfl⟩ := Prod.mk.inj (Except.ok.inj h)
        obtain ⟨u, hu, hkind⟩ := hvs.exists_tag
        rw [← List.append_assoc,
          LeadsBlock.append_iff ⟨u, List.mem_append_left _ hu, hkind⟩] at hlead
        exact ⟨lead ++ (vs ++ words), by simp, .mk ht hlead hvs hwords⟩
  · rintro ⟨body, rfl, he⟩
    exact he.read_append hne rest

/-- An entry is not closed when the tokens are over before it is. -/
theorem read_eq_error_iff (hne : sourceTag ≠ TagName.msg) {opening : Tag} :
    read sourceTag opening ts = .error cause ↔
      ∃ expected, CutsEntry sourceTag expected ts ∧
        cause = .unterminatedBlock opening.line expected := by
  constructor
  · intro h
    rw [read] at h
    cases htake : takeComment ts with
    | mk comment ts₁ =>
    rw [htake] at h
    obtain ⟨lead, rfl, hlead⟩ := takeComment_eq_iff.1 htake
    simp only at h
    split at h
    · rename_i cause' hvariants
      obtain ⟨hfree, rfl⟩ := readVariants_eq_error_iff.1 hvariants
      have hfree' := tagFree_append_iff.2 ⟨hlead.tagFree [sourceTag], hfree⟩
      exact ⟨_, .variants hfree', (Except.error.inj h).symm⟩
    · rename_i variants ts₂ hvariants
      split at h
      · rename_i cause' hwording
        obtain ⟨texts, vs, rfl, hvs, -⟩ := (readVariants_eq_ok_iff hne).1 hvariants
        obtain ⟨expected, hwords, rfl⟩ := readWording_eq_error_iff.1 hwording
        exact ⟨expected, .wording hlead hvs hwords, (Except.error.inj h).symm⟩
      · cases h
  · rintro ⟨expected, hts, rfl⟩
    exact hts.read_eq hne opening

end read

section readAll

variable {es : List LocaleEntry} {t : Token}

theorem readAll_cons_of_isJunk (ht : IsJunk t) (ts : List Token) :
    readAll sourceTag (t :: ts) = readAll sourceTag ts := by
  rw [readAll, Token.tag?_singleton_eq_none_iff.2 ht.not_isTag, ht.inlineLiteral?, ht.unclosed?]
  rfl

theorem readAll_cons_of_isTag (ht : t.IsTag TagName.msg) (ts : List Token) :
    readAll sourceTag (t :: ts) =
      (read sourceTag ⟨TagName.msg, t.arguments, t.line⟩ ts).bind fun r =>
        (readAll sourceTag r.2).map (r.1 :: ·) :=
  readAll_cons_of_tag? (ht.tag?_eq List.mem_cons_self) ts

theorem SpellsEntry.exists_cons (h : SpellsEntry sourceTag e ts) :
    ∃ opening body, ts = opening :: body ∧ opening.IsTag TagName.msg := by
  cases h with
  | mk hopening _ _ _ => exact ⟨_, _, rfl, hopening⟩

theorem SpellsEntry.exists_concat (h : SpellsEntry sourceTag e ts) :
    ∃ before t, ts = before ++ [t] ∧ t.IsTag TagName.endmsg := by
  cases h with
  | @mk opening _ lead vs _ _ _ _ _ _ hwords =>
    obtain ⟨before, t, rfl, ht⟩ := hwords.exists_concat
    exact ⟨opening :: (lead ++ (vs ++ before)), t, by simp, ht⟩

/-- The last token of a file ends an entry or stands behind all entries. -/
theorem SpellsFile.of_concat (h : SpellsFile sourceTag es (ts ++ [t])) :
    t.kind = .unit .tag ∨ IsJunk t ∧ SpellsFile sourceTag es ts := by
  generalize htokens : ts ++ [t] = us at h
  induction h generalizing ts with
  | nil => simp at htokens
  | @junk es u us hu hus ih =>
    cases ts with
    | nil =>
      obtain ⟨rfl, rfl⟩ := List.cons.inj htokens
      exact .inr ⟨hu, hus⟩
    | cons v ts =>
      obtain ⟨rfl, hts⟩ := List.cons.inj htokens
      obtain hkind | ⟨ht, hfile⟩ := ih hts
      · exact .inl hkind
      · exact .inr ⟨ht, .junk hu hfile⟩
  | @entry e es used us he hus ih =>
    obtain rfl | ⟨us, u, rfl⟩ := List.eq_nil_or_concat us
    · obtain ⟨before, u, rfl, hu⟩ := he.exists_concat
      rw [List.append_nil] at htokens
      obtain ⟨-, hlast⟩ := List.append_inj' htokens rfl
      obtain rfl := List.singleton_inj.1 hlast
      exact .inl hu.kind
    · rw [List.concat_eq_append, ← List.append_assoc] at htokens
      obtain ⟨rfl, hlast⟩ := List.append_inj' htokens rfl
      obtain rfl := List.singleton_inj.1 hlast
      obtain hkind | ⟨ht, hfile⟩ := ih (List.concat_eq_append ..).symm
      · exact .inl hkind
      · exact .inr ⟨ht, .entry he hfile⟩

/-- A unit that is never closed is the last token of its text, and no file ends with it. -/
theorem SpellsFile.unclosed?_eq_none {n : Nat} {s : Text}
    (h : SpellsFile sourceTag es (scanFrom n s)) (ht : t ∈ scanFrom n s) : t.unclosed? = none := by
  cases hopen : t.unclosed? with
  | none => rfl
  | some k =>
    have hkind := Token.kind_of_unclosed? hopen
    obtain ⟨before, after, hscan⟩ := List.append_of_mem ht
    obtain hplain | ⟨rfl, -⟩ := ((isTokenization_scanFrom n s).hasPlace _ _ _ hscan).text hkind
    · exact absurd (Token.prefix_of_unclosed? hopen).isInfix (hplain k)
    · rw [hscan] at h
      obtain htag | ⟨hjunk, -⟩ := h.of_concat
      · cases hkind.symm.trans htag
      · cases hopen.symm.trans hjunk.unclosed?

theorem SpellsFile.not_isUnclosed {n : Nat} {s : Text} (h : SpellsFile sourceTag es (scanFrom n s))
    (ht : t ∈ scanFrom n s) (hkind : t.kind = .text) (k : UnitKind) : ¬k.IsUnclosed t.raw := by
  rintro ⟨inside, hraw, -⟩
  have hclosed := h.unclosed?_eq_none ht
  obtain ⟨kind, raw, line⟩ := t
  obtain rfl : kind = .text := hkind
  obtain rfl : raw = k.opener ++ inside := hraw
  rw [Token.unclosed?_of_text] at hclosed
  simp at hclosed

/-- Entries and junk are read as the grammar has them, whatever comes behind. -/
theorem SpellsFile.readAll_append (hne : sourceTag ≠ TagName.msg) (h : SpellsFile sourceTag es ts)
    (rest : List Token) :
    readAll sourceTag (ts ++ rest) = (readAll sourceTag rest).map (es ++ ·) := by
  induction h with
  | nil =>
    rw [List.nil_append]
    cases readAll sourceTag rest <;> rfl
  | junk ht _ ih => rw [List.cons_append, readAll_cons_of_isJunk ht, ih]
  | @entry e es used ts he _ ih =>
    obtain ⟨opening, body, rfl, hopening⟩ := he.exists_cons
    rw [List.append_assoc, List.cons_append, readAll_cons_of_isTag hopening, he.read_append hne]
    show (readAll sourceTag (ts ++ rest)).map (e :: ·) = _
    rw [ih]
    cases readAll sourceTag rest <;> rfl

/-- The entries of a file are read exactly when the whole file follows the grammar. -/
theorem readAll_eq_ok_iff (hne : sourceTag ≠ TagName.msg) :
    readAll sourceTag ts = .ok es ↔ SpellsFile sourceTag es ts := by
  constructor
  · intro h
    fun_induction readAll sourceTag ts generalizing es with
    | case1 =>
      obtain rfl := Except.ok.inj h
      exact .nil
    | case2 => cases h
    | case3 t ts opening ht e rest hread ih =>
      obtain ⟨htag, rfl⟩ := Token.of_tag?_singleton ht
      obtain ⟨body, rfl, he⟩ := (read_eq_ok_iff hne htag).1 hread
      obtain ⟨more, hmore, rfl⟩ := of_map_eq_ok h
      exact .entry he (ih hmore)
    | case4 => cases h
    | case5 => cases h
    | case6 t ts htag hinline hunclosed ih =>
      have hjunk : IsJunk t :=
        ⟨Token.tag?_singleton_eq_none_iff.1 htag, by simpa using hinline, hunclosed⟩
      exact .junk hjunk (ih h)
  · intro h
    have hread := h.readAll_append hne []
    rw [List.append_nil] at hread
    rw [hread, readAll]
    simp [Except.map]

theorem SpellsFile.append {es' : List LocaleEntry} (h : SpellsFile sourceTag es ts)
    (h' : SpellsFile sourceTag es' rest) : SpellsFile sourceTag (es ++ es') (ts ++ rest) := by
  induction h with
  | nil => exact h'
  | junk ht _ ih => exact .junk ht ih
  | entry he _ ih =>
    rw [List.append_assoc]
    exact .entry he ih

theorem FirstViolation.append (h : FirstViolation sourceTag cause rest)
    (hts : SpellsFile sourceTag es ts) : FirstViolation sourceTag cause (ts ++ rest) := by
  cases h with
  | output hbefore ht =>
    rw [← List.append_assoc]
    exact .output (hts.append hbefore) ht
  | unclosedUnit hbefore ht =>
    rw [← List.append_assoc]
    exact .unclosedUnit (hts.append hbefore) ht
  | unclosedEntry hbefore ht hafter =>
    rw [← List.append_assoc]
    exact .unclosedEntry (hts.append hbefore) ht hafter

/-- Reading fails with the first violation of the grammar. -/
theorem readAll_eq_error_iff (hne : sourceTag ≠ TagName.msg) :
    readAll sourceTag ts = .error cause ↔ FirstViolation sourceTag cause ts := by
  constructor
  · intro h
    fun_induction readAll sourceTag ts generalizing cause with
    | case1 => cases h
    | case2 t ts opening ht cause' hread =>
      obtain ⟨htag, rfl⟩ := Token.of_tag?_singleton ht
      obtain ⟨expected, hcuts, rfl⟩ := (read_eq_error_iff hne).1 hread
      obtain rfl := Except.error.inj h
      exact .unclosedEntry .nil htag hcuts
    | case3 t ts opening ht e rest hread ih =>
      obtain ⟨htag, rfl⟩ := Token.of_tag?_singleton ht
      obtain ⟨body, rfl, he⟩ := (read_eq_ok_iff hne htag).1 hread
      have hrest := map_eq_error_iff.1 h
      have hentry : SpellsFile sourceTag [e] (t :: body ++ []) := .entry he .nil
      rw [List.append_nil] at hentry
      exact (ih hrest).append hentry
    | case4 t ts htag hinline =>
      obtain rfl := Except.error.inj h
      exact .output .nil hinline
    | case5 t ts htag hinline kind hunclosed =>
      obtain rfl := Except.error.inj h
      exact .unclosedUnit .nil hunclosed
    | case6 t ts htag hinline hunclosed ih =>
      have hjunk : IsJunk t :=
        ⟨Token.tag?_singleton_eq_none_iff.1 htag, by simpa using hinline, hunclosed⟩
      exact (ih h).append (.junk hjunk .nil)
  · intro h
    cases h with
    | @output es before after t hbefore ht =>
      obtain ⟨literal, hliteral⟩ := Option.isSome_iff_exists.1 ht
      have hkind : t.kind ≠ .unit .tag := by simp [Token.kind_of_inlineLiteral? hliteral]
      rw [hbefore.readAll_append hne, readAll, Token.tag?_eq_none_of_kind hkind, hliteral]
      rfl
    | @unclosedUnit es before after t kind hbefore ht =>
      have htext := Token.kind_of_unclosed? ht
      have hkind : t.kind ≠ .unit .tag := by simp [htext]
      have hliteral : t.inlineLiteral? = none := by simp [Token.inlineLiteral?, htext]
      rw [hbefore.readAll_append hne, readAll, Token.tag?_eq_none_of_kind hkind, hliteral, ht]
      rfl
    | @unclosedEntry es before after t expected hbefore ht hafter =>
      rw [hbefore.readAll_append hne, readAll_cons_of_isTag ht, hafter.read_eq hne]
      rfl

end readAll

end LocaleEntry

namespace LocaleCatalogue

/-- A catalogue holds the given entries: one for each key, in the order in which the keys first
occur, with what the first entry of the key says and with the variants of all of them. -/
structure Gathers (es : List LocaleEntry) (c : LocaleCatalogue) : Prop where
  lawful : c.Lawful
  keys : c.keys = (es.map fun e => e.key).eraseDups
  entry : ∀ key e later, (es.filter fun d => d.key = key) = e :: later →
    c.get? key = some { e with variants := (e :: later).flatMap fun d => d.variants }

theorem mergeAll_appendVariants (e : LocaleEntry) (es : List LocaleEntry) :
    Catalogue.mergeAll LocaleEntry.appendVariants (e :: es) =
      some { e with variants := (e :: es).flatMap fun d => d.variants } := by
  rw [Catalogue.mergeAll]
  induction es generalizing e with
  | nil => simp
  | cons f es ih =>
    rw [List.foldl_cons, ih]
    simp [LocaleEntry.appendVariants]

theorem gathers_iff {es : List LocaleEntry} {c : LocaleCatalogue} :
    Gathers es c ↔ Catalogue.collect LocaleEntry.appendVariants es = c := by
  have hgathers : Gathers es (Catalogue.collect LocaleEntry.appendVariants es) := by
    refine ⟨Catalogue.lawful_collect LocaleEntry.key_appendVariants es,
      Catalogue.keys_collect LocaleEntry.key_appendVariants es, ?_⟩
    intro key e later hfilter
    rw [← mergeAll_appendVariants, ← hfilter]
    exact Catalogue.get?_collect LocaleEntry.key_appendVariants es key
  constructor
  · intro h
    apply hgathers.lawful.ext_of_filter h.lawful hgathers.keys h.keys
    intro key e later hfilter
    rw [hgathers.entry key e later hfilter, h.entry key e later hfilter]
  · rintro rfl
    exact hgathers

variable {sourceTag : Text}

theorem parse_of_readAll {s : Text} {es : List LocaleEntry}
    (h : LocaleEntry.readAll sourceTag (scan s) = .ok es) :
    parse sourceTag s = .ok (Catalogue.collect LocaleEntry.appendVariants es) := by
  rw [parse, h]
  rfl

theorem parse_eq_error_iff {s : Text} {cause : ParseError} :
    parse sourceTag s = .error cause ↔ LocaleEntry.readAll sourceTag (scan s) = .error cause :=
  map_eq_error_iff

/-- A catalogue file is read exactly when it consists of entries with junk between them, and what is
read is the catalogue that gathers these entries. A unit that is never closed can stand nowhere in
it. All other files are refused for the first place where neither an entry nor junk goes on. -/
theorem parse_eq_iff_spellsFile (htag : IsReadable sourceTag) (s : Text) :
    (∀ c, parse sourceTag s = .ok c ↔
      ∃ es, LocaleEntry.SpellsFile sourceTag es (scan s) ∧ Gathers es c) ∧
    (∀ c, parse sourceTag s = .ok c →
      ∀ t ∈ scan s, t.kind = .text → ∀ k : UnitKind, ¬k.IsUnclosed t.raw) ∧
    ∀ cause, parse sourceTag s = .error cause ↔
      LocaleEntry.FirstViolation sourceTag cause (scan s) := by
  have hne := htag.ne_msg
  have hok : ∀ c, parse sourceTag s = .ok c ↔
      ∃ es, LocaleEntry.SpellsFile sourceTag es (scan s) ∧ Gathers es c := by
    intro c
    constructor
    · intro h
      obtain ⟨es, hread, hc⟩ := of_map_eq_ok h
      exact ⟨es, (LocaleEntry.readAll_eq_ok_iff hne).1 hread, gathers_iff.2 hc⟩
    · rintro ⟨es, hfile, hc⟩
      rw [parse_of_readAll ((LocaleEntry.readAll_eq_ok_iff hne).2 hfile), gathers_iff.1 hc]
  refine ⟨hok, ?_, ?_⟩
  · intro c h t ht hkind k
    obtain ⟨es, hfile, -⟩ := (hok c).1 h
    exact hfile.not_isUnclosed ht hkind k
  · intro cause
    rw [parse_eq_error_iff]
    exact LocaleEntry.readAll_eq_error_iff hne

/-- A key that occurs twice, with an empty variant and junk around it; and an entry in which
`endmsg` is missing. -/
theorem parse_eq_iff_spellsFile_twice :
    (∃ es c, LocaleEntry.SpellsFile "en".toList es (scan
      ("\x7b% msg 'a:1' %\x7d\n\x7b# c #\x7done\x7b% msg %\x7d\x7b% en %\x7dk\x7b% endmsg %\x7d." ++
        " \x7b% msg 'b:2' %\x7dtwo\x7b% en %\x7dk\x7b% endmsg %\x7d\x7b\x7b x \x7d\x7d").toList) ∧
      Gathers es c ∧ c.entries =
        [⟨⟨"k".toList, ["a:1".toList], none, some "c".toList⟩, ["one".toList, "two".toList]⟩]) ∧
    LocaleEntry.FirstViolation "en".toList (.unterminatedBlock 2 [TagName.endmsg])
      (scan "x\n\x7b% msg %\x7da\x7b% en %\x7dk\n\x7b% plural %\x7dks".toList) := by
  have hread : LocaleEntry.readAll "en".toList (scan
      ("\x7b% msg 'a:1' %\x7d\n\x7b# c #\x7done\x7b% msg %\x7d\x7b% en %\x7dk\x7b% endmsg %\x7d." ++
        " \x7b% msg 'b:2' %\x7dtwo\x7b% en %\x7dk\x7b% endmsg %\x7d\x7b\x7b x \x7d\x7d").toList) =
      .ok [⟨⟨"k".toList, ["a:1".toList], none, some "c".toList⟩, ["one".toList]⟩,
        ⟨⟨"k".toList, ["b:2".toList], none, none⟩, ["two".toList]⟩] := by
    decide +kernel
  have hcut : LocaleEntry.readAll "en".toList
      (scan "x\n\x7b% msg %\x7da\x7b% en %\x7dk\n\x7b% plural %\x7dks".toList) =
      .error (.unterminatedBlock 2 [TagName.endmsg]) := by
    decide +kernel
  obtain ⟨es, hspells, hgathers⟩ :=
    ((parse_eq_iff_spellsFile isReadable_en _).1 _).1 (parse_of_readAll hread)
  refine ⟨⟨es, _, hspells, hgathers, by decide +kernel⟩, ?_⟩
  exact ((parse_eq_iff_spellsFile isReadable_en _).2.2 _).1 (parse_eq_error_iff.2 hcut)

end LocaleCatalogue

end CatalogueSync
