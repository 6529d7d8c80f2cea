import CatalogueSync.Proofs.Tag.Spelling
import CatalogueSync.Proofs.Token.Scan

/-!
# Names of tags

`IsName` collects what a name needs in order to be recognised again when its tag is written into
a catalogue. The fixed names of the language have it, and so has every readable source tag, which
is described by what scanning and classifying make of its tag alone.

The tag that opens an entry of a catalogue has arguments as well, and they are recognised again
whatever they are (`Tag.scan_msg_arguments`).
-/

set_option autoImplicit false

namespace CatalogueSync

namespace Tag

/-- A name whose tag is one complete unit and whose characters make one word. -/
structure IsName (name : Text) : Prop where
  isComplete : UnitKind.tag.IsComplete (write name [])
  ne_nil : name ≠ []
  chars : ∀ c ∈ name, Text.isSpace c = false

theorem IsWord.isName {name : Text} (h : IsWord name) : IsName name where
  isComplete := isComplete_write h []
  ne_nil := h.ne_nil
  chars := fun c hc => (h.chars c hc).1

theorem IsName.tag?_write {name : Text} (h : IsName name) {names : List Text}
    (hmem : name ∈ names) (n : Nat) :
    Token.tag? names ⟨.unit .tag, write name [], n⟩ = some ⟨name, [], n⟩ := by
  rw [Tag.tag?_write h.ne_nil h.chars, if_pos hmem]

theorem isWord_msg : IsWord TagName.msg := ⟨by decide, Text.forall_mem_of_all (by decide)⟩

theorem isWord_plural : IsWord TagName.plural := ⟨by decide, Text.forall_mem_of_all (by decide)⟩

theorem isWord_endmsg : IsWord TagName.endmsg := ⟨by decide, Text.forall_mem_of_all (by decide)⟩

section arguments

theorem writeArguments_cons_eq_intercalate (a : Text) (as : List Text) :
    writeArguments (a :: as) = ' ' :: [' '].intercalate ((a :: as).map writeArgument) := by
  induction as generalizing a with
  | nil => simp [writeArguments]
  | cons b as ih =>
    have hcons : writeArguments (a :: b :: as) =
        ' ' :: writeArgument a ++ writeArguments (b :: as) := rfl
    rw [hcons, ih, List.map_cons, List.map_cons, List.map_cons, List.intercalate_cons_cons]
    simp

/-- The tag of an entry with some arguments, each in its spelling and with a single space between
any two of them. -/
def spellMsg (as : List Text) : Text :=
  UnitKind.tag.opener ++ ' ' :: TagName.msg ++ ' ' :: [' '].intercalate (as.map writeArgument) ++
    ' ' :: UnitKind.tag.closer

theorem spellMsg_cons (a : Text) (as : List Text) :
    spellMsg (a :: as) = write TagName.msg (a :: as) := by
  rw [write_eq, writeArguments_cons_eq_intercalate, spellMsg]
  simp only [List.append_assoc, List.cons_append, List.nil_append]

/-- The tag of an entry is one token, whatever its arguments are, and reading that token gives
exactly these arguments. -/
theorem scan_msg_arguments (as names : List Text) :
    scan (spellMsg as) = [⟨.unit .tag, spellMsg as, 1⟩] ∧
      Token.tag? names ⟨.unit .tag, spellMsg as, 1⟩ =
        if TagName.msg ∈ names then some ⟨TagName.msg, as, 1⟩ else none := by
  have hchars : ∀ c ∈ TagName.msg, Text.isSpace c = false := fun c hc => (isWord_msg.chars c hc).1
  cases as with
  | nil =>
    -- without arguments there are two spaces behind the name, where the printer writes one
    have hbody : Token.body ⟨.unit .tag, spellMsg [], 1⟩ = TagName.msg ++ [] := by
      decide +kernel
    have hsplit : splitWord (TagName.msg ++ []) = (TagName.msg, []) :=
      splitWord_append hchars (by simp)
    have hnone : readArguments [] = [] := readArguments_of_trimStart_eq_nil rfl
    refine ⟨by decide +kernel, ?_⟩
    simp only [Token.tag?, if_true, hbody, hsplit, hnone]
    simp [isWord_msg.ne_nil]
  | cons a as =>
    have hscan := scanFrom_append_of_isComplete (isComplete_write isWord_msg (a :: as)) 1 []
    rw [List.append_nil, scanFrom_nil] at hscan
    rw [spellMsg_cons]
    exact ⟨hscan, tag?_write isWord_msg.ne_nil hchars (a :: as) names 1⟩

example : spellMsg ["a b".toList, [], "c%\x7d".toList, "d".toList] =
    "\x7b% msg \"a b\" \"\" \"c%\x7d\" d %\x7d".toList := by
  decide +kernel

end arguments

end Tag

namespace Token

/-- What a token is classified as: a tag on the token's line, with one of the accepted names. -/
theorem of_tag?_eq_some {names : List Text} {t : Token} {g : Tag} (h : t.tag? names = some g) :
    t.kind = .unit .tag ∧ g.name = (Tag.splitWord t.body).1 ∧ g.name ≠ [] ∧ g.name ∈ names ∧
      g.line = t.line := by
  unfold tag? at h
  split at h
  · rename_i hkind
    simp only at h
    split at h
    · rename_i hname
      simp only [Bool.and_eq_true, Bool.not_eq_true', List.contains_eq_mem,
        decide_eq_true_eq] at hname
      obtain rfl := Option.some.inj h
      exact ⟨hkind, rfl, List.isEmpty_eq_false_iff.1 hname.1, hname.2, rfl⟩
    · simp at h
  · simp at h

theorem tag?_eq_none_iff {names : List Text} {t : Token} :
    t.tag? names = none ↔
      (t.kind = .unit .tag → (Tag.splitWord t.body).1 ≠ [] →
        (Tag.splitWord t.body).1 ∉ names) := by
  unfold tag?
  split
  · rename_i hkind
    simp [hkind]
  · rename_i hkind
    simp [hkind]

/-- A token that is none of some tags is none of fewer tags, and its line has no part in it. -/
theorem tag?_eq_none_mono {names names' : List Text} (hsub : names ⊆ names') {kind : TokenKind}
    {raw : Text} {n : Nat} (m : Nat) (h : tag? names' ⟨kind, raw, n⟩ = none) :
    tag? names ⟨kind, raw, m⟩ = none := by
  rw [tag?_eq_none_iff] at h ⊢
  intro hkind hne hmem
  exact h hkind hne (hsub hmem)

end Token

/-- A tag for the source language that catalogues can be written with: `{% tag %}` is scanned as
one token, which is classified under exactly this name, and the name is not reserved. -/
structure IsReadable (tag : Text) : Prop where
  classified : ∃ t g, scan (Tag.write tag []) = [t] ∧ t.tag? [tag] = some g ∧ g.name = tag
  unreserved : tag ∉ TagName.reserved

namespace IsReadable

variable {tag : Text}

theorem isName (h : IsReadable tag) : Tag.IsName tag := by
  obtain ⟨t, g, hscan, hg, hname⟩ := h.classified
  obtain ⟨hkind, hword, hne, -, -⟩ := Token.of_tag?_eq_some hg
  rw [hname] at hne hword
  refine ⟨?_, hne, ?_⟩
  · have hraw := flatMap_raw_scanFrom 1 (Tag.write tag [])
    have hne' : Tag.write tag [] ≠ [] := by simp [Tag.write, UnitKind.opener]
    unfold scan at hscan
    rw [hscan] at hraw
    rw [scanFrom_of_ne_nil hne'] at hscan
    obtain ⟨ht, -⟩ := List.cons.inj hscan
    have hcomplete : UnitKind.tag.IsComplete (nextLexeme (Tag.write tag [])).raw :=
      isComplete_of_nextLexeme (by rw [← hkind, ← ht])
    have hwhole : (nextLexeme (Tag.write tag [])).raw = Tag.write tag [] := by
      rw [← ht] at hraw
      simpa using hraw
    rwa [hwhole] at hcomplete
  · intro c hc
    rw [hword] at hc
    have hnot := List.mem_takeWhile_imp hc
    simpa using hnot

theorem ne_msg (h : IsReadable tag) : tag ≠ TagName.msg := by
  rintro rfl
  exact h.unreserved (by decide)

end IsReadable

theorem isReadable_en : IsReadable "en".toList where
  classified := ⟨⟨.unit .tag, Tag.write "en".toList [], 1⟩, ⟨"en".toList, [], 1⟩,
    by decide +kernel, by decide +kernel, rfl⟩
  unreserved := by decide

end CatalogueSync
