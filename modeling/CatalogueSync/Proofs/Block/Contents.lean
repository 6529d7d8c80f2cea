import CatalogueSync.Wording
import CatalogueSync.Proofs.Tag.Name
import CatalogueSync.Proofs.Token.Composition

/-!
# What blocks contain

`FitsBlock closing s` says that the text `s` can be the contents of a block that ends with one of
the tags `closing`: it is trimmed, leaves no unit open and holds none of these tags. Such a text is
read back from between its tags (`readBlock_of_fitsBlock`), and whatever is read from a block fits
(`FitsBlock.of_readBlock`).
-/

set_option autoImplicit false

namespace CatalogueSync

/-- A text that can stand alone in a block which one of the tags `closing` ends. -/
structure FitsBlock (closing : List Text) (s : Text) : Prop where
  trimmed : Text.trim s = s
  closed : ∀ t ∈ scan s, t.unclosed? = none
  lacks : ∀ t ∈ scan s, t.tag? closing = none

/-- None of the units is a tag with one of the names. -/
def LacksTags (names : List Text) (us : List (UnitKind × Text)) : Prop :=
  ∀ u ∈ us, ∀ n, Token.tag? names ⟨.unit u.1, u.2, n⟩ = none

section LacksTags

variable {names : List Text} {us : List (UnitKind × Text)} {s : Text}

theorem LacksTags.mono {names' : List Text} (hsub : names ⊆ names') (h : LacksTags names' us) :
    LacksTags names us := by
  intro u hu n
  exact Token.tag?_eq_none_mono hsub n (h u hu n)

/-- No token is one of the tags when none of the units among the tokens is. -/
theorem LacksTags.tag?_eq_none {ts : List Token} (h : LacksTags names (ts.filterMap Token.unit?)) :
    ∀ t ∈ ts, t.tag? names = none := by
  intro t ht
  obtain ⟨kind, raw, n⟩ := t
  cases kind with
  | text => simp [Token.tag?]
  | unit k => exact h (k, raw) (List.mem_filterMap.2 ⟨_, ht, rfl⟩) n

theorem lacksTags_of_tag? {ts : List Token} (h : ∀ t ∈ ts, t.tag? names = none) :
    LacksTags names (ts.filterMap Token.unit?) := by
  intro u hu n
  obtain ⟨⟨kind, raw, m⟩, ht, hunit⟩ := List.mem_filterMap.1 hu
  cases kind with
  | text => simp [Token.unit?] at hunit
  | unit k =>
    obtain rfl := Option.some.inj hunit
    exact Token.tag?_eq_none_mono (List.Subset.refl names) n (h _ ht)

end LacksTags

namespace FitsBlock

variable {closing : List Text} {s : Text}

/-- Fitting a block is a matter of the units that a text is made of. -/
theorem iff_composedOf :
    FitsBlock closing s ↔
      Text.trim s = s ∧ ∃ us, ComposedOf us s ∧ LacksTags closing us := by
  constructor
  · intro h
    exact ⟨h.trimmed, _, composedOf_of_scanFrom h.closed, lacksTags_of_tag? h.lacks⟩
  · rintro ⟨htrim, us, hs, hlacks⟩
    obtain ⟨hclosed, hunits⟩ := hs.scanFrom 1
    refine ⟨htrim, hclosed, LacksTags.tag?_eq_none ?_⟩
    unfold scan
    rwa [hunits]

theorem trim_of_composedOf {us : List (UnitKind × Text)} (hs : ComposedOf us s)
    (hlacks : LacksTags closing us) : FitsBlock closing (Text.trim s) :=
  iff_composedOf.2 ⟨Text.trim_trim s, us, ComposedOf.trim_iff.2 hs, hlacks⟩

theorem mono {closing' : List Text} (hsub : closing ⊆ closing') (h : FitsBlock closing' s) :
    FitsBlock closing s := by
  obtain ⟨htrim, us, hs, hlacks⟩ := iff_composedOf.1 h
  exact iff_composedOf.2 ⟨htrim, us, hs, hlacks.mono hsub⟩

/-- A text without further tags fits a block that those end as well. -/
theorem append {closing' : List Text} (h : FitsBlock closing s)
    (hlacks : ∀ t ∈ scan s, t.tag? closing' = none) : FitsBlock (closing ++ closing') s := by
  refine ⟨h.trimmed, h.closed, ?_⟩
  intro t ht
  have hclosing := Token.tag?_eq_none_iff.1 (h.lacks t ht)
  have hclosing' := Token.tag?_eq_none_iff.1 (hlacks t ht)
  apply Token.tag?_eq_none_iff.2
  intro hkind hne hmem
  rcases List.mem_append.1 hmem with hmem | hmem
  · exact hclosing hkind hne hmem
  · exact hclosing' hkind hne hmem

theorem nil : FitsBlock closing [] :=
  iff_composedOf.2 ⟨rfl, [], .nil, by intro u hu; simp at hu⟩

end FitsBlock

section readBlock

variable {closing : List Text}

/-- A block's text is everything before the first closing tag. -/
theorem splitBlock_append {ts : List Token} {t : Token} {close : Tag}
    (hts : ∀ t ∈ ts, t.tag? closing = none) (ht : t.tag? closing = some close)
    (rest : List Token) :
    splitBlock closing (ts ++ t :: rest) = some (ts.flatMap Token.raw, close, rest) := by
  induction ts with
  | nil => simp [splitBlock, ht]
  | cons u ts ih =>
    obtain ⟨hu, hts⟩ := List.forall_mem_cons.1 hts
    rw [List.cons_append, splitBlock, hu, ih hts]
    rfl

/-- Text alone ends no block. -/
theorem splitBlock_eq_none_of_text {ts : List Token} (h : ∀ t ∈ ts, t.kind = .text) :
    splitBlock closing ts = none := by
  induction ts with
  | nil => rfl
  | cons t ts ih =>
    obtain ⟨ht, hts⟩ := List.forall_mem_cons.1 h
    have hnone : t.tag? closing = none := by simp [Token.tag?, ht]
    rw [splitBlock, hnone, ih hts]
    rfl

/-- The contents of a block are read back from between whitespace before the closing tag, and
reading goes on behind that tag. -/
theorem readBlock_of_fitsBlock {s w w' name : Text} (hs : FitsBlock closing s)
    (hw : Text.isBlank w = true) (hw' : Text.isBlank w' = true) (hne : w' ≠ [])
    (hname : Tag.IsName name) (hmem : name ∈ closing) (openedAt n : Nat) (rest : Text) :
    ∃ line m, readBlock closing openedAt
        (scanFrom n (w ++ s ++ w' ++ (Tag.write name [] ++ rest))) =
      .ok (⟨s, ⟨name, [], line⟩⟩, scanFrom m rest) := by
  obtain ⟨htrim, us, hus, hlacks⟩ := FitsBlock.iff_composedOf.1 hs
  have hcomposed : ComposedOf us (w ++ s ++ w') := (ComposedOf.surround_iff hw hw').2 hus
  have hseam : (w ++ s ++ w').getLast? = some '{' →
      opened? ('{' :: (Tag.write name [] ++ rest)) = none := by
    intro hlast
    rw [List.getLast?_append_of_ne_nil _ hne] at hlast
    have hspace := Text.isBlank_iff.1 hw' '{' (List.mem_of_getLast? hlast)
    exact absurd rfl (Text.ne_openBrace_of_isSpace hspace)
  have hends : EndsRun (Tag.write name [] ++ rest) :=
    .inr (hname.isComplete.opened?_append_isSome rest)
  obtain ⟨-, hunits⟩ := hcomposed.scanFrom n
  have hnone : ∀ t ∈ scanFrom n (w ++ s ++ w'), t.tag? closing = none :=
    LacksTags.tag?_eq_none (by rwa [hunits])
  refine ⟨n + Text.newlines (w ++ s ++ w'),
    n + Text.newlines (w ++ s ++ w') + Text.newlines (Tag.write name []), ?_⟩
  rw [hcomposed.scanFrom_append hseam hends, scanFrom_append_of_isComplete hname.isComplete,
    readBlock, splitBlock_append hnone (hname.tag?_write hmem _), flatMap_raw_scanFrom]
  simp only [Text.trim_surround hw hw', htrim]

/-- What comes before the closing tag of a block is made of complete units, none of them one of
the closing tags, and what is left is scanned as it stands. -/
theorem of_splitBlock_scanFrom {n : Nat} {s raw : Text} {close : Tag} {ts : List Token}
    (h : splitBlock closing (scanFrom n s) = some (raw, close, ts)) :
    ∃ us tagRaw rest m, s = raw ++ (tagRaw ++ rest) ∧ ComposedOf us raw ∧
      LacksTags closing us ∧ close.name ∈ closing ∧ ts = scanFrom m rest := by
  induction n, s using scan_induction generalizing raw with
  | nil n => simp [splitBlock] at h
  | unit n k unitRaw rest hraw ih =>
    rw [scanFrom_append_of_isComplete hraw, splitBlock] at h
    split at h
    · rename_i g hg
      simp only [Option.some.injEq, Prod.mk.injEq] at h
      obtain ⟨rfl, rfl, rfl⟩ := h
      obtain ⟨-, -, -, hmem, -⟩ := Token.of_tag?_eq_some hg
      exact ⟨[], unitRaw, rest, _, rfl, .nil, by intro u hu; simp at hu, hmem, rfl⟩
    · rename_i hnone
      obtain ⟨r, hr, he⟩ := Option.map_eq_some_iff.1 h
      simp only [Prod.mk.injEq] at he
      obtain ⟨rfl, he⟩ := he
      obtain ⟨us, tagRaw, rest', m, hsplit, hus, hlacks, hmem, hts⟩ :=
        @ih r.1 (by rw [hr, ← he])
      refine ⟨(k, unitRaw) :: us, tagRaw, rest', m, ?_, .unit hraw hus, ?_, hmem, hts⟩
      · rw [hsplit, List.append_assoc]
      · refine List.forall_mem_cons.2 ⟨?_, hlacks⟩
        intro line
        exact Token.tag?_eq_none_mono (List.Subset.refl closing) line hnone
  | run n c run rest hrun hrest ih =>
    have hnone : Token.tag? closing ⟨.text, c :: run, n⟩ = none := by simp [Token.tag?]
    rw [scanFrom_append_of_plainBefore hrun hrest, splitBlock, hnone] at h
    obtain ⟨r, hr, he⟩ := Option.map_eq_some_iff.1 h
    simp only [Prod.mk.injEq] at he
    obtain ⟨rfl, he⟩ := he
    obtain ⟨us, tagRaw, rest', m, hsplit, hus, hlacks, hmem, hts⟩ :=
      @ih r.1 (by rw [hr, ← he])
    refine ⟨us, tagRaw, rest', m, ?_, hus.of_plainBefore ?_, hlacks, hmem, hts⟩
    · rw [hsplit, List.append_assoc]
    · rw [hsplit] at hrun
      exact hrun.of_append
  | unclosed n k inside hu =>
    rw [scanFrom_of_unclosed hu] at h
    simp [splitBlock, Token.tag?] at h

/-- What is read from a block fits the block. -/
theorem FitsBlock.of_readBlock {openedAt n : Nat} {s : Text} {b : Block} {ts : List Token}
    (h : readBlock closing openedAt (scanFrom n s) = .ok (b, ts)) :
    FitsBlock closing b.text ∧ b.close.name ∈ closing ∧ ∃ m rest, ts = scanFrom m rest := by
  unfold readBlock at h
  split at h
  · rename_i raw close rest hsplit
    simp only [Except.ok.injEq, Prod.mk.injEq] at h
    obtain ⟨rfl, rfl⟩ := h
    obtain ⟨us, -, rest', m, -, hus, hlacks, hmem, hts⟩ := of_splitBlock_scanFrom hsplit
    exact ⟨trim_of_composedOf hus hlacks, hmem, m, rest', hts⟩
  · simp at h

end readBlock

/-- What a reader gives when it changes what another one reads. -/
theorem of_map_eq_ok {ε α β : Type} {x : Except ε α} {f : α → β} {b : β}
    (h : x.map f = .ok b) : ∃ a, x = .ok a ∧ f a = b := by
  cases x with
  | error e => cases h
  | ok a => exact ⟨a, rfl, Except.ok.inj h⟩

theorem map_eq_error_iff {ε α β : Type} {x : Except ε α} {f : α → β} {e : ε} :
    x.map f = .error e ↔ x = .error e := by
  cases x <;> simp [Except.map]

/-- The texts of a translatable block fit their places in it. -/
theorem of_readWording_scanFrom {close : Text} {openedAt n : Nat} {s : Text} {w : Wording}
    {ts : List Token} (h : readWording close openedAt (scanFrom n s) = .ok (w, ts)) :
    FitsBlock [TagName.plural, close] w.singular ∧ (∀ p ∈ w.plural, FitsBlock [close] p) ∧
      ∃ m rest, ts = scanFrom m rest := by
  unfold readWording at h
  split at h
  · cases h
  · rename_i singular rest hsingular
    obtain ⟨hfits, -, m, r, rfl⟩ := FitsBlock.of_readBlock hsingular
    split at h
    · split at h
      · cases h
      · rename_i plural rest' hplural
        obtain ⟨hfits', -, hscan⟩ := FitsBlock.of_readBlock hplural
        obtain ⟨rfl, rfl⟩ := Prod.mk.inj (Except.ok.inj h)
        refine ⟨hfits, ?_, hscan⟩
        intro p hp
        obtain rfl := Option.some.inj hp
        exact hfits'
    · obtain ⟨rfl, rfl⟩ := Prod.mk.inj (Except.ok.inj h)
      exact ⟨hfits, by simp, m, r, rfl⟩

end CatalogueSync
