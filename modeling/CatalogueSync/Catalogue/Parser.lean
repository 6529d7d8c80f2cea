import CatalogueSync.Catalogue.Entry
import CatalogueSync.Wording

/-!
# Reading catalogue files

A catalogue file is read as a list of entries, which are then collected: a key that comes twice
keeps its first place and gathers the variants of both entries. Text, tags and comments
between entries are passed over; an inline translatable literal or a unit that is never closed
is an error there.
-/

set_option autoImplicit false

namespace CatalogueSync

namespace LocaleEntry

/-- Reads variants up to the tag of the source language, for an entry opened on line
`openedAt`. Empty variants are dropped. -/
def readVariants (sourceTag : Text) (openedAt : Nat) (ts : List Token) :
    Except ParseError (List Text × List Token) :=
  match _h : readBlock [TagName.msg, sourceTag] openedAt ts with
  | .error e => .error e
  | .ok (b, rest) =>
    let found := if b.text.isEmpty then [] else [b.text]
    if b.close.name = sourceTag then .ok (found, rest)
    else
      match readVariants sourceTag openedAt rest with
      | .error e => .error e
      | .ok (more, rest) => .ok (found ++ more, rest)
termination_by ts.length
decreasing_by exact readBlock_length_lt _h

/-- Reads the entry whose first tag is `opening`, from the tokens after that tag. -/
def read (sourceTag : Text) (opening : Tag) (ts : List Token) :
    Except ParseError (LocaleEntry × List Token) :=
  let lead := takeComment ts
  match readVariants sourceTag opening.line lead.2 with
  | .error e => .error e
  | .ok (variants, rest) =>
    match readWording TagName.endmsg opening.line rest with
    | .error e => .error e
    | .ok (w, rest) =>
      .ok ({ key := w.singular, sources := opening.arguments, plural := w.plural,
             comment := lead.1, variants }, rest)

theorem readVariants_length_lt {sourceTag : Text} {openedAt : Nat} {ts rest : List Token}
    {variants : List Text}
    (h : readVariants sourceTag openedAt ts = .ok (variants, rest)) :
    rest.length < ts.length := by
  fun_induction readVariants sourceTag openedAt ts generalizing variants rest with
  | case1 => simp at h
  | case2 ts b next hb _ =>
    simp only [Except.ok.injEq, Prod.mk.injEq] at h
    rw [← h.2]
    exact readBlock_length_lt hb
  | case3 => simp at h
  | case4 ts b next hb _ _ more next' hm =>
    rename_i ih
    simp only [Except.ok.injEq, Prod.mk.injEq] at h
    have h₁ := readBlock_length_lt hb
    have h₂ := ih hm
    rw [← h.2]
    omega

theorem read_length_lt {sourceTag : Text} {opening : Tag} {ts rest : List Token}
    {e : LocaleEntry} (h : read sourceTag opening ts = .ok (e, rest)) :
    rest.length < ts.length := by
  have hc := takeComment_length_le ts
  unfold read at h
  simp only at h
  split at h
  · simp at h
  · rename_i ht
    have h₁ := readVariants_length_lt ht
    split at h
    · simp at h
    · rename_i hw
      have h₂ := readWording_length_lt hw
      simp only [Except.ok.injEq, Prod.mk.injEq] at h
      rw [← h.2]
      omega

/-- Reads all entries of a catalogue file. -/
def readAll (sourceTag : Text) (ts : List Token) : Except ParseError (List LocaleEntry) :=
  match ts with
  | [] => .ok []
  | t :: ts =>
    match t.tag? [TagName.msg] with
    | some opening =>
      match _h : read sourceTag opening ts with
      | .error e => .error e
      | .ok (e, rest) => (readAll sourceTag rest).map (e :: ·)
    | none =>
      if t.inlineLiteral?.isSome then .error (.outputBetweenEntries t.line)
      else
        match t.unclosed? with
        | some kind => .error (.unclosedUnit t.line kind)
        | none => readAll sourceTag ts
termination_by ts.length
decreasing_by
  · have := read_length_lt _h
    simp
    omega
  · simp

end LocaleEntry

namespace LocaleCatalogue

/-- Reads a catalogue file. -/
def parse (sourceTag : Text) (s : Text) : Except ParseError LocaleCatalogue :=
  (LocaleEntry.readAll sourceTag (scan s)).map (Catalogue.collect LocaleEntry.appendVariants)

end LocaleCatalogue

end CatalogueSync
