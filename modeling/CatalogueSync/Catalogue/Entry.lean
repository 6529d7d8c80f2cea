import CatalogueSync.Catalogue.Basic

/-!
# Messages and their variants

A message is what the templates ask to have translated. A locale stores it together with its
variants, the texts in the locale's language that stand for it; the reference stores it without.
A blank variant counts as none.
-/

set_option autoImplicit false

namespace CatalogueSync

/-- A translatable message. Its singular text is its key. -/
structure Message where
  key : Text
  /-- The places it comes from, as `path#Lline`. -/
  sources : List Text
  plural : Option Text
  /-- The note to translators. -/
  comment : Option Text
  deriving DecidableEq

namespace Message

/-- The singular text. -/
def singular (m : Message) : Text :=
  m.key

instance : Keyed Message :=
  ⟨Message.key⟩

end Message

/-- A message as a locale stores it, with its variants in the order of the file. -/
structure LocaleEntry extends Message where
  variants : List Text
  deriving DecidableEq

namespace LocaleEntry

instance : Keyed LocaleEntry :=
  ⟨fun e => e.key⟩

/-- A message that is not translated yet. -/
def pending (m : Message) : LocaleEntry :=
  { m with variants := [] }

/-- A key and its variants, without anything else. -/
def bare (key : Text) (variants : List Text) : LocaleEntry :=
  { key, variants, sources := [], plural := none, comment := none }

/-- The variants that are not blank. -/
def filledVariants (e : LocaleEntry) : List Text :=
  e.variants.filter fun t => !Text.isBlank t

/-- Whether some variant is not blank. -/
def isTranslated (e : LocaleEntry) : Bool :=
  e.variants.any fun t => !Text.isBlank t

/-- The stored entry with the variants of another one appended. -/
def appendVariants (stored e : LocaleEntry) : LocaleEntry :=
  { stored with variants := stored.variants ++ e.variants }

theorem key_appendVariants (stored e : LocaleEntry) :
    Keyed.key (stored.appendVariants e) = Keyed.key stored := rfl

end LocaleEntry

/-- The messages that the templates contain. -/
abbrev ReferenceCatalogue := Catalogue Message

/-- The messages that a locale stores. -/
abbrev LocaleCatalogue := Catalogue LocaleEntry

end CatalogueSync
