import CatalogueSync.Catalogue.Entry
import CatalogueSync.Tag

/-!
# Writing catalogue files

An entry is written as a block of lines:

    {% msg index.html#L4 about.html#L9 %}
    {# note to translators #}
    first variant
    {% msg %}
    second variant
    {% en %}
    one cat
    {% plural %}
    many cats
    {% endmsg %}

The variants come first, then the tag of the source language introduces the singular and,
where there is one, the plural. Entries are separated by an empty line.
-/

set_option autoImplicit false

namespace CatalogueSync

/-- A text as a line of its own. -/
def line (s : Text) : Text :=
  s ++ ['\n']

/-- A tag without arguments on a line of its own. -/
def tagLine (name : Text) : Text :=
  line (Tag.write name [])

namespace LocaleEntry

/-- The line of the comment. An entry without one whose first variant starts with a comment gets
an empty comment, so that the variant's comment is not read as the entry's. -/
def printComment (e : LocaleEntry) : Text :=
  match e.comment with
  | some comment =>
    line (UnitKind.comment.opener ++ ' ' :: comment ++ ' ' :: UnitKind.comment.closer)
  | none =>
    match e.variants with
    | first :: _ =>
      if UnitKind.comment.opener.isPrefixOf (Text.trimStart first) then
        line (UnitKind.comment.opener ++ ' ' :: UnitKind.comment.closer)
      else []
    | [] => []

/-- The lines of the plural. -/
def printPlural (e : LocaleEntry) : Text :=
  match e.plural with
  | some plural => tagLine TagName.plural ++ line plural
  | none => []

/-- The block of an entry, for a source language named by its tag. -/
def print (sourceTag : Text) (e : LocaleEntry) : Text :=
  line (Tag.write TagName.msg e.sources) ++ e.printComment ++
    List.intercalate (tagLine TagName.msg) (e.variants.map line) ++
    tagLine sourceTag ++ line e.key ++ e.printPlural ++ tagLine TagName.endmsg

end LocaleEntry

namespace LocaleCatalogue

/-- The file of a catalogue. -/
def print (sourceTag : Text) (c : LocaleCatalogue) : Text :=
  List.intercalate ['\n'] (c.entries.map (LocaleEntry.print sourceTag))

end LocaleCatalogue

namespace ReferenceCatalogue

/-- The reference as a catalogue in which no message is translated yet. -/
def toLocale (reference : ReferenceCatalogue) : LocaleCatalogue :=
  Catalogue.ofList (reference.entries.map LocaleEntry.pending)

/-- The file of the reference. -/
def print (sourceTag : Text) (reference : ReferenceCatalogue) : Text :=
  LocaleCatalogue.print sourceTag reference.toLocale

end ReferenceCatalogue

end CatalogueSync
