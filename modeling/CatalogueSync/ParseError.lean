import CatalogueSync.Text.Shown
import CatalogueSync.Token.Basic

/-!
# Structural errors

The causes for which a template or a catalogue cannot be read, each with the line it points at,
and the wording of the message for each.
-/

set_option autoImplicit false

namespace CatalogueSync

/-- A cause for which a single text cannot be read. -/
inductive ParseError where
  /-- None of the tags that can end the block opened on a line comes before the end. -/
  | unterminatedBlock (line : Nat) (expected : List Text)
  /-- An inline translatable literal holds a template delimiter. -/
  | delimiterInLiteral (line : Nat) (literal : Text)
  /-- An inline translatable literal stands between the entries of a catalogue. -/
  | outputBetweenEntries (line : Nat)
  /-- A unit between the entries of a catalogue is never closed. -/
  | unclosedUnit (line : Nat) (kind : UnitKind)
  deriving DecidableEq

namespace ParseError

/-- A tag as a message names it. -/
def namedTag (name : Text) : String :=
  "\x7b% " ++ String.ofList name ++ " %\x7d"

/-- The wording of a cause. -/
def message : ParseError → String
  | unterminatedBlock line expected =>
    let tags := String.intercalate " or " (expected.map namedTag)
    s!"block opened on line {line} is never closed (expected {tags})"
  | delimiterInLiteral line literal =>
    s!"line {line}: translatable literal contains a template delimiter: " ++
      String.ofList literal.shown
  | outputBetweenEntries line =>
    s!"line {line}: unexpected inline translation outside of a catalogue entry"
  | unclosedUnit line kind =>
    s!"line {line}: `" ++ String.ofList kind.opener ++ "` is never closed"

end ParseError

/-- A cause together with the file it was found in. -/
structure FileError where
  file : Text
  cause : ParseError
  deriving DecidableEq

/-- The wording of a cause in a file. -/
def FileError.message (e : FileError) : String :=
  String.ofList e.file ++ ": " ++ e.cause.message

end CatalogueSync
