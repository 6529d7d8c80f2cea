import CatalogueSync.Text.Basic

/-!
# JSON values

The values that a JSON text spells. A JSON string can hold escapes that are no Unicode text, half
a surrogate pair; such a string is well formed, but it has no text.
-/

set_option autoImplicit false

namespace CatalogueSync

/-- A JSON value. -/
inductive Json where
  | null
  | bool (b : Bool)
  /-- A number, as it is spelled. -/
  | number (spelling : Text)
  /-- A string and its text, if it has one. -/
  | string (text? : Option Text)
  | array (items : List Json)
  /-- The fields in the order of the text. A name has a text under the same condition. -/
  | object (fields : List (Option Text × Json))

namespace Json

/-- The text of a string. -/
def toText? : Json → Option Text
  | string text? => text?
  | _ => none

/-- The texts of an array of strings. -/
def toTexts? : Json → Option (List Text)
  | array items => items.mapM toText?
  | _ => none

end Json

end CatalogueSync
