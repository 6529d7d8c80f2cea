import CatalogueSync.Json.Token

/-!
# Reading JSON

The pieces of a text are put together by a machine with a stack, which holds the containers that
are still open. The machine takes one piece after the other and has no other recursion, so that
values may be nested to any depth. A comma must be followed by another item or field.
-/

set_option autoImplicit false

namespace CatalogueSync.Json

/-- A container that is still open, with what it holds so far, last first. -/
inductive Frame where
  | array (items : List Json)
  /-- An object and the name of the field whose value is being read. -/
  | object (fields : List (Option Text × Json)) (name : Option Text)

/-- Where the machine stands. The frames are the open containers, innermost first. -/
inductive State where
  /-- A value must come. -/
  | value (frames : List Frame)
  /-- An array has just been opened: a value or its end must come. -/
  | firstItem (frames : List Frame)
  /-- An object has just been opened: a name or its end must come. -/
  | firstField (frames : List Frame)
  /-- The name of a further field must come. -/
  | furtherField (fields : List (Option Text × Json)) (frames : List Frame)
  /-- The colon after a name must come. -/
  | colon (fields : List (Option Text × Json)) (name : Option Text) (frames : List Frame)
  /-- A value has been read: what goes on with its container must come. -/
  | afterValue (v : Json) (frames : List Frame)

namespace State

/-- Takes the first piece of a value. -/
def start (frames : List Frame) : Token → Option State
  | .openArray => some (.firstItem frames)
  | .openObject => some (.firstField frames)
  | .string text? => some (.afterValue (.string text?) frames)
  | .scalar v => some (.afterValue v frames)
  | _ => none

/-- Takes the piece after a value. -/
def goOn (v : Json) : List Frame → Token → Option State
  | .array items :: frames, .comma => some (.value (.array (v :: items) :: frames))
  | .array items :: frames, .closeArray =>
    some (.afterValue (.array (v :: items).reverse) frames)
  | .object fields name :: frames, .comma => some (.furtherField ((name, v) :: fields) frames)
  | .object fields name :: frames, .closeObject =>
    some (.afterValue (.object ((name, v) :: fields).reverse) frames)
  | _, _ => none

/-- Takes a piece. -/
def step : State → Token → Option State
  | value frames, t => start frames t
  | firstItem frames, .closeArray => some (.afterValue (.array []) frames)
  | firstItem frames, t => start (.array [] :: frames) t
  | firstField frames, .closeObject => some (.afterValue (.object []) frames)
  | firstField frames, .string name => some (.colon [] name frames)
  | furtherField fields frames, .string name => some (.colon fields name frames)
  | colon fields name frames, .colon => some (.value (.object fields name :: frames))
  | afterValue v frames, t => goOn v frames t
  | _, _ => none

/-- Takes pieces one after the other. -/
def run (s : State) : List Token → Option State
  | [] => some s
  | t :: ts => (s.step t).bind fun s => run s ts

end State

/-- The value that some pieces make. -/
def ofTokens? (ts : List Token) : Option Json :=
  match State.run (.value []) ts with
  | some (.afterValue v []) => some v
  | _ => none

/-- The value that a text spells. -/
def parse? (s : Text) : Option Json :=
  (tokens? s).bind ofTokens?

end CatalogueSync.Json
