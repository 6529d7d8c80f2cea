import CatalogueSync.Config.Basic
import CatalogueSync.Json.Printer
import CatalogueSync.Json.Reader

/-!
# Configuration files

A configuration is written as a JSON object. A field that is left out keeps its default, an
unknown field is passed over, and a known field may come only once. An array is read as the
values of the fields in their order; the fields after its last item keep their defaults.
-/

set_option autoImplicit false

namespace CatalogueSync.Config

/-- A field of a configuration. -/
inductive Field where
  | templatesRoot
  | messagesRoot
  | referenceFile
  | sourceLanguage
  | ignores
  | ignoredSuffixes
  | ignoredNames
  deriving DecidableEq

namespace Field

/-- The fields in their order. -/
def all : List Field :=
  [templatesRoot, messagesRoot, referenceFile, sourceLanguage, ignores, ignoredSuffixes,
    ignoredNames]

/-- The name of a field in a file. -/
def name : Field → Text
  | templatesRoot => "templatesRoot".toList
  | messagesRoot => "messagesRoot".toList
  | referenceFile => "referenceFile".toList
  | sourceLanguage => "sourceLanguage".toList
  | ignores => "ignores".toList
  | ignoredSuffixes => "ignoredSuffixes".toList
  | ignoredNames => "ignoredNames".toList

/-- The field with a name. -/
def ofName? (name : Text) : Option Field :=
  all.find? fun f => f.name = name

/-- A configuration with a field set to a value, if the value is of the field's kind. -/
def set? (c : Config) (value : Json) : Field → Option Config
  | templatesRoot => value.toText?.map fun v => { c with templatesRoot := v }
  | messagesRoot => value.toText?.map fun v => { c with messagesRoot := v }
  | referenceFile => value.toText?.map fun v => { c with referenceFile := v }
  | sourceLanguage => value.toText?.map fun v => { c with sourceLanguage := v }
  | ignores => value.toTexts?.map fun v => { c with ignores := v }
  | ignoredSuffixes => value.toTexts?.map fun v => { c with ignoredSuffixes := v }
  | ignoredNames => value.toTexts?.map fun v => { c with ignoredNames := v }

/-- The value of a field as a file holds it. -/
def value (c : Config) : Field → Json
  | templatesRoot => .string c.templatesRoot
  | messagesRoot => .string c.messagesRoot
  | referenceFile => .string c.referenceFile
  | sourceLanguage => .string c.sourceLanguage
  | ignores => .array (c.ignores.map fun v => .string (some v))
  | ignoredSuffixes => .array (c.ignoredSuffixes.map fun v => .string (some v))
  | ignoredNames => .array (c.ignoredNames.map fun v => .string (some v))

end Field

/-- Sets the fields of an object, where `seen` are the fields that came before. -/
def setNamed? (c : Config) (seen : List Field) : List (Option Text × Json) → Option Config
  | [] => some c
  | (none, _) :: _ => none
  | (some name, value) :: fields =>
    match Field.ofName? name with
    | none => setNamed? c seen fields
    | some f =>
      if f ∈ seen then none
      else (f.set? c value).bind fun c => setNamed? c (f :: seen) fields

/-- Sets fields in their order to the items of an array. -/
def setInOrder? (c : Config) : List Field → List Json → Option Config
  | _, [] => some c
  | [], _ :: _ => none
  | f :: fs, value :: values => (f.set? c value).bind fun c => setInOrder? c fs values

/-- The configuration that a JSON value stands for. -/
def ofJson? : Json → Option Config
  | .object fields => setNamed? default [] fields
  | .array values => setInOrder? default Field.all values
  | _ => none

/-- Reads a configuration. -/
def parse? (s : Text) : Option Config :=
  (Json.parse? s).bind ofJson?

/-- The JSON object of a configuration, with all its fields in their order. -/
def toJson (c : Config) : Json :=
  .object (Field.all.map fun f => (some f.name, f.value c))

/-- The text of a configuration file. -/
def print (c : Config) : Text :=
  Json.print c.toJson

end CatalogueSync.Config
