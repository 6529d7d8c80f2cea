import CatalogueSync.Glob.Parser
import CatalogueSync.Locale

/-!
# Configurations

A configuration says where the templates and the catalogues are, which name the reference file
has, which tag closes the variants of an entry and which files are no templates. Not every
configuration can be used: its patterns must be well formed, the source language must be the name
of a tag that has no other meaning, and the reference file must not look like an unused catalogue.
-/

set_option autoImplicit false

namespace CatalogueSync

/-- The settings of a project. -/
structure Config where
  /-- The directory of the templates, seen from the root of the project. -/
  templatesRoot : Text := "data/pages".toList
  /-- The directory of the catalogues, seen from the root of the project. -/
  messagesRoot : Text := "data/page-l10n".toList
  /-- The file of the reference catalogue, seen from the directory of the catalogues. -/
  referenceFile : Text := "reference.messages".toList
  /-- The language of the templates, which is also the tag that its texts follow. -/
  sourceLanguage : Text := "en".toList
  /-- Patterns of the files that are no templates. -/
  ignores : List Text := []
  /-- Endings of the names of files that are no templates. -/
  ignoredSuffixes : List Text :=
    [".mime".toList, ".link".toList, ".icon".toList, "~".toList, ".gresource.xml".toList]
  /-- Names of files that are no templates. -/
  ignoredNames : List Text := ["README".toList, "README.md".toList]
  deriving DecidableEq

/-- Why a configuration cannot be used. -/
inductive ConfigError where
  | malformedPattern (pattern : Text) (cause : Glob.Error)
  | notATagName (name : Text)
  | reservedTag (name : Text)
  | emptyReferenceFile
  | unusedReferenceFile (name : Text)
  deriving DecidableEq

/-- The wording of a cause. -/
def ConfigError.message : ConfigError → String
  | malformedPattern pattern cause =>
    "Invalid glob pattern in 'ignores': \"" ++ String.ofList pattern ++ "\": " ++ cause.message
  | notATagName name =>
    "Invalid 'sourceLanguage': \"" ++ String.ofList name ++ "\" must be a single tag name"
  | reservedTag name =>
    "Invalid 'sourceLanguage': \"" ++ String.ofList name ++ "\" is a reserved catalogue tag"
  | emptyReferenceFile => "Invalid 'referenceFile': must not be empty"
  | unusedReferenceFile name =>
    "Invalid 'referenceFile': \"" ++ String.ofList name ++
      "\" would be read as an unused sidecar"

namespace Config

/-- The settings that hold where nothing else is said. -/
def default : Config := {}

/-- The name of the file that holds a configuration. -/
def fileName : Text :=
  ".l10nrc.json".toList

/-- Whether a text can stand for the name of a tag. -/
def isTagName (s : Text) : Bool :=
  !s.isEmpty && s.all fun c => !Text.isSpace c && c != '\x7b' && c != '\x7d' && c != '%' && c != '#'

/-- The first pattern that is not well formed, and why. -/
def malformedPattern? : List Text → Option (Text × Glob.Error)
  | [] => none
  | p :: ps =>
    match Glob.parse p with
    | .error e => some (p, e)
    | .ok _ => malformedPattern? ps

/-- The first reason why a configuration cannot be used. -/
def error? (c : Config) : Option ConfigError :=
  match malformedPattern? c.ignores with
  | some (pattern, cause) => some (.malformedPattern pattern cause)
  | none =>
    if !isTagName c.sourceLanguage then some (.notATagName c.sourceLanguage)
    else if TagName.reserved.contains c.sourceLanguage then some (.reservedTag c.sourceLanguage)
    else if Text.isBlank c.referenceFile then some .emptyReferenceFile
    else if Locale.unusedSuffix.isSuffixOf c.referenceFile then
      some (.unusedReferenceFile c.referenceFile)
    else none

end Config

end CatalogueSync
