import CatalogueSync.Config.Basic
import CatalogueSync.TemplateSearch
import CatalogueSync.Workspace.Writing

/-!
# Failures

The causes for which a run stops, and the wording for each.
-/

set_option autoImplicit false

namespace CatalogueSync

/-- Why a run stops. -/
inductive Failure where
  | rootNotADirectory (root : Path)
  /-- A configuration file cannot be read or written. -/
  | configFile (cause : IoError)
  | malformedConfig (file : Path)
  | unusableConfig (cause : ConfigError)
  | configExists
  | templatesNotFound (directory : Path)
  | unreadableTemplate (cause : UnreadableTemplate)
  /-- A template or a catalogue is not well formed. -/
  | malformed (cause : FileError)
  | unreadableCatalogue (file : Path) (cause : IoError)
  | invalidLocale (name : Text)
  /-- There is no reference catalogue in a file, as users know it. -/
  | referenceNotFound (file : Text)
  | unwritable (cause : WriteError)
  deriving DecidableEq

/-- The wording of a failure. -/
def Failure.message : Failure → String
  | rootNotADirectory root =>
    "Repository root is not a directory: " ++ String.ofList root.toText
  | configFile cause => cause.message
  | malformedConfig file =>
    "Failed to parse config file: " ++ String.ofList file.toText.shown
  | unusableConfig cause => cause.message
  | configExists => String.ofList Config.fileName ++ " already exists"
  | templatesNotFound directory =>
    "Templates directory not found: " ++ String.ofList directory.toText
  | unreadableTemplate ⟨path, cause⟩ =>
    "Failed to read template: " ++ String.ofList path.toText ++ ": " ++ cause.message
  | malformed cause => cause.message
  | unreadableCatalogue file cause =>
    "Failed to read catalogue: " ++ String.ofList file.toText ++ ": " ++ cause.message
  | invalidLocale name => "Invalid locale name: \"" ++ String.ofList name ++ "\""
  | referenceNotFound file =>
    "Reference catalogue not found: " ++ String.ofList file ++ " (run `extract` first)"
  | unwritable cause => cause.message

end CatalogueSync
