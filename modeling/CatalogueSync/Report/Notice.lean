import CatalogueSync.FileTree
import CatalogueSync.Glob.Parser
import CatalogueSync.Path
import CatalogueSync.Report.Style

/-!
# Notices

What a run tells about its progress, for users who ask for it.
-/

set_option autoImplicit false

namespace CatalogueSync

/-- A step of a run that users may want to know of. -/
inductive Notice where
  /-- No configuration file was found. -/
  | defaultConfig
  /-- A pattern is not well formed and matches nothing. -/
  | malformedPattern (pattern : Text) (cause : Glob.Error)
  /-- The templates cannot be searched. -/
  | unreachable (path : Path) (cause : IoError)
  /-- A file is marked as not being a template. -/
  | notATemplate (relative : Text)
  /-- A template is about to be read. -/
  | reading (relative : Text)
  /-- A file has been written. -/
  | written (file : Text)
  /-- A file would have been written. -/
  | outOfDate (file : Text)
  deriving DecidableEq

namespace Notice

/-- The word in front of a warning. -/
def warning : Span :=
  .styled (.strongIn .yellow) "warning:"

/-- The line that tells about a step. -/
def spans : Notice → List Span
  | defaultConfig => [.plain "Note: No .l10nrc.json found, using default configuration"]
  | malformedPattern pattern cause =>
    [warning, .plain " Invalid ignore pattern '", .quoted pattern, .plain "': ",
      .plain cause.message]
  | unreachable path cause =>
    [warning, .plain " Cannot access path: IO error for operation on ", .quoted path.toText,
      .plain ": ", .plain cause.message]
  | notATemplate relative => [.plain "Skipping non-template: ", .quoted relative]
  | reading relative => [.plain "Parsing template ", .quoted relative]
  | written file => [.plain "Writing ", .quoted file]
  | outOfDate file => [.plain "Out of date: ", .quoted file]

/-- Notices as they are printed. -/
def render (colours : Bool) (ns : List Notice) : Text :=
  ns.flatMap fun n => Span.renderLine colours n.spans

/-- The warning about paths that could not be reached, for users who have not been told of each. -/
def unreachableWarning (count : Nat) : List Span :=
  [warning, .plain " ", .number count,
    .plain " template path(s) could not be read (use ", .styled (.inColour .cyan) "-v",
    .plain " for details)"]

/-- The warning as it is printed, if there is anything to warn of. -/
def renderWarning (colours verbose : Bool) (count : Nat) : Text :=
  if count = 0 || verbose then [] else Span.renderLine colours (unreachableWarning count)

end Notice

end CatalogueSync
