import CatalogueSync.Command.Arguments
import CatalogueSync.Command.Execution

/-!
# The overview of the commands

What is printed when no command is named.
-/

set_option autoImplicit false

namespace CatalogueSync.Invocation

/-- The lines that show the commands and what each is for. -/
def overviewLines : List String :=
  ["Extract and reconcile translation catalogues for Prosody templates",
    "",
    "Usage: prosody-l10n [COMMAND]",
    "",
    "Commands:",
    "  extract  Extract translatable messages from the templates into the reference catalogue",
    "  sync     Extract messages and reconcile every locale catalogue with them",
    "  merge    Reconcile one locale catalogue with the existing reference catalogue",
    "  stats    Show how many messages each locale has translated",
    "  init     Initialize a new .l10nrc.json configuration file",
    "  help     Print this message or the help of the given subcommand(s)",
    "",
    "Options:",
    "  -h, --help     Print help",
    "  -V, --version  Print version"]

/-- The overview as it is printed. -/
def overviewText : Text :=
  overviewLines.flatMap fun line => line.toList ++ ['\n']

/-- Carries out what a command line asks for. -/
def execute (colours : Bool) (i : Invocation) (w : Workspace) : Execution :=
  match i with
  | overview =>
    { workspace := w, output := overviewText, errors := [], status := 0, failure? := none }
  | command c verbose => c.execute colours verbose w

end CatalogueSync.Invocation
