import CatalogueSync.Command.Basic

/-!
# Executions

How a command is carried out for a user: what is printed to the standard output and to the
standard error stream, and the exit status. The status is 0 for success, 1 when a check has found
a file that is out of date, and 2 for a failure.
-/

set_option autoImplicit false

namespace CatalogueSync

/-- A command carried out. -/
structure Execution where
  workspace : Workspace
  output : Text
  errors : Text
  status : Nat
  failure? : Option Failure

/-- The exit status of an outcome. -/
def Outcome.status (o : Outcome) : Nat :=
  if o.isOutOfDate then 1 else 0

/-- The exit status of a failure. -/
def Failure.status : Nat :=
  2

namespace Command

/-- What notices print. -/
def printedNotices (colours verbose : Bool) (ns : List Notice) : Text :=
  if verbose then Notice.render colours ns else []

/-- Carries out a command. -/
def execute (colours verbose : Bool) (c : Command) (w : Workspace) : Execution :=
  match c.run w with
  | (workspace, ⟨notices, .error failure⟩) =>
    { workspace, output := [], errors := printedNotices colours verbose notices,
      status := Failure.status, failure? := some failure }
  | (workspace, ⟨notices, .ok result⟩) =>
    { workspace,
      output := (Report.ofRun verbose result.issues result.outcome).render colours,
      errors := printedNotices colours verbose notices ++
        Notice.renderWarning colours verbose result.outcome.unreachable,
      status := result.outcome.status, failure? := none }

end Command

end CatalogueSync
