import CatalogueSync.Extraction
import CatalogueSync.Locale

/-!
# Issues

What a run reports about single messages. A collision loses a plural or a comment and is a
warning; the other issues only tell where a key's variants are and are notes.
-/

set_option autoImplicit false

namespace CatalogueSync

/-- How much an issue matters. -/
inductive Severity where
  | warning
  | note
  deriving DecidableEq

/-- The word for a severity. -/
def Severity.word : Severity → String
  | warning => "warning"
  | note => "note"

/-- Something to report about a message. -/
inductive Issue where
  /-- A key came again with a different plural or comment. -/
  | duplicateKey (collision : Collision)
  /-- The variants of a key that no template asks for moved to the unused catalogue. -/
  | demoted (locale key : Text)
  /-- The variants of a key came back from the unused catalogue. -/
  | revived (locale key : Text)
  /-- A message is not translated yet. -/
  | pending (locale key : Text)
  deriving DecidableEq

namespace Issue

/-- How much an issue matters. -/
def severity : Issue → Severity
  | duplicateKey _ => .warning
  | _ => .note

/-- The name of the rule that an issue falls under. -/
def rule : Issue → String
  | duplicateKey _ => "duplicate-key"
  | demoted _ _ => "demoted"
  | revived _ _ => "revived"
  | pending _ _ => "pending"

/-- The key of the message. -/
def key : Issue → Text
  | duplicateKey c => c.key
  | demoted _ k => k
  | revived _ k => k
  | pending _ k => k

/-- The description in one line. -/
def message : Issue → String
  | duplicateKey _ => "key extracted twice with a different plural or comment"
  | demoted locale _ => "moved to " ++ String.ofList (Locale.unusedName locale)
  | revived locale _ => "restored from " ++ String.ofList (Locale.unusedName locale)
  | pending locale _ => "awaiting translation in " ++ String.ofList locale

/-- The place in a template. -/
def location? : Issue → Option Text
  | duplicateKey c => some c.droppedSource
  | _ => none

/-- What was done about it. -/
def details? : Issue → Option String
  | duplicateKey c =>
    some ("keeping the plural and comment from " ++ String.ofList c.keptSource)
  | _ => none

/-- The issues of a reconciled locale: revived keys, then pending ones, then demoted ones. -/
def ofReconciliation (locale : Text) (r : Reconciliation) : List Issue :=
  r.revived.map (revived locale) ++ r.pending.map (pending locale) ++
    r.demoted.map (demoted locale)

end Issue

end CatalogueSync
