import CatalogueSync.Text.Basic

/-!
# Outcomes

What a run that succeeded has done, as far as its report tells.
-/

set_option autoImplicit false

namespace CatalogueSync

/-- What became of the reference catalogue. -/
structure ReferenceOutcome where
  /-- The number of templates that were read. -/
  templates : Nat
  /-- The number of messages in the catalogue. -/
  messages : Nat
  /-- The file of the catalogue, as users know it. -/
  file : Text
  /-- Whether the file was written, or would be. -/
  changed : Bool
  /-- The number of paths at which templates could not be searched. -/
  unreachable : Nat
  deriving DecidableEq

/-- How many messages of the reference a locale has translated. -/
structure Progress where
  locale : Text
  translated : Nat
  total : Nat
  deriving DecidableEq

/-- What became of a locale. -/
structure LocaleOutcome extends Progress where
  pending : Nat
  revived : Nat
  demoted : Nat
  discarded : Nat
  /-- The files that were written, or would be, as users know them. -/
  changedFiles : List Text
  deriving DecidableEq

/-- What a run has done. -/
inductive Outcome where
  | extracted (reference : ReferenceOutcome)
  /-- The reference and the locales were brought up to date, or only looked at. -/
  | synchronised (checkOnly : Bool) (reference : ReferenceOutcome) (locales : List LocaleOutcome)
  | merged (locale : LocaleOutcome)
  | counted (locales : List Progress)
  | initialised
  deriving DecidableEq

namespace Outcome

/-- The number of files that a synchronisation wrote, or would write. -/
def changedCount (reference : ReferenceOutcome) (locales : List LocaleOutcome) : Nat :=
  (if reference.changed then 1 else 0) + (locales.flatMap fun l => l.changedFiles).length

/-- Whether a run only looked and found a file that would be written. -/
def isOutOfDate : Outcome → Bool
  | synchronised true reference locales =>
    reference.changed || locales.any fun l => !l.changedFiles.isEmpty
  | _ => false

/-- The number of paths at which templates could not be searched. -/
def unreachable : Outcome → Nat
  | extracted reference => reference.unreachable
  | synchronised _ reference _ => reference.unreachable
  | _ => 0

end Outcome

end CatalogueSync
