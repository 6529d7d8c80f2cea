import CatalogueSync.Catalogue.Entry

/-!
# Reconciling a locale with the reference

A locale has a catalogue and an unused catalogue, which keeps the variants that no template
asks for at the moment. Reconciling rebuilds both after the reference:

* every message of the reference takes its variants from the catalogue, else from the unused
  catalogue (it is revived), else it has none yet (it is pending);
* every stale key, one that the reference does not hold, moves to the unused catalogue if it is
  translated (it is demoted when it comes from the catalogue) and is discarded otherwise.

Blank variants count as none and are not carried over.
-/

set_option autoImplicit false

namespace CatalogueSync

/-- The two catalogues of a locale after reconciling, and what became of each key. -/
structure Reconciliation where
  locale : LocaleCatalogue
  unused : LocaleCatalogue
  /-- Keys of the reference that are not translated yet. -/
  pending : List Text
  /-- Keys of the reference whose variants came from the unused catalogue. -/
  revived : List Text
  /-- Stale keys that moved from the catalogue to the unused catalogue. -/
  demoted : List Text
  /-- Stale keys without a filled variant. -/
  discarded : List Text

namespace LocaleCatalogue

/-- The filled variants stored under a key, if there are any. -/
def filledVariants? (c : LocaleCatalogue) (key : Text) : Option (List Text) :=
  match c.get? key with
  | some e => if e.isTranslated then some e.filledVariants else none
  | none => none

end LocaleCatalogue

namespace Reconciliation

/-- Nothing reconciled yet. -/
def empty : Reconciliation :=
  ⟨Catalogue.empty, Catalogue.empty, [], [], [], []⟩

/-- The number of messages of the reference that are translated. -/
def translatedCount (r : Reconciliation) : Nat :=
  r.locale.size - r.pending.length

/-- Adds a message of the reference with the given variants to the new catalogue. -/
def addMessage (r : Reconciliation) (m : Message) (variants : List Text) : Reconciliation :=
  { r with locale := (r.locale.insert { m with variants }).1 }

/-- Carries a message of the reference over. -/
def carry (existing unused : LocaleCatalogue) (r : Reconciliation) (m : Message) :
    Reconciliation :=
  match LocaleCatalogue.filledVariants? existing m.key with
  | some variants => r.addMessage m variants
  | none =>
    match LocaleCatalogue.filledVariants? unused m.key with
    | some variants =>
      { r.addMessage m variants with revived := r.revived ++ [m.key] }
    | none => { r.addMessage m [] with pending := r.pending ++ [m.key] }

/-- Whether a key is settled: the reference holds it or the new unused catalogue does. -/
def isSettled (reference : ReferenceCatalogue) (r : Reconciliation) (key : Text) : Bool :=
  reference.contains key || r.unused.contains key

/-- Adds a key to the discarded ones, once. -/
def discard (r : Reconciliation) (key : Text) : Reconciliation :=
  if r.discarded.contains key then r else { r with discarded := r.discarded ++ [key] }

/-- Adds an entry's key and filled variants to the new unused catalogue. -/
def keep (r : Reconciliation) (e : LocaleEntry) : Reconciliation :=
  { r with unused := (r.unused.insert (LocaleEntry.bare e.key e.filledVariants)).1 }

/-- Retires an entry of the old catalogue. Without a filled variant of its own it is not discarded
while the unused catalogue has one for its key. -/
def retire (reference : ReferenceCatalogue) (unused : LocaleCatalogue) (r : Reconciliation)
    (e : LocaleEntry) : Reconciliation :=
  if r.isSettled reference e.key then r
  else if e.isTranslated then { r.keep e with demoted := r.demoted ++ [e.key] }
  else if (LocaleCatalogue.filledVariants? unused e.key).isSome then r
  else r.discard e.key

/-- Keeps an entry of the old unused catalogue, or discards it. -/
def keepUnused (reference : ReferenceCatalogue) (r : Reconciliation) (e : LocaleEntry) :
    Reconciliation :=
  if r.isSettled reference e.key then r
  else if e.isTranslated then r.keep e
  else r.discard e.key

end Reconciliation

/-- Rebuilds the catalogue and the unused catalogue of a locale after the reference. -/
def reconcile (reference : ReferenceCatalogue) (existing unused : LocaleCatalogue) :
    Reconciliation :=
  let carried := reference.entries.foldl (Reconciliation.carry existing unused) .empty
  let retired := existing.entries.foldl (Reconciliation.retire reference unused) carried
  unused.entries.foldl (Reconciliation.keepUnused reference) retired

end CatalogueSync
