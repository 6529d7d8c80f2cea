import CatalogueSync.Catalogue.Parser
import CatalogueSync.Catalogue.Printer
import CatalogueSync.Reconciliation

/-!
# The files of a locale

A locale is stored in two files of the messages directory: its catalogue, named as the locale,
and its unused catalogue beside it. Updating a locale reads both, reconciles them with the
reference and writes both anew.
-/

set_option autoImplicit false

namespace CatalogueSync.Locale

/-- The ending of the names of unused catalogues. -/
def unusedSuffix : Text :=
  ".unused".toList

/-- The name of a locale's unused catalogue. -/
def unusedName (locale : Text) : Text :=
  locale ++ unusedSuffix

/-- The texts of a locale's two files. -/
structure Texts where
  catalogue : Text
  unused : Text
  deriving DecidableEq

/-- A reconciled locale and the new texts of its files. -/
structure Update where
  reconciliation : Reconciliation
  texts : Texts

/-- Reconciles the catalogues of a locale with the reference. -/
def update (sourceTag : Text) (reference : ReferenceCatalogue)
    (existing unused : LocaleCatalogue) : Update :=
  let r := reconcile reference existing unused
  ⟨r, ⟨LocaleCatalogue.print sourceTag r.locale, LocaleCatalogue.print sourceTag r.unused⟩⟩

/-- Reads a catalogue file, naming the file in the error. -/
def readFile (sourceTag : Text) (file : Text) (s : Text) : Except FileError LocaleCatalogue :=
  match LocaleCatalogue.parse sourceTag s with
  | .ok c => .ok c
  | .error cause => .error ⟨file, cause⟩

/-- Updates the texts of a locale's files after the reference. -/
def updateTexts (sourceTag : Text) (reference : ReferenceCatalogue) (locale : Text)
    (texts : Texts) : Except FileError Update :=
  match readFile sourceTag locale texts.catalogue with
  | .error e => .error e
  | .ok existing =>
    match readFile sourceTag (unusedName locale) texts.unused with
    | .error e => .error e
    | .ok unused => .ok (update sourceTag reference existing unused)

end CatalogueSync.Locale
