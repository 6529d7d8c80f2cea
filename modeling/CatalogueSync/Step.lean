import CatalogueSync.Extraction
import CatalogueSync.Locale

/-!
# A synchronisation step

One step takes the templates and the texts of one locale's files, and gives the reference text
and the locale's new texts.
-/

set_option autoImplicit false

namespace CatalogueSync

/-- What a synchronisation step gives. -/
structure Step where
  extraction : Extraction
  reference : Text
  update : Locale.Update

/-- Synchronises the texts of a locale's files with the templates. -/
def Step.run (sourceTag : Text) (templates : List Template) (locale : Text)
    (texts : Locale.Texts) : Except FileError Step :=
  match Extraction.ofTemplates templates with
  | .error e => .error e
  | .ok x =>
    (Locale.updateTexts sourceTag x.catalogue locale texts).map fun update =>
      ⟨x, ReferenceCatalogue.print sourceTag x.catalogue, update⟩

end CatalogueSync
