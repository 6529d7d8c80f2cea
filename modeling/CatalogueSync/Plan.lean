import CatalogueSync.Issue
import CatalogueSync.Project
import CatalogueSync.Report.Outcome

/-!
# Plans

A run first reads everything it needs and plans the new texts of all files; only then does it
write them. A plan holds the new texts and what there is to report about them. Carrying it out
writes the files whose text changes, or only names them.
-/

set_option autoImplicit false

namespace CatalogueSync

/-- A new text for a file. -/
structure Draft where
  path : Path
  text : Text
  deriving DecidableEq

namespace Draft

/-- Writes a draft unless the file has its text already, or only looks whether it has. Gives the
file, as users know it, if it was or would be written. -/
def apply (p : Project) (checkOnly : Bool) (d : Draft) : Session (Option Text) := fun w =>
  let file := p.shown d.path
  if checkOnly then
    if w.wouldChange d.path d.text then (w, ⟨[.outOfDate file], .ok (some file)⟩)
    else (w, .ok none)
  else
    match w.writeIfChanged d.path d.text with
    | (w', .error cause) => (w', .fail (.unwritable cause))
    | (w', .ok true) => (w', ⟨[.written file], .ok (some file)⟩)
    | (w', .ok false) => (w', .ok none)

/-- Applies drafts one after the other. Gives the files that were or would be written. -/
def applyAll (p : Project) (checkOnly : Bool) : List Draft → Session (List Text)
  | [] => return []
  | d :: ds => do
    let file? ← d.apply p checkOnly
    let files ← applyAll p checkOnly ds
    return file?.toList ++ files

end Draft

/-- The new reference catalogue of a project. -/
structure ReferencePlan where
  extraction : Extraction
  /-- The number of templates that were read. -/
  templates : Nat
  /-- The number of paths at which templates could not be searched. -/
  unreachable : Nat
  draft : Draft

namespace ReferencePlan

/-- Reads the templates of a project. -/
def make (p : Project) (w : Workspace) : Reported ReferencePlan :=
  if w.isDirectory p.templatesRoot then do
    let search := TemplateSearch.run w p.config p.templatesRoot
    Reported.tell (search.notices ++ search.files.map fun f => .reading f.relative)
    let templates ← .ofExcept ((TemplateFile.readAll search.files).mapError .unreadableTemplate)
    let extraction ← .ofExcept ((Extraction.ofTemplates templates).mapError .malformed)
    return { extraction, templates := search.files.length, unreachable := search.unreachable,
             draft := ⟨p.referencePath,
               ReferenceCatalogue.print p.sourceTag extraction.catalogue⟩ }
  else .fail (.templatesNotFound p.templatesRoot)

/-- The new reference catalogue. -/
def catalogue (r : ReferencePlan) : ReferenceCatalogue :=
  r.extraction.catalogue

/-- The issues that the templates have. -/
def issues (r : ReferencePlan) : List Issue :=
  r.extraction.collisions.map .duplicateKey

/-- Carries out the plan. -/
def apply (p : Project) (checkOnly : Bool) (r : ReferencePlan) : Session ReferenceOutcome := do
  let file? ← r.draft.apply p checkOnly
  return { templates := r.templates, messages := r.catalogue.size,
           file := p.shown r.draft.path, changed := file?.isSome, unreachable := r.unreachable }

end ReferencePlan

/-- The new catalogues of a locale. -/
structure LocalePlan where
  locale : Text
  /-- The number of messages of the reference. -/
  total : Nat
  update : Locale.Update

namespace LocalePlan

/-- Reads the catalogues of a locale and reconciles them with the reference. -/
def make (p : Project) (w : Workspace) (reference : ReferenceCatalogue) (locale : Text) :
    Except Failure LocalePlan :=
  match p.readCatalogue w (p.localePath locale) with
  | .error e => .error e
  | .ok existing =>
    match p.readCatalogue w (p.unusedPath locale) with
    | .error e => .error e
    | .ok unused =>
      .ok ⟨locale, reference.size, Locale.update p.sourceTag reference existing unused⟩

/-- Plans for several locales. The first locale that cannot be read decides. -/
def makeAll (p : Project) (w : Workspace) (reference : ReferenceCatalogue) :
    List Text → Except Failure (List LocalePlan)
  | [] => .ok []
  | locale :: locales =>
    match make p w reference locale with
    | .error e => .error e
    | .ok plan => (makeAll p w reference locales).map (plan :: ·)

/-- The new texts of a locale's files. -/
def drafts (p : Project) (l : LocalePlan) : List Draft :=
  [⟨p.localePath l.locale, l.update.texts.catalogue⟩,
    ⟨p.unusedPath l.locale, l.update.texts.unused⟩]

/-- The issues that the reconciliation of a locale has. -/
def issues (l : LocalePlan) : List Issue :=
  Issue.ofReconciliation l.locale l.update.reconciliation

/-- Carries out the plan. -/
def apply (p : Project) (checkOnly : Bool) (l : LocalePlan) : Session LocaleOutcome := do
  let files ← Draft.applyAll p checkOnly (l.drafts p)
  let r := l.update.reconciliation
  return { locale := l.locale, translated := r.translatedCount, total := l.total,
           pending := r.pending.length, revived := r.revived.length,
           demoted := r.demoted.length, discarded := r.discarded.length, changedFiles := files }

/-- Carries out plans one after the other. -/
def applyAll (p : Project) (checkOnly : Bool) : List LocalePlan → Session (List LocaleOutcome)
  | [] => return []
  | l :: ls => do
    let outcome ← l.apply p checkOnly
    let outcomes ← applyAll p checkOnly ls
    return outcome :: outcomes

end LocalePlan

end CatalogueSync
