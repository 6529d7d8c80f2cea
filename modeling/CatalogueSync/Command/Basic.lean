import CatalogueSync.Plan
import CatalogueSync.Report.Basic

/-!
# Commands

What users can ask for, and what is done then. Every command looks at the whole project before it
writes anything.
-/

set_option autoImplicit false

namespace CatalogueSync

/-- A command. -/
inductive Command where
  /-- Writes the reference catalogue from the templates. -/
  | extract (project : ProjectOptions)
  /-- Writes the reference and brings locales up to date with it, or only looks what would be
  written. -/
  | sync (project : ProjectOptions) (locales : List Text) (checkOnly : Bool)
  /-- Brings a locale up to date with a reference catalogue that is there. -/
  | merge (project : ProjectOptions) (locale : Text) (reference? : Option Path)
  /-- Counts the translated messages of locales. -/
  | stats (project : ProjectOptions) (locales : List Text)
  /-- Writes a configuration file. -/
  | init
  deriving DecidableEq

/-- What a run that succeeded has found and done. -/
structure RunResult where
  issues : List Issue
  outcome : Outcome
  deriving DecidableEq

namespace Command

/-- The plan of a synchronisation: the reference and the locales. -/
def planSync (p : Project) (requested : List Text) (w : Workspace) :
    Reported (ReferencePlan × List LocalePlan) := do
  let locales ← .ofExcept (p.selectLocales w requested)
  let reference ← ReferencePlan.make p w
  let plans ← .ofExcept (LocalePlan.makeAll p w reference.catalogue locales)
  return (reference, plans)

/-- The plan of a merge: the locale, and the reference that is read from a file. -/
def planMerge (p : Project) (locale : Text) (file : Path) (w : Workspace) :
    Except Failure LocalePlan :=
  match p.selectLocales w [locale] with
  | .error e => .error e
  | .ok _ =>
    if w.isFile file then
      match p.readCatalogue w file with
      | .error e => .error e
      | .ok c =>
        LocalePlan.make p w (Catalogue.ofList (c.entries.map LocaleEntry.toMessage)) locale
    else .error (.referenceNotFound (p.shown file))

/-- The progress of a locale: how many of the keys its catalogue translates. -/
def progress (p : Project) (w : Workspace) (keys : List Text) (locale : Text) :
    Except Failure Progress :=
  match p.readCatalogue w (p.localePath locale) with
  | .error e => .error e
  | .ok c =>
    let isTranslated (key : Text) : Bool := (c.get? key).any LocaleEntry.isTranslated
    .ok ⟨locale, keys.countP isTranslated, keys.length⟩

/-- The progress of several locales. The first locale that cannot be read decides. -/
def progressAll (p : Project) (w : Workspace) (keys : List Text) :
    List Text → Except Failure (List Progress)
  | [] => .ok []
  | locale :: locales =>
    match progress p w keys locale with
    | .error e => .error e
    | .ok a => (progressAll p w keys locales).map (a :: ·)

/-- Counts what the locales have translated of the reference catalogue that is there. -/
def count (p : Project) (requested : List Text) (w : Workspace) :
    Except Failure (List Progress) :=
  if w.isFile p.referencePath then
    match p.readCatalogue w p.referencePath with
    | .error e => .error e
    | .ok reference =>
      match p.selectLocales w requested with
      | .error e => .error e
      | .ok locales => progressAll p w reference.keys locales
  else .error (.referenceNotFound (p.shown p.referencePath))

/-- Writes the default configuration into the working directory. -/
def writeConfig : Session Unit := fun w =>
  if w.hasNode (.ofText Config.fileName) then (w, .fail .configExists)
  else
    match w.replaceFile (.ofText Config.fileName) (Config.print .default) with
    | .error cause => (w, .fail (.configFile cause))
    | .ok w' => (w', .ok ())

/-- Does what a command asks for. -/
def run : Command → Session RunResult
  | extract options => do
    let p ← .look (Project.openAt options)
    let plan ← .look (ReferencePlan.make p)
    let reference ← plan.apply p false
    return ⟨plan.issues, .extracted reference⟩
  | sync options requested checkOnly => do
    let p ← .look (Project.openAt options)
    let (plan, plans) ← .look (planSync p requested)
    let reference ← plan.apply p checkOnly
    let locales ← LocalePlan.applyAll p checkOnly plans
    return ⟨plan.issues ++ plans.flatMap LocalePlan.issues,
      .synchronised checkOnly reference locales⟩
  | merge options locale reference? => do
    let p ← .look (Project.openAt options)
    let file := (reference?.map p.messagesRoot.join).getD p.referencePath
    let plan ← .look fun w => .ofExcept (planMerge p locale file w)
    let outcome ← plan.apply p false
    return ⟨plan.issues, .merged outcome⟩
  | stats options requested => do
    let p ← .look (Project.openAt options)
    let progress ← .look fun w => .ofExcept (count p requested w)
    return ⟨[], .counted progress⟩
  | init => do
    writeConfig
    return ⟨[], .initialised⟩

end Command

end CatalogueSync
