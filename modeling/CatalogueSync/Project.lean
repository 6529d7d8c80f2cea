import CatalogueSync.Config.Search
import CatalogueSync.Locale

/-!
# Projects

A project is a directory with a configuration. It knows where its templates and its catalogues
are, which locales it has, and how users know its files: by their paths from its root.
-/

set_option autoImplicit false

namespace CatalogueSync

/-- What users may say about the project of a run. -/
structure ProjectOptions where
  root : Path := .here
  /-- The directory of the templates, in place of the configured one. -/
  templatesRoot? : Option Path := none
  /-- The directory of the catalogues, in place of the configured one. -/
  messagesRoot? : Option Path := none
  deriving DecidableEq

/-- A project. -/
structure Project where
  config : Config
  root : Path
  templatesRoot : Path
  messagesRoot : Path

namespace Project

/-- Opens the project that the options describe. -/
def openAt (o : ProjectOptions) (w : Workspace) : Reported Project :=
  if w.isDirectory o.root then do
    let config ← Config.load w o.root
    return { config, root := o.root,
             templatesRoot := o.root.join (o.templatesRoot?.getD (.ofText config.templatesRoot)),
             messagesRoot := o.root.join (o.messagesRoot?.getD (.ofText config.messagesRoot)) }
  else .fail (.rootNotADirectory o.root)

/-- The tag that the messages of the templates follow. -/
def sourceTag (p : Project) : Text :=
  p.config.sourceLanguage

/-- The file of the reference catalogue. -/
def referencePath (p : Project) : Path :=
  p.messagesRoot.join (.ofText p.config.referenceFile)

/-- The file of a locale's catalogue. -/
def localePath (p : Project) (locale : Text) : Path :=
  p.messagesRoot.join (.ofText locale)

/-- The file of a locale's unused catalogue. -/
def unusedPath (p : Project) (locale : Text) : Path :=
  p.messagesRoot.join (.ofText (Locale.unusedName locale))

/-- A path as users know it: from the root of the project, if it lies in there. -/
def shown (p : Project) (path : Path) : Text :=
  ((p.root.within? path).getD path).toText

/-- Reads the catalogue in a file. Where nothing is, there is a catalogue without entries. -/
def readCatalogue (p : Project) (w : Workspace) (file : Path) : Except Failure LocaleCatalogue :=
  if w.hasNode file then
    match w.readText file with
    | .error cause => .error (.unreadableCatalogue file cause)
    | .ok s =>
      match Locale.readFile p.sourceTag (p.shown file) s with
      | .error cause => .error (.malformed cause)
      | .ok c => .ok c
  else .ok .empty

/-- Whether the file with a name in the directory of the catalogues is that of a locale. The
reference, unused catalogues, hidden files and backups are not. -/
def isLocaleFile (p : Project) (name : Text) : Bool :=
  name != p.config.referenceFile && !(['.'].isPrefixOf name) &&
    !(Locale.unusedSuffix.isSuffixOf name) && !(['~'].isSuffixOf name)

/-- The locales that have a catalogue, in ascending order. -/
def locales (p : Project) (w : Workspace) : List Text :=
  match w.find p.messagesRoot with
  | .ok (dir, .directory) => (w.tree.fileNames dir).filter p.isLocaleFile
  | _ => []

/-- Whether users may ask for a locale by a name. -/
def isLocaleName (p : Project) (name : Text) : Bool :=
  !name.isEmpty && (name.all fun c => c != '/' && c != '\\') &&
    name != p.config.referenceFile && !(Locale.unusedSuffix.isSuffixOf name)

/-- The locales that users ask for; all of them, if they ask for none. -/
def selectLocales (p : Project) (w : Workspace) (requested : List Text) :
    Except Failure (List Text) :=
  if requested.isEmpty then .ok (p.locales w)
  else
    match requested.find? fun name => !p.isLocaleName name with
    | some name => .error (.invalidLocale name)
    | none => .ok requested

end Project

end CatalogueSync
