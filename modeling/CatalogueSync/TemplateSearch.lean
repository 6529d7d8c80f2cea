import CatalogueSync.Config.Basic
import CatalogueSync.Extraction
import CatalogueSync.Glob.Matching
import CatalogueSync.Report.Notice
import CatalogueSync.Workspace.Basic

/-!
# The search for templates

The templates of a project are the files below a directory, in the order of their names, but for
those that the configuration leaves out and those that are marked. A file is marked by a second
one beside it, with `.mime` added to the name, whose first byte is not a plus sign.
-/

set_option autoImplicit false

namespace CatalogueSync

/-- A file that was found to be a template. -/
structure TemplateFile where
  path : Path
  /-- The path from the directory that was searched. -/
  relative : Text
  contents : Contents
  deriving DecidableEq

/-- A template that is no text. -/
structure UnreadableTemplate where
  path : Path
  cause : IoError
  deriving DecidableEq

namespace TemplateFile

/-- The template in a file. -/
def read (f : TemplateFile) : Except UnreadableTemplate Template :=
  match f.contents.toText? with
  | some s => .ok ⟨f.relative, s⟩
  | none => .error ⟨f.path, .notText⟩

/-- The templates in some files. The first file that is no text decides. -/
def readAll : List TemplateFile → Except UnreadableTemplate (List Template)
  | [] => .ok []
  | f :: fs =>
    match f.read with
    | .error e => .error e
    | .ok t => (readAll fs).map (t :: ·)

end TemplateFile

/-- The result of a search for templates. -/
structure TemplateSearch where
  files : List TemplateFile
  /-- The number of paths that could not be searched. -/
  unreachable : Nat
  notices : List Notice

namespace TemplateSearch

/-- The patterns that are well formed. -/
def globs (patterns : List Text) : List Glob :=
  patterns.filterMap fun p =>
    match Glob.parse p with
    | .ok g => some g
    | .error _ => none

/-- A notice for each pattern that is not well formed. -/
def patternNotices (patterns : List Text) : List Notice :=
  patterns.filterMap fun p =>
    match Glob.parse p with
    | .ok _ => none
    | .error e => some (.malformedPattern p e)

/-- Whether the configuration leaves out a file, by its name or by its path. -/
def isIgnored (c : Config) (name relative : Text) : Bool :=
  c.ignoredNames.contains name || (c.ignoredSuffixes.any fun s => s.isSuffixOf name) ||
    (globs c.ignores).any fun g => g.matchesPath relative

/-- The ending of the names of files that mark others. -/
def markerSuffix : Text :=
  ".mime".toList

/-- Whether the file with a name in a directory is marked as not being a template. -/
def isMarked (t : FileTree) (dir : Location) (name : Text) : Bool :=
  match t.node? (dir ++ [name ++ markerSuffix]) with
  | some (.file contents) => !contents.startsWithPlus
  | _ => false

/-- What the search makes of a file: a template, a notice or nothing. -/
inductive Verdict where
  | ignored
  | marked
  | template
  deriving DecidableEq

/-- What the search makes of the file at some names below `root`. -/
def verdict (t : FileTree) (c : Config) (root : Location) (names : List Text) : Verdict :=
  let loc := root ++ names
  let name := loc.getLast?.getD []
  if isIgnored c name (Path.joinSegments names) then .ignored
  else if isMarked t loc.dropLast name then .marked
  else .template

/-- The path to some names below a path. -/
def pathTo (root : Path) (names : List Text) : Path :=
  if names.isEmpty then root else root.join ⟨names⟩

/-- The templates below a location, which a path leads to. -/
def filesAt (t : FileTree) (c : Config) (path : Path) (root : Location) : List TemplateFile :=
  (t.filesBelow root).filterMap fun f =>
    match verdict t c root f.1 with
    | .template => some ⟨pathTo path f.1, Path.joinSegments f.1, f.2⟩
    | _ => none

/-- A notice for each marked file below a location. -/
def markNotices (t : FileTree) (c : Config) (root : Location) : List Notice :=
  (t.filesBelow root).filterMap fun f =>
    match verdict t c root f.1 with
    | .marked => some (.notATemplate (Path.joinSegments f.1))
    | _ => none

/-- Searches for the templates at a path. -/
def run (w : Workspace) (c : Config) (path : Path) : TemplateSearch :=
  match w.find path with
  | .error e => ⟨[], 1, patternNotices c.ignores ++ [.unreachable path e]⟩
  | .ok (root, _) =>
    ⟨filesAt w.tree c path root, 0,
      patternNotices c.ignores ++ markNotices w.tree c root⟩

end TemplateSearch

end CatalogueSync
