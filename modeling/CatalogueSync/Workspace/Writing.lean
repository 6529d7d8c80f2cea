import CatalogueSync.Workspace.Basic

/-!
# Writing files

A text is written to a path in one step: the directories above it are made, then the new file
takes the place of the old one, so that nobody finds half of it. A write that would leave the
text as it is does nothing. What a failed write has made until then stays: the directories, but
never a file.
-/

set_option autoImplicit false

namespace CatalogueSync

/-- Why a file could not be written, and the path that the failing step was about. -/
inductive WriteError where
  | createDirectory (path : Path) (cause : IoError)
  | replaceFile (path : Path) (cause : IoError)
  deriving DecidableEq

/-- The wording of a failed write. -/
def WriteError.message : WriteError → String
  | createDirectory path cause =>
    "Failed to create directory: " ++ String.ofList path.toText ++ ": " ++ cause.message
  | replaceFile path cause =>
    "Failed to replace file: " ++ String.ofList path.toText ++ ": " ++ cause.message

namespace Workspace

/-- The segments of a path without the empty ones at its end. -/
def namedSegments (p : Path) : List Text :=
  (p.segments.reverse.dropWhile List.isEmpty).reverse

/-- The directory in which the last name of a path stands, and that name. -/
def locateName (w : Workspace) (p : Path) : Except IoError (Location × Text) :=
  match obstacle? p, (namedSegments p).getLast? with
  | some e, _ => .error e
  | none, none => .ok ([], ['.'])
  | none, some name =>
    match reach w.tree (w.start p) (namedSegments p).dropLast with
    | .error e => .error e
    | .ok dir =>
      match w.tree.node? dir with
      | none => .error .notFound
      | some (.file _) => .error .notADirectory
      | some .directory =>
        if Path.isLongName name then .error .nameTooLong else .ok (dir, name)

/-- Makes the directory at a path. A last segment that is no name leads to a directory that is
there. -/
def makeDirectory (w : Workspace) (p : Path) : Except IoError Workspace :=
  match w.locateName p with
  | .error e => .error e
  | .ok (dir, name) =>
    if hname : Path.IsEntryName name then
      (w.tree.makeDirectory dir name hname).map fun t => { w with tree := t }
    else .error .alreadyExists

/-- Makes the directory at a path when those above it are there. -/
def makeLastDirectory (w : Workspace) (p : Path) : Workspace × Except IoError Unit :=
  match w.makeDirectory p with
  | .ok w' => (w', .ok ())
  | .error e => (w, if w.isDirectory p then .ok () else .error e)

/-- Makes the directory at a path and those above it that are not there yet. What was made stays
also when one of them cannot be made. -/
def makeDirectories (w : Workspace) (p : Path) : Workspace × Except IoError Unit :=
  if p.isEmpty then (w, .ok ())
  else
    match w.makeDirectory p with
    | .ok w' => (w', .ok ())
    | .error .notFound =>
      match _h : p.parent? with
      | none => (w, .error .notFound)
      | some above =>
        match w.makeDirectories above with
        | (w', .ok ()) => w'.makeLastDirectory p
        | (w', .error e) => (w', .error e)
    | .error e => (w, if w.isDirectory p then .ok () else .error e)
termination_by p.components.length
decreasing_by exact Path.components_length_parent?_lt _h

/-- Puts a text in the place of the file at a path. -/
def replaceFile (w : Workspace) (p : Path) (contents : Text) : Except IoError Workspace :=
  match w.locateName p with
  | .error .impossibleName => .error .invalidTarget
  | .error e => .error e
  | .ok (dir, name) =>
    if hname : Path.IsEntryName name then
      if p.segments.getLast? = some [] then .error .notADirectory
      else (w.tree.putFile dir name (.text contents) hname).map fun t => { w with tree := t }
    else .error .busy

/-- The directory that the file at a path is written in. -/
def directoryOf (p : Path) : Path :=
  match p.parent? with
  | some above => if above.isEmpty then .here else above
  | none => .here

/-- Writes a text to a path, making the directories above it. -/
def write (w : Workspace) (p : Path) (contents : Text) : Workspace × Except WriteError Unit :=
  match w.makeDirectories (directoryOf p) with
  | (w', .error e) => (w', .error (.createDirectory (directoryOf p) e))
  | (w', .ok ()) =>
    match w'.replaceFile p contents with
    | .error e => (w', .error (.replaceFile p e))
    | .ok w'' => (w'', .ok ())

/-- Whether writing a text to a path would change what is there. A file that cannot be read
counts as a file without contents. -/
def wouldChange (w : Workspace) (p : Path) (contents : Text) : Bool :=
  match w.readText p with
  | .ok s => s != contents
  | .error _ => !contents.isEmpty

/-- Writes a text to a path unless it is there already. The flag says whether it was written. -/
def writeIfChanged (w : Workspace) (p : Path) (contents : Text) :
    Workspace × Except WriteError Bool :=
  if w.wouldChange p contents then
    match w.write p contents with
    | (w', .ok ()) => (w', .ok true)
    | (w', .error e) => (w', .error e)
  else (w, .ok false)

end Workspace

end CatalogueSync
