import CatalogueSync.Command.Overview

/-!
# The program

Reads the files that a command can look at, carries the command out on them and writes those that
it has changed. All decisions are made by `Invocation.execute`; here files are only read and
written.
-/

set_option autoImplicit false

namespace CatalogueSync.Main

/-- The location of an absolute path. -/
def locationOf (path : String) : Location :=
  (Path.ofText path.toList).segments.filter fun s => !s.isEmpty

/-- The absolute path of a location. -/
def pathOf (loc : Location) : String :=
  String.ofList ('/' :: Path.joinSegments loc)

/-- Reads a file, or a directory and everything below it. Links are passed over. -/
partial def readEntry (loc : Location) (entry : IO.FS.DirEntry) : IO (List (Location × Node)) := do
  let here := loc ++ [entry.fileName.toList]
  match (← entry.path.symlinkMetadata).type with
  | .file => return [(here, .file (.ofBytes (← IO.FS.readBinFile entry.path)))]
  | .dir =>
    let below ← (← entry.path.readDir).toList.mapM (readEntry here)
    return (here, .directory) :: below.flatten
  | _ => return []

/-- Reads the directory at a path and everything below it, if there is one. -/
def readDirectory (path : Path) : IO (List (Location × Node)) := do
  let path := (← IO.currentDir) / String.ofList path.toText
  if ← path.isDir then
    let loc := locationOf (← IO.FS.realPath path).toString
    let below ← (← path.readDir).toList.mapM (readEntry loc)
    return (loc, .directory) :: below.flatten
  else return []

/-- Reads the entries of a directory that the search for a configuration looks for. -/
def readMarks (path : Path) : IO (List (Location × Node)) := do
  let path := (← IO.currentDir) / String.ofList path.toText
  if ← path.isDir then
    let loc := locationOf (← IO.FS.realPath path).toString
    let entries := (← path.readDir).toList
    let configs := entries.filter fun e => e.fileName.toList = Config.fileName
    let marks := entries.filter fun e => e.fileName.toList = Config.repositoryMark
    return (← configs.mapM (readEntry loc)).flatten ++
      marks.map fun e => (loc ++ [e.fileName.toList], .directory)
  else return []

/-- The project that a command is about. -/
def projectOf : Command → ProjectOptions
  | .extract p => p
  | .sync p _ _ => p
  | .merge p _ _ => p
  | .stats p _ => p
  | .init => {}

/-- The directories outside of its root that a command on a project may look into. -/
def directoriesOf (c : Command) (p : Project) : List Path :=
  let references := match c with
    | .merge _ _ (some file) => [p.messagesRoot.join file]
    | _ => []
  p.templatesRoot :: p.messagesRoot ::
    (p.referencePath :: references).map Workspace.directoryOf

/-- Reads the files that a command can look at: those below the root of its project, the
configurations above it, and what the configuration names outside of the root. -/
def readWorkspace (invocation : Invocation) : IO Workspace := do
  let home := locationOf (← IO.currentDir).toString
  match invocation with
  | .overview => return ⟨.ofEntries [(home, .directory)], home⟩
  | .command c _ =>
    let options := projectOf c
    let below ← readDirectory options.root
    let above ← options.root.pathsAbove.mapM readMarks
    let known := (home, Node.directory) :: below ++ above.flatten
    let w : Workspace := ⟨.ofEntries known, home⟩
    match (Project.openAt options w).result with
    | .error _ => return w
    | .ok project =>
      let unknown := (directoriesOf c project).filter fun path => !w.isDirectory path
      let more ← unknown.mapM readDirectory
      return ⟨.ofEntries (known ++ more.flatten), home⟩

/-- Writes one entry that is new or has changed. A file takes the place of the old one when it is
complete. -/
def writeEntry (loc : Location) : Node → IO Unit
  | .directory => IO.FS.createDirAll (pathOf loc)
  | .file contents => do
    let draft := pathOf loc ++ ".new"
    IO.FS.writeBinFile draft contents.toBytes
    IO.FS.rename draft (pathOf loc)

/-- Writes the entries in which a tree differs from what was read. -/
def writeChanges (before after : FileTree) : IO Unit :=
  after.entries.forM fun e =>
    if before.node? e.1 = some e.2 then pure () else writeEntry e.1 e.2

/-- The wording of what is wrong with a command line. -/
def usageMessage : UsageError → String
  | .helpRequested => String.ofList Invocation.overviewText
  | .versionRequested => "prosody-l10n 0.1.0\n"
  | .unknownCommand => "error: unrecognized subcommand\n"
  | .unknownArgument => "error: unexpected argument\n"
  | .missingArgument => "error: a required argument was not provided\n"
  | .invalidValue => "error: an argument has no valid value\n"
  | .repeatedArgument => "error: an argument cannot be used multiple times\n"
  | .unexpectedValue => "error: a flag has an unexpected value\n"

/-- Answers a command line that names nothing to carry out. -/
def answerUsage (e : UsageError) : IO UInt32 := do
  if e = .helpRequested ∨ e = .versionRequested then
    IO.print (usageMessage e)
    return 0
  else
    IO.eprint (usageMessage e)
    return 2

/-- Carries out what a command line asks for. -/
def answer (invocation : Invocation) : IO UInt32 := do
  let before ← readWorkspace invocation
  let colours := (← (← IO.getStdout).isTty) && (← IO.getEnv "NO_COLOR").isNone
  let x := invocation.execute colours before
  writeChanges before.tree x.workspace.tree
  IO.print (String.ofList x.output)
  IO.eprint (String.ofList x.errors)
  match x.failure? with
  | none => pure ()
  | some failure => IO.eprintln ("Error: " ++ failure.message)
  return x.status.toUInt32

end CatalogueSync.Main

/-- Reads the command line and answers it. -/
def main (args : List String) : IO UInt32 := do
  match CatalogueSync.Arguments.read (args.map String.toList) with
  | .error e => CatalogueSync.Main.answerUsage e
  | .ok invocation =>
    try CatalogueSync.Main.answer invocation
    catch e =>
      IO.eprintln ("Error: " ++ toString e)
      return 2
