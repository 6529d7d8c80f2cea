import CatalogueSync.Command.Basic

/-!
# Arguments

How the words of a command line are read. The first word names the command. A word after an option
that wants a value is its value, unless it looks like an option itself; `--option=value` gives the
value at once; after `--` every word is a positional argument. What is wrong with an argument is
found when the next one begins, so an unknown argument is found before a bad value in front of it.
-/

set_option autoImplicit false

namespace CatalogueSync

/-- What is wrong with a command line, or what it asks for instead of a command. -/
inductive UsageError where
  | helpRequested
  | versionRequested
  | unknownCommand
  | unknownArgument
  | missingArgument
  /-- An option has no value, or a path is empty. -/
  | invalidValue
  /-- An option or flag that may be given once came again. -/
  | repeatedArgument
  /-- A flag has a value. -/
  | unexpectedValue
  deriving DecidableEq

/-- What a command line asks for. -/
inductive Invocation where
  /-- An overview of the commands, when none is named. -/
  | overview
  | command (c : Command) (verbose : Bool)
  deriving DecidableEq

namespace Arguments

/-- An argument of a command. -/
inductive Argument where
  | root
  | locale
  | templatesRoot
  | messagesRoot
  | locales
  | reference
  | check
  | verbose
  | help
  deriving DecidableEq

namespace Argument

/-- Whether an argument has a value. -/
def hasValue : Argument → Bool
  | check | verbose | help => false
  | _ => true

/-- Whether the value of an argument is a path, which may not be empty. -/
def isPath : Argument → Bool
  | root | templatesRoot | messagesRoot => true
  | _ => false

/-- Whether an argument may be given more than once. -/
def isRepeatable : Argument → Bool
  | locales => true
  | _ => false

/-- The word of an option. -/
def longName : Argument → Text
  | root => "root".toList
  | locale => "locale".toList
  | templatesRoot => "templates-root".toList
  | messagesRoot => "messages-root".toList
  | locales => "locale".toList
  | reference => "reference".toList
  | check => "check".toList
  | verbose => "verbose".toList
  | help => "help".toList

/-- The letter of a flag. -/
def letter? : Argument → Option Char
  | verbose => some 'v'
  | help => some 'h'
  | _ => none

end Argument

/-- The names of the commands. -/
inductive CommandName where
  | extract
  | sync
  | merge
  | stats
  | init
  deriving DecidableEq

namespace CommandName

/-- The commands. -/
def all : List CommandName :=
  [extract, sync, merge, stats, init]

/-- The word of a command. -/
def word : CommandName → Text
  | extract => "extract".toList
  | sync => "sync".toList
  | merge => "merge".toList
  | stats => "stats".toList
  | init => "init".toList

/-- The positional arguments of a command, in their order. -/
def positionals : CommandName → List Argument
  | merge => [.locale, .root]
  | init => []
  | _ => [.root]

/-- The options and flags of a command. -/
def options : CommandName → List Argument
  | extract => [.templatesRoot, .messagesRoot, .verbose, .help]
  | sync => [.templatesRoot, .messagesRoot, .verbose, .locales, .check, .help]
  | merge => [.templatesRoot, .messagesRoot, .verbose, .reference, .help]
  | stats => [.templatesRoot, .messagesRoot, .verbose, .locales, .help]
  | init => [.help]

/-- The command with a word. -/
def ofWord? (w : Text) : Option CommandName :=
  all.find? fun c => c.word = w

end CommandName

/-- The word that asks for help on other commands. -/
def helpWord : Text :=
  "help".toList

/-- Whether a word names a command, `help` included. -/
def isCommandWord (w : Text) : Bool :=
  w = helpWord || (CommandName.ofWord? w).isSome

/-- The arguments that were given, each with its value; the value of a flag is empty. -/
abbrev Given := List (Argument × Text)

/-- The values of an argument. -/
def Given.values (g : Given) (a : Argument) : List Text :=
  g.filterMap fun p => if p.1 = a then some p.2 else none

/-- The value of an argument that may be given once. -/
def Given.value? (g : Given) (a : Argument) : Option Text :=
  (g.values a).head?

/-- Whether an argument was given. -/
def Given.has (g : Given) (a : Argument) : Bool :=
  !(g.values a).isEmpty

/-- An argument that has begun, and its value if that has come. -/
structure Begun where
  argument : Argument
  value? : Option Text
  deriving DecidableEq

/-- Takes an argument as given. -/
def accept (g : Given) (b : Begun) : Except UsageError Given :=
  let a := b.argument
  if a = .help then .error .helpRequested
  else if a.hasValue && b.value?.isNone then .error .invalidValue
  else if !a.isRepeatable && g.has a then .error .repeatedArgument
  else if a.isPath && b.value? = some [] then .error .invalidValue
  else .ok (g ++ [(a, b.value?.getD [])])

/-- Where the reader of a command's arguments stands. -/
structure State where
  given : Given
  /-- The argument that has begun last and is not yet taken as given. -/
  begun? : Option Begun
  /-- The positional arguments that have not come yet. -/
  positionals : List Argument
  /-- Whether every further word is a positional argument. -/
  positionalsOnly : Bool

namespace State

/-- Takes the argument that has begun last as given. -/
def settle (s : State) : Except UsageError State :=
  match s.begun? with
  | none => .ok s
  | some b => (accept s.given b).map fun g => { s with given := g, begun? := none }

/-- Takes an argument as given at once, after the one that has begun before it. -/
def take (s : State) (b : Begun) : Except UsageError State := do
  let s ← s.settle
  let g ← accept s.given b
  return { s with given := g }

/-- Begins an argument, after the one that has begun before it. -/
def begin (s : State) (b : Begun) : Except UsageError State := do
  let s ← s.settle
  return { s with begun? := some b }

/-- Reads a positional argument. -/
def readPositional (s : State) (word : Text) : Except UsageError State :=
  match s.positionals with
  | [] => .error .unknownArgument
  | a :: as => (s.begin ⟨a, some word⟩).map fun s => { s with positionals := as }

/-- Reads a word that does not look like an option. -/
def readValue (s : State) (word : Text) : Except UsageError State :=
  match s.begun? with
  | some ⟨a, none⟩ => .ok { s with begun? := some ⟨a, some word⟩ }
  | _ => s.readPositional word

/-- Reads an option by its name, with the value that an equals sign attaches to it. -/
def readOption (options : List Argument) (s : State) (name : Text) (attached? : Option Text) :
    Except UsageError State :=
  match options.find? fun a => a.longName = name with
  | none => .error .unknownArgument
  | some a =>
    if a.hasValue then
      if attached?.isSome then s.take ⟨a, attached?⟩ else s.begin ⟨a, none⟩
    else if attached?.isSome then .error .unexpectedValue
    else s.take ⟨a, none⟩

/-- Reads the letters of flags. -/
def readLetters (options : List Argument) (s : State) : Text → Except UsageError State
  | [] => .ok s
  | c :: cs =>
    match options.find? fun a => a.letter? = some c with
    | none => .error .unknownArgument
    | some a =>
      match s.take ⟨a, none⟩ with
      | .error e => .error e
      | .ok s => readLetters options s cs

/-- Reads a word. -/
def readWord (options : List Argument) (s : State) (word : Text) : Except UsageError State :=
  if s.positionalsOnly then s.readPositional word
  else
    match word with
    | ['-', '-'] => .ok { s with positionalsOnly := true }
    | '-' :: '-' :: rest =>
      let name := rest.takeWhile fun c => c != '='
      s.readOption options name
        (if name.length < rest.length then some (rest.drop (name.length + 1)) else none)
    | '-' :: c :: cs => s.readLetters options (c :: cs)
    | _ => s.readValue word

/-- Reads the words one after the other. -/
def readWords (options : List Argument) (s : State) : List Text → Except UsageError State
  | [] => s.settle
  | word :: words =>
    match s.readWord options word with
    | .error e => .error e
    | .ok s => readWords options s words

end State

/-- The project that the arguments describe. -/
def Given.project (g : Given) : ProjectOptions where
  root := ((g.value? .root).map Path.ofText).getD .here
  templatesRoot? := (g.value? .templatesRoot).map Path.ofText
  messagesRoot? := (g.value? .messagesRoot).map Path.ofText

/-- The command that the arguments make. -/
def Given.command (g : Given) : CommandName → Except UsageError Command
  | .extract => .ok (.extract g.project)
  | .sync => .ok (.sync g.project (g.values .locales) (g.has .check))
  | .merge =>
    match g.value? .locale with
    | none => .error .missingArgument
    | some locale => .ok (.merge g.project locale ((g.value? .reference).map Path.ofText))
  | .stats => .ok (.stats g.project (g.values .locales))
  | .init => .ok .init

/-- Reads the words after the name of a command. -/
def readCommand (name : CommandName) (words : List Text) : Except UsageError Invocation := do
  let s ← State.readWords name.options ⟨[], none, name.positionals, false⟩ words
  let c ← s.given.command name
  return .command c (s.given.has .verbose)

/-- Reads the words after `help`: nothing, or the name of a command. -/
def readHelp : List Text → UsageError
  | [] => .helpRequested
  | [word] => if isCommandWord word then .helpRequested else .unknownCommand
  | _ => .unknownCommand

/-- Reads the letters of a word before the command. -/
def readLeadingLetter : Char → UsageError
  | 'h' => .helpRequested
  | 'V' => .versionRequested
  | _ => .unknownArgument

/-- Reads the option that a word before the command spells. -/
def readLeadingOption (rest : Text) : UsageError :=
  let name := rest.takeWhile fun c => c != '='
  let hasValue := name.length < rest.length
  if name = "help".toList then if hasValue then .unexpectedValue else .helpRequested
  else if name = "version".toList then if hasValue then .unexpectedValue else .versionRequested
  else .unknownArgument

/-- Reads the words of a command line. -/
def read : List Text → Except UsageError Invocation
  | [] => .ok .overview
  | word :: words =>
    match CommandName.ofWord? word with
    | some name => readCommand name words
    | none =>
      if word = helpWord then .error (readHelp words)
      else
        match word with
        | ['-', '-'] =>
          match words with
          | [] => .ok .overview
          | w :: _ => .error (if isCommandWord w then .unknownArgument else .unknownCommand)
        | '-' :: '-' :: rest => .error (readLeadingOption rest)
        | '-' :: c :: _ => .error (readLeadingLetter c)
        | _ => .error .unknownCommand

end Arguments

end CatalogueSync
