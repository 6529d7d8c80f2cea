import CatalogueSync.Token.Scan

/-!
# Tags and inline literals

A tag token is read as a name and its arguments, when its name is one of those a reader accepts.
Arguments are separated by whitespace; a quoted literal is one argument whatever it holds, and
`writeArgument` is the spelling that `readArguments` reads back.

An output token whose content is a quoted literal piped into `trans` is an inline translatable
literal.
-/

set_option autoImplicit false

namespace CatalogueSync

namespace TagName

/-- Opens a translatable block in a template. -/
def trans : Text := "trans".toList

/-- Separates the singular from the plural of a message. -/
def plural : Text := "plural".toList

/-- Closes a translatable block in a template. -/
def endtrans : Text := "endtrans".toList

/-- Opens an entry of a catalogue and separates its variants. -/
def msg : Text := "msg".toList

/-- Closes an entry of a catalogue. -/
def endmsg : Text := "endmsg".toList

/-- The names with a fixed meaning, which no source language may have. -/
def reserved : List Text :=
  [trans, plural, endtrans, msg, endmsg]

end TagName

/-- A tag: its name, its arguments and the line it starts on. -/
structure Tag where
  name : Text
  arguments : List Text
  line : Nat
  deriving DecidableEq

namespace Tag

/-- The first word of a text and what follows it, for a text that does not start with
whitespace. -/
def splitWord (s : Text) : Text × Text :=
  (s.takeWhile fun c => !Text.isSpace c, s.dropWhile fun c => !Text.isSpace c)

/-- The first argument of a text that does not start with whitespace, and what follows it: a
decoded quoted literal if a whole one stands there, else a word. -/
def splitArgument (s : Text) : Text × Text :=
  match Text.quoted? s with
  | some (inside, rest) => (Text.decodeEscapes inside, rest)
  | none => splitWord s

theorem trimStart_head_not_space {s : Text} {c : Char} {cs : Text}
    (h : Text.trimStart s = c :: cs) : Text.isSpace c = false := by
  have := List.head_dropWhile_not Text.isSpace (l := s) (by
    intro he
    simp [Text.trimStart, he] at h)
  have hc : (s.dropWhile Text.isSpace).head (by
      intro he
      simp [Text.trimStart, he] at h) = c := by
    simp only [Text.trimStart] at h
    simp [h]
  rwa [hc] at this

theorem splitArgument_length_lt {c : Char} {cs : Text} (h : Text.isSpace c = false) :
    (splitArgument (c :: cs)).2.length < (c :: cs).length := by
  unfold splitArgument
  split
  · rename_i inside rest hq
    exact Text.quoted?_length_lt hq
  · have := (List.dropWhile_sublist (p := fun c => !Text.isSpace c) (l := cs)).length_le
    simp [splitWord, h]
    omega

/-- The arguments that a text spells. -/
def readArguments (s : Text) : List Text :=
  match _h : Text.trimStart s with
  | [] => []
  | c :: cs =>
    let a := splitArgument (c :: cs)
    a.1 :: readArguments a.2
termination_by s.length
decreasing_by
  have hlt := @splitArgument_length_lt c cs (trimStart_head_not_space _h)
  have hle := Text.trimStart_length_le s
  rw [_h] at hle
  omega

/-- Whether an argument needs no quotes: it is a word without quotes, backslashes, braces and
percent signs. -/
def isPlainArgument (a : Text) : Bool :=
  !a.isEmpty && a.all fun c =>
    !(Text.isSpace c || Text.isControl c || ['\'', '"', '\\', '{', '}', '%'].contains c)

/-- The digits of a number in base 16, with leading zeros up to four. -/
def hexQuad (n : Nat) : Text :=
  let digits := Nat.toDigits 16 n
  List.replicate (4 - digits.length) '0' ++ digits

/-- How one character is written inside a quoted argument. -/
def writeChar (c : Char) : Text :=
  if c = '"' then ['\\', '"']
  else if c = '\\' then ['\\', '\\']
  else if c = '\n' then ['\\', 'n']
  else if c = '\t' then ['\\', 't']
  else if c = '\r' then ['\\', 'r']
  else if Text.isControl c then ['\\', 'u'] ++ hexQuad c.toNat
  else [c]

/-- The spelling of one argument. -/
def writeArgument (a : Text) : Text :=
  if isPlainArgument a then a else '"' :: a.flatMap writeChar ++ ['"']

/-- The spelling of a tag. -/
def write (name : Text) (arguments : List Text) : Text :=
  UnitKind.tag.opener ++ ' ' :: name ++ (arguments.flatMap fun a => ' ' :: writeArgument a) ++
    ' ' :: UnitKind.tag.closer

end Tag

namespace Token

/-- The tag that a token spells, if its name is one of those accepted. -/
def tag? (accepted : List Text) (t : Token) : Option Tag :=
  if t.kind = .unit .tag then
    let w := Tag.splitWord t.body
    if !w.1.isEmpty && accepted.contains w.1 then some ⟨w.1, Tag.readArguments w.2, t.line⟩
    else none
  else none

/-- The first step of a pipeline, for the text after a quoted literal. -/
def firstStep? (s : Text) : Option Text :=
  match Text.trimStart s with
  | '|' :: steps => some (Text.trim (steps.takeWhile fun c => c != '|'))
  | _ => none

/-- The translatable literal that an output token holds: a quoted literal at its start whose
first pipeline step is `trans`. -/
def inlineLiteral? (t : Token) : Option Text :=
  if t.kind = .unit .output then
    match Text.quoted? t.body with
    | some (inside, rest) =>
      if firstStep? rest = some TagName.trans then some (Text.decodeEscapes inside) else none
    | none => none
  else none

end Token

end CatalogueSync
