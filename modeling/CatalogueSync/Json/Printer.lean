import CatalogueSync.Json.Basic

/-!
# Writing JSON

A value is written over several lines: every item of an array and every field of an object stands
on a line of its own, two spaces deeper than its container. An empty container stays on its line.
-/

set_option autoImplicit false

namespace CatalogueSync.Json

/-- How one character is written inside a string. -/
def writeChar (c : Char) : Text :=
  if c = '"' then ['\\', '"']
  else if c = '\\' then ['\\', '\\']
  else if c = '\x08' then ['\\', 'b']
  else if c = '\x0c' then ['\\', 'f']
  else if c = '\n' then ['\\', 'n']
  else if c = '\r' then ['\\', 'r']
  else if c = '\t' then ['\\', 't']
  else if c.toNat < 0x10 then "\\u000".toList ++ Nat.toDigits 16 c.toNat
  else if c.toNat < 0x20 then "\\u00".toList ++ Nat.toDigits 16 c.toNat
  else [c]

/-- A text as a string. -/
def writeText (s : Text) : Text :=
  '"' :: s.flatMap writeChar ++ ['"']

/-- A line end and the space before what stands at some depth. -/
def lineAt (depth : Nat) : Text :=
  '\n' :: List.replicate (2 * depth) ' '

mutual

/-- A value whose container stands at some depth. A string without a text is written as an empty
one. -/
def printAt (depth : Nat) : Json → Text
  | .null => "null".toList
  | .bool true => "true".toList
  | .bool false => "false".toList
  | .number spelling => spelling
  | .string text? => writeText (text?.getD [])
  | .array [] => ['[', ']']
  | .array (v :: vs) =>
    '[' :: lineAt (depth + 1) ++ printAt (depth + 1) v ++ printItems (depth + 1) vs ++
      lineAt depth ++ [']']
  | .object [] => ['\x7b', '\x7d']
  | .object ((name, v) :: fields) =>
    '\x7b' :: lineAt (depth + 1) ++ writeText (name.getD []) ++ ':' :: ' ' ::
      printAt (depth + 1) v ++ printFields (depth + 1) fields ++ lineAt depth ++ ['\x7d']

/-- The items of an array after the first. -/
def printItems (depth : Nat) : List Json → Text
  | [] => []
  | v :: vs => ',' :: lineAt depth ++ printAt depth v ++ printItems depth vs

/-- The fields of an object after the first. -/
def printFields (depth : Nat) : List (Option Text × Json) → Text
  | [] => []
  | (name, v) :: fields =>
    ',' :: lineAt depth ++ writeText (name.getD []) ++ ':' :: ' ' :: printAt depth v ++
      printFields depth fields

end

/-- A value as a text. -/
def print (v : Json) : Text :=
  printAt 0 v

end CatalogueSync.Json
