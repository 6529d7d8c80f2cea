import CatalogueSync.Text.Glyphs

/-!
# Texts inside messages

`Text.shown` writes a text between double quotes so that a message shows all of it on one line:
quotes and backslashes get a backslash, the common control characters their letter, and every
other character without a glyph of its own is written as its code point.
-/

set_option autoImplicit false

namespace CatalogueSync.Text

/-- How one character is written between double quotes. -/
def shownChar (c : Char) : Text :=
  if c = '"' then ['\\', '"']
  else if c = '\\' then ['\\', '\\']
  else if c = '\n' then ['\\', 'n']
  else if c = '\r' then ['\\', 'r']
  else if c = '\t' then ['\\', 't']
  else if c = '\x00' then ['\\', '0']
  else if isGlyphless c then ['\\', 'u', '{'] ++ Nat.toDigits 16 c.toNat ++ ['}']
  else [c]

/-- A text between double quotes, with every character visible. -/
def shown (s : Text) : Text :=
  '"' :: s.flatMap shownChar ++ ['"']

end CatalogueSync.Text
