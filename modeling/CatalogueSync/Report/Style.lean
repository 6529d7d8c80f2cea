import CatalogueSync.Text.Basic

/-!
# Styled text

What is printed is a list of spans, each with a style. On a terminal with colours a styled span
stands between the sequence that turns its style on and the one that resets it; elsewhere only the
text is printed. A reset inside a span turns its style on again after it.
-/

set_option autoImplicit false

namespace CatalogueSync

/-- The colours of a terminal. -/
inductive Colour where
  | red
  | green
  | yellow
  | blue
  | cyan
  deriving DecidableEq

/-- The code of a colour. -/
def Colour.code : Colour → String
  | red => "31"
  | green => "32"
  | yellow => "33"
  | blue => "34"
  | cyan => "36"

/-- How a span looks. -/
structure Style where
  bold : Bool := false
  dimmed : Bool := false
  colour? : Option Colour := none
  deriving DecidableEq

namespace Style

/-- The look of a span that is not marked. -/
def plain : Style := {}

/-- Bold letters. -/
def strong : Style := { bold := true }

/-- Letters in a colour. -/
def inColour (c : Colour) : Style := { colour? := some c }

/-- Bold letters in a colour. -/
def strongIn (c : Colour) : Style := { bold := true, colour? := some c }

/-- Dimmed letters in a colour. -/
def dimmedIn (c : Colour) : Style := { dimmed := true, colour? := some c }

/-- The codes of a style. -/
def codes (s : Style) : List String :=
  (if s.bold then ["1"] else []) ++ (if s.dimmed then ["2"] else []) ++
    (s.colour?.map Colour.code).toList

/-- The sequence that turns a style on. -/
def start (s : Style) : Text :=
  '\x1b' :: '[' :: (String.intercalate ";" s.codes).toList ++ ['m']

end Style

/-- A piece of a line and its style. -/
structure Span where
  style : Style
  text : Text
  deriving DecidableEq

namespace Span

/-- The sequence that turns every style off. -/
def reset : Text :=
  ['\x1b', '[', '0', 'm']

/-- A span that is not marked. -/
def plain (s : String) : Span :=
  ⟨.plain, s.toList⟩

/-- A text of the user's, not marked. -/
def quoted (s : Text) : Span :=
  ⟨.plain, s⟩

/-- A span in a style. -/
def styled (style : Style) (s : String) : Span :=
  ⟨style, s.toList⟩

/-- The decimal digits of a number. -/
def number (n : Nat) : Span :=
  ⟨.plain, Text.ofNat n⟩

/-- A text with `start` after every reset in it. The first `skip` characters belong to a reset
that has been seen. -/
def restart (start : Text) : Nat → Text → Text
  | _, [] => []
  | skip + 1, c :: s => c :: (if skip = 0 then start else []) ++ restart start skip s
  | 0, c :: s =>
    if reset.isPrefixOf (c :: s) then c :: restart start (reset.length - 1) s
    else c :: restart start 0 s

/-- A span as it is printed, with or without colours. -/
def render (colours : Bool) (span : Span) : Text :=
  if colours && !span.style.codes.isEmpty then
    span.style.start ++ restart span.style.start 0 span.text ++ reset
  else span.text

/-- A line of spans as it is printed, with its line end. -/
def renderLine (colours : Bool) (spans : List Span) : Text :=
  spans.flatMap (render colours) ++ ['\n']

end Span

end CatalogueSync
