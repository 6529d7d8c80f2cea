import CatalogueSync.Block

/-!
# Cursors

A cursor is a place in a list of tokens: the tokens it has passed and those that remain. The
place is therefore never beyond the end, whatever is done with the cursor.
-/

set_option autoImplicit false

namespace CatalogueSync

/-- A place between two tokens. -/
structure Cursor where
  passed : List Token
  remaining : List Token
  deriving DecidableEq

namespace Cursor

/-- The cursor before the first token. -/
def ofTokens (ts : List Token) : Cursor :=
  ⟨[], ts⟩

/-- All tokens, passed or not. -/
def tokens (c : Cursor) : List Token :=
  c.passed ++ c.remaining

/-- The number of tokens passed. -/
def position (c : Cursor) : Nat :=
  c.passed.length

/-- Whether no token remains. -/
def isExhausted (c : Cursor) : Bool :=
  c.remaining.isEmpty

/-- The token after the cursor. -/
def peek? (c : Cursor) : Option Token :=
  c.remaining.head?

/-- The cursor at a position, or at the end if the position lies beyond it. -/
def moveTo (c : Cursor) (position : Nat) : Cursor :=
  ⟨c.tokens.take position, c.tokens.drop position⟩

/-- The cursor before the last `left` tokens. -/
def leaving (c : Cursor) (left : Nat) : Cursor :=
  c.moveTo (c.tokens.length - left)

/-- The token after the cursor, and the cursor after that token. -/
def advance (c : Cursor) : Option Token × Cursor :=
  match c.remaining with
  | [] => (none, c)
  | t :: _ => (some t, c.moveTo (c.position + 1))

/-- Reads the block that a tag named in `closing` ends. The cursor stops after that tag, or at
the end if there is none. -/
def readBlock (closing : List Text) (openedAt : Nat) (c : Cursor) :
    Except ParseError Block × Cursor :=
  match CatalogueSync.readBlock closing openedAt c.remaining with
  | .ok (b, rest) => (.ok b, c.leaving rest.length)
  | .error e => (.error e, c.leaving 0)

/-- Takes the comment that leads the remaining tokens. -/
def takeComment (c : Cursor) : Option Text × Cursor :=
  let r := CatalogueSync.takeComment c.remaining
  (r.1, c.leaving r.2.length)

end Cursor

end CatalogueSync
