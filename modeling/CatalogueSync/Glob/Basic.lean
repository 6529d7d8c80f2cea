import CatalogueSync.Text.Basic

/-!
# Glob patterns

A pattern is a list of pieces. It matches a whole relative path: `?` stands for any character,
`*` for any run of characters, slashes included, and `[...]` or `[!...]` for a character in or
outside a set. `**` stands for any number of leading folders and has to be a path component of
its own; at the end of a pattern it stands for everything.
-/

set_option autoImplicit false

namespace CatalogueSync

namespace Glob

/-- A member of a character set. -/
inductive Member where
  | one (c : Char)
  | range (first last : Char)
  deriving DecidableEq

/-- Whether a member of a set covers a character. -/
def Member.covers (c : Char) : Member → Bool
  | one d => c = d
  | range first last => first.toNat ≤ c.toNat && c.toNat ≤ last.toNat

/-- A piece of a pattern. -/
inductive Piece where
  | literal (c : Char)
  | anyChar
  | set (negated : Bool) (members : List Member)
  | anyRun
  | anyFolders
  deriving DecidableEq

/-- Whether a piece for a single character covers a character. -/
def Piece.covers (c : Char) : Piece → Bool
  | literal d => c = d
  | anyChar => true
  | set negated members => members.any (Member.covers c) != negated
  | anyRun => false
  | anyFolders => false

end Glob

/-- A well-formed pattern, as its pieces. -/
structure Glob where
  pieces : List Glob.Piece
  deriving DecidableEq

end CatalogueSync
