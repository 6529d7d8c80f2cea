import CatalogueSync.Text.Basic

/-!
# Tokens

A template or catalogue is a sequence of plain text and of units: tags, outputs and comments,
each between a two-character opener and a two-character closer. A token is one such piece
together with the line on which it starts.
-/

set_option autoImplicit false

namespace CatalogueSync

/-- The delimited units of the template language. -/
inductive UnitKind where
  | tag
  | output
  | comment
  deriving DecidableEq

namespace UnitKind

/-- The character after the brace that opens a unit. -/
def openMark : UnitKind → Char
  | tag => '%'
  | output => '{'
  | comment => '#'

/-- The character before the brace that closes a unit. -/
def closeMark : UnitKind → Char
  | tag => '%'
  | output => '}'
  | comment => '#'

/-- The two characters that open a unit. -/
def opener (k : UnitKind) : Text :=
  ['{', k.openMark]

/-- The two characters that close a unit. -/
def closer (k : UnitKind) : Text :=
  [k.closeMark, '}']

/-- The kind of unit that a character after a brace opens. -/
def ofMark? (c : Char) : Option UnitKind :=
  if c = '%' then some tag
  else if c = '{' then some output
  else if c = '#' then some comment
  else none

/-- Whether quoted literals inside a unit hide its closer: in all units but comments. -/
def quotes : UnitKind → Bool
  | comment => false
  | _ => true

/-- The kinds of unit, in the order in which their openers are tried. -/
def all : List UnitKind :=
  [tag, output, comment]

theorem eq_openMark_of_ofMark? {c : Char} {k : UnitKind} (h : ofMark? c = some k) :
    c = k.openMark := by
  unfold ofMark? at h
  split at h
  · cases h
    assumption
  · split at h
    · cases h
      assumption
    · split at h
      · cases h
        assumption
      · cases h

end UnitKind

/-- The kinds of token. -/
inductive TokenKind where
  | text
  | unit (kind : UnitKind)
  deriving DecidableEq

/-- A piece of a text: its kind, its exact characters and the line it starts on, from 1. -/
structure Token where
  kind : TokenKind
  raw : Text
  line : Nat
  deriving DecidableEq

namespace Token

/-- The content of a token: a text as it is, a unit trimmed and without its delimiters, which are
the two bytes at either end. -/
def body (t : Token) : Text :=
  match t.kind with
  | .text => t.raw
  | .unit _ =>
    let content? := (Text.splitBytes? 2 t.raw).bind fun opened =>
      (Text.splitBytes? (t.raw.byteLength - 4) opened.2).map Prod.fst
    Text.trim (content?.getD [])

/-- Whether a token is text of whitespace only. -/
def isBlank (t : Token) : Bool :=
  t.kind = .text && Text.isBlank t.raw

/-- The opener at the start of a text token: a unit that is never closed. -/
def unclosed? (t : Token) : Option UnitKind :=
  if t.kind = .text then UnitKind.all.find? fun k => k.opener.isPrefixOf t.raw else none

end Token

end CatalogueSync
