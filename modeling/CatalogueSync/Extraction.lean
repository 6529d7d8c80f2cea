import CatalogueSync.Catalogue.Entry
import CatalogueSync.Wording

/-!
# Messages of templates

A template asks for a message with a `trans` block or with an inline literal piped into `trans`.
Blocks and literals without text ask for nothing. The messages of all templates, in order, make
the reference catalogue: a key that comes again adds its place to the message and is a collision
when its plural or its comment differ from those of the first.
-/

set_option autoImplicit false

namespace CatalogueSync

/-- A template: the path that messages name as their place, and its text. -/
structure Template where
  path : Text
  text : Text
  deriving DecidableEq

namespace Template

/-- A place in a template. -/
def place (path : Text) (line : Nat) : Text :=
  path ++ "#L".toList ++ Text.ofNat line

/-- Whether a text holds an opener or a closer of any unit. -/
def holdsDelimiter (s : Text) : Bool :=
  UnitKind.all.any fun k => Text.contains k.opener s || Text.contains k.closer s

/-- Reads the messages that a template's tokens ask for. -/
def readMessages (path : Text) (ts : List Token) : Except ParseError (List Message) :=
  match ts with
  | [] => .ok []
  | t :: ts =>
    match t.tag? [TagName.trans] with
    | some opening =>
      match _h : readWording TagName.endtrans opening.line (takeComment ts).2 with
      | .error e => .error e
      | .ok (w, rest) =>
        (readMessages path rest).map fun ms =>
          if w.singular.isEmpty then ms
          else ⟨w.singular, [place path t.line], w.plural, (takeComment ts).1⟩ :: ms
    | none =>
      match t.inlineLiteral? with
      | some literal =>
        let key := Text.trim literal
        if holdsDelimiter key then .error (.delimiterInLiteral t.line key)
        else
          (readMessages path ts).map fun ms =>
            if key.isEmpty then ms else ⟨key, [place path t.line], none, none⟩ :: ms
      | none => readMessages path ts
termination_by ts.length
decreasing_by
  · have h₁ := readWording_length_lt _h
    have h₂ := takeComment_length_le ts
    simp
    omega
  · simp
  · simp

/-- The messages of a template, in the order of the text. -/
def messages (t : Template) : Except ParseError (List Message) :=
  readMessages t.path (scan t.text)

/-- The messages of several templates. The first template that cannot be read decides. -/
def allMessages : List Template → Except FileError (List Message)
  | [] => .ok []
  | t :: ts =>
    match t.messages with
    | .error cause => .error ⟨t.path, cause⟩
    | .ok ms => (allMessages ts).map (ms ++ ·)

end Template

/-- A key that came again with a different plural or comment. -/
structure Collision where
  key : Text
  /-- The place of the message that was kept. -/
  keptSource : Text
  /-- The place of the message whose plural and comment were dropped. -/
  droppedSource : Text
  deriving DecidableEq

/-- The stored message with the places of another one appended. -/
def Message.appendSources (stored m : Message) : Message :=
  { stored with sources := stored.sources ++ m.sources }

theorem Message.key_appendSources (stored m : Message) :
    Keyed.key (stored.appendSources m) = Keyed.key stored := rfl

/-- The reference catalogue of some templates, and the collisions met on the way. -/
structure Extraction where
  catalogue : ReferenceCatalogue
  collisions : List Collision

namespace Extraction

/-- The extraction of no message. -/
def empty : Extraction :=
  ⟨Catalogue.empty, []⟩

/-- The collision of a stored message with a later one of the same key. -/
def collision? (stored m : Message) : Option Collision :=
  if stored.plural = m.plural ∧ stored.comment = m.comment then none
  else some ⟨stored.key, stored.sources.headD [], m.sources.headD []⟩

/-- Adds a message. -/
def record (x : Extraction) (m : Message) : Extraction :=
  ⟨(x.catalogue.insertOrMerge Message.appendSources m).1,
    x.collisions ++ ((x.catalogue.get? m.key).bind fun stored => collision? stored m).toList⟩

/-- The extraction of a list of messages. -/
def ofMessages (ms : List Message) : Extraction :=
  ms.foldl record empty

/-- The extraction of a list of templates. -/
def ofTemplates (ts : List Template) : Except FileError Extraction :=
  (Template.allMessages ts).map ofMessages

end Extraction

end CatalogueSync
