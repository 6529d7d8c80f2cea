import CatalogueSync.Text.Order

/-!
# Catalogues

A catalogue holds entries under their keys, in the order in which the keys were first inserted.
Beside the entries it keeps the position of every key, so that an entry is found without a
search. The two agree in every catalogue that is built by `insert` and `insertOrMerge` from the
empty one.
-/

set_option autoImplicit false

namespace CatalogueSync

/-- Entries that are stored under a key. -/
class Keyed (ε : Type) where
  /-- The key of an entry. -/
  key : ε → Text

/-- Entries in the order of their first insertion, and the position of each key. -/
structure Catalogue (ε : Type) where
  entries : List ε
  index : Std.TreeMap Text Nat Text.compare

namespace Catalogue

variable {ε : Type}

/-- The catalogue without entries. -/
def empty : Catalogue ε :=
  ⟨[], {}⟩

instance : Inhabited (Catalogue ε) :=
  ⟨empty⟩

/-- The number of entries. -/
def size (c : Catalogue ε) : Nat :=
  c.entries.length

/-- Whether there are no entries. -/
def isEmpty (c : Catalogue ε) : Bool :=
  c.entries.isEmpty

/-- The entry stored under a key. -/
def get? (c : Catalogue ε) (key : Text) : Option ε :=
  (c.index.get? key).bind fun i => c.entries[i]?

/-- Whether an entry is stored under a key. -/
def contains (c : Catalogue ε) (key : Text) : Bool :=
  c.index.contains key

variable [Keyed ε]

/-- The keys, in the order of the entries. -/
def keys (c : Catalogue ε) : List Text :=
  c.entries.map Keyed.key

/-- Appends an entry with a new key; otherwise replaces the entry stored under the key by the
merge of that entry with the given one. The flag says whether the key was new. -/
def insertOrMerge (merge : ε → ε → ε) (c : Catalogue ε) (e : ε) : Catalogue ε × Bool :=
  match c.index.get? (Keyed.key e) with
  | some i => ({ c with entries := c.entries.modify i fun stored => merge stored e }, false)
  | none => (⟨c.entries ++ [e], c.index.insert (Keyed.key e) c.entries.length⟩, true)

/-- Appends an entry with a new key and drops one whose key is known. The flag says whether the
key was new. -/
def insert (c : Catalogue ε) (e : ε) : Catalogue ε × Bool :=
  c.insertOrMerge (fun stored _ => stored) e

/-- The catalogue of a list of entries, where a later entry with a known key is merged into the
stored one. -/
def collect (merge : ε → ε → ε) (es : List ε) : Catalogue ε :=
  es.foldl (fun c e => (c.insertOrMerge merge e).1) empty

/-- The catalogue of a list of entries, where the first entry of a repeated key is kept. -/
def ofList (es : List ε) : Catalogue ε :=
  es.foldl (fun c e => (c.insert e).1) empty

end Catalogue

end CatalogueSync
