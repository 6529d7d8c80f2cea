import CatalogueSync.Path
import CatalogueSync.Text.Order

/-!
# File trees

A file tree says for every location whether a directory or a file is there. A location is the
list of names from the top, and the top is always a directory. Every other thing in the tree has
a name and stands in a directory: a tree cannot be built otherwise.
-/

set_option autoImplicit false

namespace CatalogueSync

/-- Why files cannot be read or written. -/
inductive IoError where
  | notFound
  | notADirectory
  | isADirectory
  | alreadyExists
  | busy
  /-- The path or one of its names is longer than paths and names can be. -/
  | nameTooLong
  /-- The path has a character that no name can have. -/
  | impossibleName
  /-- A file cannot be moved to a path with a character that no name can have. -/
  | invalidTarget
  | notText
  deriving DecidableEq

/-- The wording of the operating system. -/
def IoError.message : IoError → String
  | notFound => "No such file or directory (os error 2)"
  | notADirectory => "Not a directory (os error 20)"
  | isADirectory => "Is a directory (os error 21)"
  | alreadyExists => "File exists (os error 17)"
  | busy => "Device or resource busy (os error 16)"
  | nameTooLong => "File name too long (os error 36)"
  | impossibleName => "file name contained an unexpected NUL byte"
  | invalidTarget => "Invalid argument (os error 22)"
  | notText => "stream did not contain valid UTF-8"

/-- The contents of a file: a text, or bytes that are no text in UTF-8. -/
inductive Contents where
  | text (t : Text)
  | binary (bytes : List UInt8)
  deriving DecidableEq

namespace Contents

/-- The contents that some bytes make. -/
def ofBytes (bytes : ByteArray) : Contents :=
  match String.fromUTF8? bytes with
  | some s => text s.toList
  | none => binary bytes.toList

/-- The bytes of some contents. -/
def toBytes : Contents → ByteArray
  | text t => (String.ofList t).toUTF8
  | binary bytes => ⟨bytes.toArray⟩

/-- The text of some contents. -/
def toText? : Contents → Option Text
  | text t => some t
  | binary _ => none

/-- Whether the first byte is that of a plus sign. -/
def startsWithPlus : Contents → Bool
  | text t => t.head? = some '+'
  | binary bytes => bytes.head? = some 43

end Contents

/-- What stands at a location. -/
inductive Node where
  | directory
  | file (contents : Contents)
  deriving DecidableEq

/-- The names from the top of a tree to something in it. -/
abbrev Location := List Text

/-- A tree of directories and files, but for its top. -/
structure FileTree where
  nodes : Std.TreeMap Location Node Text.compareAll
  named : ∀ loc ∈ nodes, loc ≠ [] ∧ ∀ name ∈ loc, Path.IsEntryName name
  closed : ∀ dir name, dir ++ [name] ∈ nodes → dir = [] ∨ nodes[dir]? = some .directory

namespace FileTree

/-- The tree with nothing but its top. -/
def empty : FileTree where
  nodes := {}
  named := by simp
  closed := by simp

instance : Inhabited FileTree :=
  ⟨empty⟩

/-- What stands at a location. -/
def node? (t : FileTree) (loc : Location) : Option Node :=
  if loc.isEmpty then some .directory else t.nodes[loc]?

/-- Everything in the tree but its top, in the order of the locations. -/
def entries (t : FileTree) : List (Location × Node) :=
  t.nodes.toList

/-- A tree with something at a location put in. -/
def withNode (t : FileTree) (dir : Location) (name : Text) (node : Node)
    (hname : Path.IsEntryName name) (hd : t.node? dir = some .directory)
    (hn : node = .directory ∨ t.node? (dir ++ [name]) ≠ some .directory) : FileTree where
  nodes := t.nodes.insert (dir ++ [name]) node
  named := by
    intro loc h
    rw [Std.TreeMap.mem_insert, Std.LawfulEqCmp.compare_eq_iff_eq] at h
    rcases h with rfl | h
    · refine ⟨by simp, List.forall_mem_append.2 ⟨?_, by simpa using hname⟩⟩
      unfold node? at hd
      split at hd
      · simp_all
      · exact (t.named dir (Std.TreeMap.mem_iff_isSome_getElem?.2 (by simp [hd]))).2
    · exact t.named loc h
  closed := by
    intro d n h
    rw [Std.TreeMap.mem_insert, Std.LawfulEqCmp.compare_eq_iff_eq] at h
    rw [Std.TreeMap.getElem?_insert]
    rcases h with h | h
    · obtain ⟨rfl, -⟩ : dir = d ∧ name = n := by simpa using h
      rw [if_neg (by rw [Std.LawfulEqCmp.compare_eq_iff_eq]; simp)]
      unfold node? at hd
      split at hd
      · exact .inl (by simp_all)
      · exact .inr hd
    · rcases t.closed d n h with h | h
      · exact .inl h
      · refine .inr ?_
        split
        · rename_i he
          rw [Std.LawfulEqCmp.compare_eq_iff_eq] at he
          rcases hn with hn | hn
          · rw [hn]
          · rw [he] at hn
            unfold node? at hn
            split at hn <;> simp_all
        · exact h

/-- Makes a directory. -/
def makeDirectory (t : FileTree) (dir : Location) (name : Text) (hname : Path.IsEntryName name) :
    Except IoError FileTree :=
  match h : t.node? dir with
  | none => .error .notFound
  | some (.file _) => .error .notADirectory
  | some .directory =>
    if (t.node? (dir ++ [name])).isSome then .error .alreadyExists
    else .ok (t.withNode dir name .directory hname h (.inl rfl))

/-- Puts a file in the place of whatever file is there. -/
def putFile (t : FileTree) (dir : Location) (name : Text) (contents : Contents)
    (hname : Path.IsEntryName name) : Except IoError FileTree :=
  match h : t.node? dir with
  | none => .error .notFound
  | some (.file _) => .error .notADirectory
  | some .directory =>
    if h' : t.node? (dir ++ [name]) = some .directory then .error .isADirectory
    else .ok (t.withNode dir name (.file contents) hname h (.inr h'))

/-- A tree with a directory at a location and the directories above it, unless a file is in the
way. The names are given from the last to the first. -/
def withDirectory (t : FileTree) :
    (names : List Text) → (∀ name ∈ names, Path.IsEntryName name) → FileTree
  | [], _ => t
  | name :: above, h =>
    let dir := above.reverse
    if t.node? (dir ++ [name]) = some .directory then t
    else
      let t' := t.withDirectory above fun other hmem => h other (List.mem_cons_of_mem _ hmem)
      match t'.makeDirectory dir name (h name List.mem_cons_self) with
      | .ok t'' => t''
      | .error _ => t'

/-- A tree with a file at a location and the directories above it, unless something else is in the
way. The names are given from the last to the first. -/
def withFile (t : FileTree) (contents : Contents) :
    (names : List Text) → (∀ name ∈ names, Path.IsEntryName name) → FileTree
  | [], _ => t
  | name :: above, h =>
    let t' := t.withDirectory above fun other hmem => h other (List.mem_cons_of_mem _ hmem)
    match t'.putFile above.reverse name contents (h name List.mem_cons_self) with
    | .ok t'' => t''
    | .error _ => t'

/-- A tree with something at a location and the directories above it, unless something else is
in the way. Nothing can be at a location with a name that nothing can have. -/
def withEntry (t : FileTree) (loc : Location) (node : Node) : FileTree :=
  if h : ∀ name ∈ loc.reverse, Path.IsEntryName name then
    match node with
    | .directory => t.withDirectory loc.reverse h
    | .file contents => t.withFile contents loc.reverse h
  else t

/-- The tree of some entries, put in one after the other. -/
def ofEntries (es : List (Location × Node)) : FileTree :=
  es.foldl (fun t e => t.withEntry e.1 e.2) empty

/-- The files below a location: the names from there to each, and its contents, in the order of
the names. -/
def filesBelow (t : FileTree) (root : Location) : List (List Text × Contents) :=
  t.entries.filterMap fun e =>
    match e.2 with
    | .directory => none
    | .file contents => if root.isPrefixOf e.1 then some (e.1.drop root.length, contents) else none

/-- The names of the files that stand in a directory, in ascending order. -/
def fileNames (t : FileTree) (dir : Location) : List Text :=
  (t.filesBelow dir).filterMap fun e =>
    match e.1 with
    | [name] => some name
    | _ => none

@[simp]
theorem node?_nil (t : FileTree) : t.node? [] = some .directory := rfl

/-- What is in a tree has a name, and so has every directory above it. -/
theorem isEntryName_of_node? {t : FileTree} {loc : Location} {node : Node}
    (h : t.node? loc = some node) : ∀ name ∈ loc, Path.IsEntryName name := by
  unfold node? at h
  split at h
  · simp_all
  · exact (t.named loc (Std.TreeMap.mem_iff_isSome_getElem?.2 (by simp [h]))).2

/-- Where something stands there is a directory around it. -/
theorem node?_of_node?_append {t : FileTree} {dir : Location} {name : Text} {node : Node}
    (h : t.node? (dir ++ [name]) = some node) : t.node? dir = some .directory := by
  have hm : dir ++ [name] ∈ t.nodes := by
    rw [Std.TreeMap.mem_iff_isSome_getElem?]
    simp_all [node?]
  rcases t.closed dir name hm with h | h
  · simp [h]
  · unfold node?
    split
    · rfl
    · exact h

/-- Where something stands there are directories all the way to it. -/
theorem node?_of_node?_append_append {t : FileTree} {dir names : Location}
    (h : t.node? (dir ++ names) = some .directory) : t.node? dir = some .directory := by
  induction names generalizing dir with
  | nil => simpa using h
  | cons name names ih => exact node?_of_node?_append (ih (by simpa using h))

theorem node?_withNode {t : FileTree} {dir : Location} {name : Text} {node : Node}
    {hname : Path.IsEntryName name} {hd : t.node? dir = some .directory}
    {hn : node = .directory ∨ t.node? (dir ++ [name]) ≠ some .directory} (loc : Location) :
    (t.withNode dir name node hname hd hn).node? loc =
      if loc = dir ++ [name] then some node else t.node? loc := by
  unfold node? withNode
  simp only [Std.TreeMap.getElem?_insert, Std.LawfulEqCmp.compare_eq_iff_eq]
  by_cases he : loc = dir ++ [name]
  · simp [he]
  · simp [he, Ne.symm he]

end FileTree

end CatalogueSync
