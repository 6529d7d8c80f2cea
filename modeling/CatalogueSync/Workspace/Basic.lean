import CatalogueSync.FileTree
import CatalogueSync.Path

/-!
# Workspaces

A workspace is a file tree seen from a working directory: paths are followed from there, segment
by segment, and every segment but the last must lead from a directory. Paths and names have
limits, and no name has a null character. A workspace answers what stands at a path and reads
texts.
-/

set_option autoImplicit false

namespace CatalogueSync

/-- A file tree and the working directory in it. -/
structure Workspace where
  tree : FileTree
  home : Location

namespace Workspace

/-- The location that a path is followed from. -/
def start (w : Workspace) (p : Path) : Location :=
  if p.isAbsolute then [] else w.home

/-- Where a segment leads from a directory. The directory above the top is the top. -/
def step (dir : Location) (segment : Text) : Location :=
  if Path.isStill segment then dir
  else if segment = ['.', '.'] then dir.dropLast
  else dir ++ [segment]

/-- Follows segments from a location. -/
def follow (t : FileTree) (loc : Location) : List Text → Except IoError Location
  | [] => .ok loc
  | s :: ss =>
    match t.node? loc with
    | none => .error .notFound
    | some (.file _) => .error .notADirectory
    | some .directory =>
      if Path.isLongName s then .error .nameTooLong else follow t (step loc s) ss

/-- Whether a segment leads nowhere but down, by a name that is not too long. -/
def isDownward (segment : Text) : Bool :=
  segment != ['.', '.'] && !Path.isLongName segment

/-- Follows segments from a location as `follow` does, but looks only at the end when all of them
lead downward to a directory. -/
def reach (t : FileTree) (loc : Location) (ss : List Text) : Except IoError Location :=
  let target := loc ++ ss.filter fun s => !Path.isStill s
  if ss.all isDownward ∧ t.node? target = some .directory then .ok target else follow t loc ss

theorem follow_of_downward {t : FileTree} {loc : Location} {ss : List Text}
    (hs : ss.all isDownward)
    (ht : t.node? (loc ++ ss.filter fun s => !Path.isStill s) = some .directory) :
    follow t loc ss = .ok (loc ++ ss.filter fun s => !Path.isStill s) := by
  induction ss generalizing loc with
  | nil => simp [follow]
  | cons s ss ih =>
    have hloc := FileTree.node?_of_node?_append_append ht
    simp only [List.all_cons, isDownward, Bool.and_eq_true, bne_iff_ne, ne_eq,
      Bool.not_eq_true'] at hs
    obtain ⟨⟨hup, hlong⟩, hs⟩ := hs
    cases hstill : Path.isStill s with
    | true =>
      have := ih hs (by simpa [hstill] using ht)
      simp [follow, hloc, hlong, step, hstill, this]
    | false =>
      have := @ih (loc ++ [s]) hs (by simpa [hstill] using ht)
      simp [follow, hloc, hlong, step, hstill, hup, this]

/-- A path is reached where it is followed to. -/
theorem reach_eq_follow (t : FileTree) (loc : Location) (ss : List Text) :
    reach t loc ss = follow t loc ss := by
  simp only [reach]
  split
  · rename_i h
    exact (follow_of_downward h.1 h.2).symm
  · rfl

/-- Why a path cannot be followed, whatever the tree is. -/
def obstacle? (p : Path) : Option IoError :=
  if p.isImpossible then some .impossibleName
  else if p.isLong then some .nameTooLong
  else if p.isEmpty then some .notFound
  else none

/-- The location that a path leads to, whether or not something stands there. -/
def locate (w : Workspace) (p : Path) : Except IoError Location :=
  match obstacle? p with
  | some e => .error e
  | none => reach w.tree (w.start p) p.segments

/-- What stands at a path, and where that is. -/
def find (w : Workspace) (p : Path) : Except IoError (Location × Node) :=
  match w.locate p with
  | .error e => .error e
  | .ok loc =>
    match w.tree.node? loc with
    | none => .error .notFound
    | some node => .ok (loc, node)

/-- What stands at a path. -/
def node? (w : Workspace) (p : Path) : Option Node :=
  match w.find p with
  | .ok (_, node) => some node
  | .error _ => none

/-- Whether anything stands at a path. -/
def hasNode (w : Workspace) (p : Path) : Bool :=
  (w.node? p).isSome

/-- Whether a directory stands at a path. -/
def isDirectory (w : Workspace) (p : Path) : Bool :=
  w.node? p = some .directory

/-- Whether a file stands at a path. -/
def isFile (w : Workspace) (p : Path) : Bool :=
  match w.node? p with
  | some (.file _) => true
  | _ => false

/-- Reads the text of the file at a path. -/
def readText (w : Workspace) (p : Path) : Except IoError Text :=
  match w.find p with
  | .error e => .error e
  | .ok (_, .directory) => .error .isADirectory
  | .ok (_, .file contents) =>
    match contents.toText? with
    | some s => .ok s
    | none => .error .notText

end Workspace

end CatalogueSync
