import CatalogueSync.Config.Json
import CatalogueSync.Session

/-!
# The search for a configuration

A project's configuration is looked for in its root and in the directories that the path of the
root leads through, from the last to the first. The search ends at the first configuration file
and does not leave a repository: it goes no further than a directory with `.git` in it.
-/

set_option autoImplicit false

namespace CatalogueSync.Config

/-- The name of what marks the top of a repository. -/
def repositoryMark : Text :=
  ".git".toList

/-- The configuration file that holds for a directory. -/
def search? (w : Workspace) (dir : Path) : Option Path :=
  if w.hasNode (dir.join (.ofText fileName)) then some (dir.join (.ofText fileName))
  else if w.hasNode (dir.join (.ofText repositoryMark)) then none
  else
    match _h : dir.parent? with
    | none => none
    | some above => search? w above
termination_by dir.components.length
decreasing_by exact Path.components_length_parent?_lt _h

/-- Reads a configuration file and checks that it can be used. -/
def read (w : Workspace) (file : Path) : Except Failure Config :=
  match w.readText file with
  | .error cause => .error (.configFile cause)
  | .ok s =>
    match parse? s with
    | none => .error (.malformedConfig file)
    | some c =>
      match c.error? with
      | some cause => .error (.unusableConfig cause)
      | none => .ok c

/-- The configuration that holds for a directory. -/
def load (w : Workspace) (dir : Path) : Reported Config :=
  match search? w dir with
  | some file => .ofExcept (read w file)
  | none => ⟨[.defaultConfig], .ok default⟩

end CatalogueSync.Config
