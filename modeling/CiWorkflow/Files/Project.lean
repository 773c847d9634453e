import CiWorkflow.Files.Host
import CiWorkflow.Reference.Location

/-!
# Projects

Local references are paths in a project. They must not lead out of it, and a directory stands for the manifest in it.
-/

namespace CiWorkflow.Files

/-- A project by the path of its top directory. -/
structure Project where
  root : String
  deriving DecidableEq, Repr

namespace Project

variable (p : Project)

/-- The path of a location in the project. -/
def path (location : String) : Except Failure String :=
  match inside? location with
  | none => .error (.outsideProject location)
  | some names => .ok (below p.root names)

/-- Why a directory without a manifest cannot be read. -/
def noManifest (path : String) : String :=
  "no " ++ String.intercalate " or " Reference.manifestNames ++ " in " ++ path

variable {m : Type → Type} [Monad m]

/-- The first of some names that is a file in a directory. -/
def firstFile? (host : Host m) (directory : String) : List String → m (Option String)
  | [] => pure none
  | n :: r => do
    if ← host.isFile (join directory n) then return some (join directory n)
    firstFile? host directory r

/-- The file to read for a path: the path itself, or the manifest in that directory. -/
def file (host : Host m) (location path : String) : m (Except Failure String) := do
  if ← host.isDirectory path then
    match ← firstFile? host path Reference.manifestNames with
    | some f => return .ok f
    | none => return .error (.fetchFailed location (noManifest path))
  return .ok path

/-- The text at a location in the project. -/
def fetch (host : Host m) (location : String) : m (Except Failure String) := do
  match p.path location with
  | .error f => return .error f
  | .ok path =>
    match ← file host location path with
    | .error f => return .error f
    | .ok f => return (← host.readText f).mapError fun fault => .fetchFailed location fault.message

end Project

end CiWorkflow.Files
