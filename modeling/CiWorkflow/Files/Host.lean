import CiWorkflow.Files.Tree
import CiWorkflow.Time.Instant

/-!
# Hosts

What a program needs from the machine it runs on: variables, files, the time, and texts from elsewhere. A file tree with a
working directory is a host of its own, at which the time stands still and nothing can be had from elsewhere.
-/

namespace CiWorkflow.Files

open Time (Instant)

/-- Access to a machine. Paths are followed from the working directory. -/
structure Host (m : Type → Type) where
  /-- the value of an environment variable -/
  variableNamed : String → m (Option String)
  workingDirectory : m String
  /-- whether there is a file or a directory -/
  isThere : String → m Bool
  isDirectory : String → m Bool
  isFile : String → m Bool
  readText : String → m (Except ReadFault String)
  /-- the instant a file was written at -/
  written? : String → m (Option Instant)
  /-- the names right inside a directory -/
  namesIn : String → m (Except ReadFault (List String))
  writeText : String → String → m Unit
  /-- removes a file, and tells whether that was done -/
  remove : String → m Bool
  makeDirectory : String → m Unit
  now : m Instant
  /-- the text at an address -/
  download : String → m (Except Failure String)

namespace Host

variable {m : Type → Type} [Monad m] (host : Host m)

/-- The user's directory. -/
def home? : m (Option String) := do
  return (← host.variableNamed "HOME").filter (· != "")

/-- Makes the directory that a path names its last part in. -/
def makeAround (path : String) : m Unit :=
  match directoryOf? path with
  | some d => host.makeDirectory d
  | none => return ()

end Host

namespace FileTree

/-- Why nothing can be downloaded. -/
def noNetwork : String := "there is no network"

/-- A file tree as a host, with the values of variables by name. -/
def host (cwd : Place) (values : List (String × String)) (now : Instant) : Host (StateM FileTree) where
  variableNamed name := return values.lookup name
  workingDirectory := return "/" ++ String.intercalate "/" cwd
  isThere path := return (← get).isThere cwd path
  isDirectory path := return (← get).isDirectoryAt cwd path
  isFile path := return (← get).isFileAt cwd path
  readText path := return (← get).readText cwd path
  written? path := return if (← get).isThere cwd path then some now else none
  namesIn path := do
    let t ← get
    return (t.locate cwd path).bind fun p => if t.isDirectory p then .ok (t.namesIn p) else .error .notDirectory
  writeText path text := modify fun t =>
    match t.locate cwd path with
    | .ok p => t.write p (.text text)
    | .error _ => t
  remove path := do
    let t ← get
    match t.locate cwd path with
    | .ok p => if t.isFile p then set (t.remove p); return true else return false
    | .error _ => return false
  makeDirectory path := modify fun t =>
    match t.locate cwd path with
    | .ok p => t.makeDirectory p
    | .error _ => t
  now := pure now
  download address := pure (.error (.fetchFailed address noNetwork))

end FileTree

end CiWorkflow.Files
