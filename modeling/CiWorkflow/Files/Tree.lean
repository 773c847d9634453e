import CiWorkflow.Failure
import CiWorkflow.Files.Path

/-!
# File trees

Directories and files by the names that lead to them from the top. A directory is there when it was made or when something
lies in it. Paths are followed from a working directory, and `..` leads to the directory around one that is there.
-/

namespace CiWorkflow.Files

/-- What a file holds. -/
inductive Content where
  | text (s : String)
  /-- bytes that are no text -/
  | bytes
  deriving DecidableEq, Repr

/-- Why a file cannot be read as a text. -/
inductive ReadFault where
  | notFound
  /-- something that has to be a directory is a file -/
  | notDirectory
  /-- the file is a directory -/
  | isDirectory
  /-- the bytes are no text -/
  | notText
  /-- no file can have this name -/
  | badName
  /-- the file may not be read -/
  | denied
  /-- anything else -/
  | other (message : String)
  deriving DecidableEq, Repr

namespace ReadFault

/-- The kind of input failure. -/
def ioKind : ReadFault → IoKind
  | notFound => .notFound
  | denied => .permissionDenied
  | _ => .other

def message : ReadFault → String
  | notFound => "No such file or directory"
  | notDirectory => "Not a directory"
  | isDirectory => "Is a directory"
  | notText => "stream did not contain valid UTF-8"
  | badName => "Invalid file name"
  | denied => "Permission denied"
  | other m => m

end ReadFault

/-- The names that lead to a file from the top. -/
abbrev Place := List String

/-- Entries by place; a directory has no content. -/
structure FileTree where
  entries : List (Place × Option Content) := []
  deriving Repr

namespace FileTree

variable (t : FileTree)

def file? (p : Place) : Option Content := (t.entries.find? fun e => e.1 == p && e.2.isSome).bind Prod.snd

def isFile (p : Place) : Bool := (t.file? p).isSome

def isDirectory (p : Place) : Bool :=
  p.isEmpty || t.entries.any fun e => p.isPrefixOf e.1 && (e.1 != p || e.2.isNone)

/-- Follows names from a place. Every place on the way has to be a directory. -/
def walk : Place → List String → Except ReadFault Place
  | p, [] => .ok p
  | p, s :: r =>
    if !t.isDirectory p then .error (if t.isFile p then .notDirectory else .notFound)
    else if s = "" ∨ s = "." then walk p r
    else if s = parentName then walk p.dropLast r
    else walk (p ++ [s]) r

/-- The longest name that a file can have, in bytes. -/
def nameLimit : Nat := 255

/-- Where a path leads from a working directory. -/
def locate (cwd : Place) (path : String) : Except ReadFault Place :=
  let names := (path.toList.splitOn '/').map String.ofList
  if path = "" then .error .notFound
  else if path.toList.contains '\x00' || names.any (fun s => nameLimit < s.utf8ByteSize) then .error .badName
  else t.walk (if isAbsolute path then [] else cwd) names

/-- Whether there is something at a path. -/
def isThere (cwd : Place) (path : String) : Bool :=
  match t.locate cwd path with
  | .ok p => t.isFile p || t.isDirectory p
  | .error _ => false

def isDirectoryAt (cwd : Place) (path : String) : Bool :=
  match t.locate cwd path with
  | .ok p => t.isDirectory p
  | .error _ => false

def isFileAt (cwd : Place) (path : String) : Bool :=
  match t.locate cwd path with
  | .ok p => t.isFile p
  | .error _ => false

/-- The text of the file at a path. -/
def readText (cwd : Place) (path : String) : Except ReadFault String := do
  let p ← t.locate cwd path
  match t.file? p with
  | some (.text s) => .ok s
  | some .bytes => .error .notText
  | none => .error (if t.isDirectory p then .isDirectory else .notFound)

/-- The names right inside a directory, each once. -/
def namesIn (p : Place) : List String :=
  (t.entries.filterMap fun e => if p.isPrefixOf e.1 then (e.1.drop p.length).head? else none).eraseDups

/-- Adds a file, or gives it another content. -/
def write (p : Place) (c : Content) : FileTree :=
  ⟨(p, some c) :: t.entries.filter fun e => e.1 != p⟩

def makeDirectory (p : Place) : FileTree := if t.isDirectory p then t else ⟨(p, none) :: t.entries⟩

/-- Takes a file away. The directory around it stays. -/
def remove (p : Place) : FileTree :=
  FileTree.makeDirectory ⟨t.entries.filter fun e => e.1 != p || e.2.isNone⟩ p.dropLast

end FileTree

end CiWorkflow.Files
