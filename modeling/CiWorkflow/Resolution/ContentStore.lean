import CiWorkflow.Files.Tree
import CiWorkflow.NamedCache
import CiWorkflow.Reference.Key
import CiWorkflow.Time.Instant

/-!
# Content stores

Fetched content is kept in files of one directory, each with the instant it was written at, so that it need not be fetched
again while it is fresh.
-/

namespace CiWorkflow.Resolution

open Time (Instant)
open Files (Content)

/-- A file of kept content. -/
structure ContentFile where
  content : Content
  written : Instant
  deriving DecidableEq, Repr

/-- The files of the directory by name. -/
abbrev ContentStore := NamedCache ContentFile

namespace ContentStore

/-- The extension of files that the store writes. -/
def extension : String := "yml"

/-- The file that keeps the content of a reference. Only what lies in repositories is kept. -/
def fileName? (r : Reference) : Option String :=
  if r.isLocal || !r.isResolvable then none else some (r.contentKey ++ "." ++ extension)

variable (s : ContentStore)

/-- The text in a file written less than `seconds` ago. -/
def fresh? (seconds : Nat) (now : Instant) (name : String) : Option String :=
  match s.get? name with
  | some ⟨.text t, written⟩ => if written.isYoungerThan now seconds then some t else none
  | _ => none

/-- Writes a text. A name that no file can have is left. -/
def write (name : String) (text : String) (now : Instant) : ContentStore :=
  if name.utf8ByteSize ≤ Files.FileTree.nameLimit then s.insert name ⟨.text text, now⟩ else s

/-- Whether `purge` takes a file. -/
def isPurged (name : String) : Bool := Files.extension? name == some extension

/-- Removes all files that the store may have written, and counts them. -/
def purge : Nat × ContentStore :=
  ((s.entries.filter fun e => isPurged e.1).length, ⟨s.entries.filter fun e => !isPurged e.1⟩)

end ContentStore

end CiWorkflow.Resolution
