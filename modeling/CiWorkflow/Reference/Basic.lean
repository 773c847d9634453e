import CiWorkflow.Text.Blank

/-!
# References

A step or a job uses something that stands elsewhere: an action of a repository, a workflow file of a repository, or a path
in the project itself. Any other text is kept, but names nothing.
-/

namespace CiWorkflow

/-- What a reference names. -/
inductive Target where
  /-- an action in a repository; `subpath` is empty or starts with a slash -/
  | action (owner repository subpath ref : String)
  /-- a workflow file in a repository -/
  | workflow (owner repository file ref : String)
  /-- a path in the project -/
  | inProject (path : String)
  | unparsable
  deriving DecidableEq, Repr

/-- A reference as written, and what it names. -/
structure Reference where
  raw : String
  target : Target
  deriving DecidableEq, Repr

namespace Reference

/-! ### Reading -/

/-- Whether one text occurs in another. -/
def occurs (part : List Char) : List Char → Bool
  | [] => part.isEmpty
  | c :: r => part.isPrefixOf (c :: r) || occurs part r

/-- Whether a text names a workflow file. -/
def namesWorkflow (t : List Char) : Bool := occurs ".yml".toList t || occurs ".yaml".toList t

/-- The directory of a project that holds what belongs to its workflows. -/
def controlDirectory : String := ".github"

/-- Whether a text is a path in the project: it starts with `./` and mentions the control directory. -/
def isProjectPath (t : List Char) : Bool := "./".toList.isPrefixOf t && occurs controlDirectory.toList t

/-- The text behind the last slash. -/
def lastSegment (t : List Char) : List Char := (t.reverse.takeWhile (· != '/')).reverse

/-- Drops the slashes at the end. -/
def trimSlashes (t : List Char) : List Char := (t.reverse.dropWhile (· == '/')).reverse

/-- The subpath that follows a repository: nothing, or a slash and what follows it without slashes at its end. -/
def subpathOf (t : List Char) : List Char :=
  match t with
  | [] => []
  | _ :: r => if (trimSlashes r).isEmpty then [] else '/' :: trimSlashes r

/-- What a text of the form `owner/repository…@ref` names; `workflow` tells whether it names a workflow file. -/
def remoteTarget (workflow : Bool) (path ref : List Char) : Target :=
  let owner := path.takeWhile (· != '/')
  let tail := (path.dropWhile (· != '/')).drop 1
  let repository := tail.takeWhile (· != '/')
  let rest := tail.dropWhile (· != '/')
  if owner.isEmpty || repository.isEmpty || ref.isEmpty || ref.contains '@' then .unparsable
  else if workflow then
    if (lastSegment path).isEmpty then .unparsable
    else .workflow (String.ofList owner) (String.ofList repository) (String.ofList (lastSegment path)) (String.ofList ref)
  else .action (String.ofList owner) (String.ofList repository) (String.ofList (subpathOf rest)) (String.ofList ref)

/-- What a text without blanks around it names. -/
def targetOf (t : List Char) : Target :=
  if isProjectPath t then .inProject (String.ofList t)
  else
    match t.dropWhile (· != '@') with
    | [] => .unparsable
    | _ :: ref => remoteTarget (namesWorkflow t) (t.takeWhile (· != '@')) ref

/-- Reads a reference. Blanks around it do not count. -/
def ofText (raw : String) : Reference := ⟨raw, targetOf (Text.trim raw.toList)⟩

/-! ### Parts -/

variable (r : Reference)

/-- The text without the blanks around it. -/
def text : List Char := Text.trim r.raw.toList

/-- The owner and the repository with a slash between; empty where no repository is named. -/
def slug : String :=
  match r.target with
  | .action o p _ _ | .workflow o p _ _ => o ++ "/" ++ p
  | _ => ""

/-- The branch, tag or commit; empty where no repository is named. -/
def ref : String :=
  match r.target with
  | .action _ _ _ f | .workflow _ _ _ f => f
  | _ => ""

def subpath : String :=
  match r.target with
  | .action _ _ s _ => s
  | _ => ""

/-- The repository of an action, the file of a workflow, or the last part of a path. -/
def name : String :=
  match r.target with
  | .action _ p _ _ => p
  | .workflow _ _ f _ => f
  | .inProject p => String.ofList (lastSegment (trimSlashes (p.toList.takeWhile (· != '@'))))
  | .unparsable => ""

def isLocal : Bool :=
  match r.target with
  | .inProject _ => true
  | _ => false

/-- Whether the reference names a workflow rather than an action. -/
def isWorkflow : Bool :=
  match r.target with
  | .workflow .. => true
  | .inProject p => namesWorkflow p.toList
  | _ => false

/-- Whether the reference names anything. -/
def isResolvable : Bool :=
  match r.target with
  | .unparsable => false
  | _ => true

@[simp] theorem raw_ofText (raw : String) : (ofText raw).raw = raw := rfl

end Reference

end CiWorkflow
