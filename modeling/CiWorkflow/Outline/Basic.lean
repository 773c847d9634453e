import CiWorkflow.Tree.Workflow

/-!
# Outlines

What a workflow or an action declares: its jobs and steps, what it uses, its interface, and which job needs which.
-/

namespace CiWorkflow

open CiWorkflow.Tree (Document)

/-- The answers to the usual questions about a document. All lists are in the order of the document, and the dependencies
in the order of the jobs' names. -/
structure Outline where
  document : Document
  jobs : List Nat
  steps : List Nat
  uses : List Nat
  inputs : List Nat
  secrets : List Nat
  outputs : List Nat
  env : List Nat
  needs : List (String × List String)
  deriving Repr

namespace Outline

/-- Whether a node is an entry of a `block` that declares an interface: one at the top level, or below a trigger. -/
def isInterfaceEntry (d : Document) (block : String) (n : Nat) : Bool :=
  match d.parent? n with
  | none => false
  | some p =>
    d.keyIs block p && (d.identifier? n).isSome &&
      (((d.parent? p).map fun owner => (d.parent? owner).isNone).getD false || (d.onBlock? p).isSome)

/-- The jobs that a job node says it needs. -/
def needsAt (d : Document) (job : Nat) : List String :=
  ((d.child? job "needs").map d.dependencies).getD []

/-- The dependencies of all jobs; of jobs with one name, the last one counts. -/
def needsGraph (d : Document) (jobs : List Nat) : List (String × List String) :=
  jobs.foldl (fun acc j =>
    match d.key? j with
    | none => acc
    | some name => Text.bindSorted name (needsAt d j) acc) []

/-- The outline of a document. -/
def ofDocument (d : Document) : Outline :=
  let all := d.select Document.root
  let jobs := d.jobsBelow Document.root
  { document := d
    jobs
    steps := d.stepsBelow Document.root
    uses := all (d.keyIs "uses")
    inputs := all (isInterfaceEntry d "inputs")
    secrets := all (isInterfaceEntry d "secrets")
    outputs := all (isInterfaceEntry d "outputs")
    env := all fun n => d.parentKeyIs "env" n && (d.key? n).isSome
    needs := needsGraph d jobs }

variable (o : Outline)

/-- The names of the jobs. -/
def jobNames : List String := o.jobs.filterMap o.document.key?

/-- The first job with this name, up to case. -/
def job? (name : String) : Option Nat := o.jobs.find? (o.document.hasKey name)

/-- The values of all `uses` entries, each once, in the order of the document. -/
def references : List String :=
  (o.uses.filterMap o.document.valueOrChildValue?).foldl (fun acc v => if acc.contains v then acc else acc ++ [v]) []

/-- What the job with exactly this name needs. -/
def needsOf (name : String) : List String := (o.needs.lookup name).getD []

/-- The jobs that are needed but not there, with the job that needs them. -/
def unknownNeeds : List (String × String) :=
  o.needs.flatMap fun (job, needed) =>
    (needed.filter fun dep => (o.needs.lookup dep).isNone).map fun dep => (job, dep)

end Outline

end CiWorkflow
