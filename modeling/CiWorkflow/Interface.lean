import CiWorkflow.Reference.Basic
import CiWorkflow.Tree.Workflow

/-!
# Declared interfaces

What a manifest says can be handed to it and what it hands back: the entries of its `inputs` and `outputs` blocks, with
their descriptions. In a workflow only blocks of a trigger count.
-/

namespace CiWorkflow

open CiWorkflow.Tree (Document)

/-- Descriptions by name, ascending by name. -/
abbrev Parameters := List (String × String)

/-- The parameters of a manifest. -/
structure Interface where
  inputs : Parameters := []
  outputs : Parameters := []
  deriving DecidableEq, Repr, Inhabited

namespace Interface

/-- Whether a node stands right below a `block`, which for a workflow must be one that a trigger has. -/
def isParameter (d : Document) (workflow : Bool) (block : String) (n : Nat) : Bool :=
  match d.parent? n with
  | none => false
  | some p => d.keyIs block p && (!workflow || ((d.parent? p).bind d.parent?).bind d.key? == some "on")

/-- Adds a parameter under a name that is not there yet. -/
def declare (ps : Parameters) (name description : String) : Parameters :=
  if (ps.lookup name).isSome then ps else Text.bindSorted name description ps

/-- The parameters of a block. Of entries with one name the first one counts, and entries without a name do not. -/
def parameters (d : Document) (workflow : Bool) (block : String) : Parameters :=
  (d.select Document.root (isParameter d workflow block)).foldl (fun ps n =>
    match d.identifier? n with
    | none => ps
    | some name => if name = "" then ps else declare ps name ((d.description? n).getD "")) []

/-- The interface of the document that a reference names. -/
def ofDocument (d : Document) (r : Reference) : Interface :=
  { inputs := parameters d r.isWorkflow "inputs", outputs := parameters d r.isWorkflow "outputs" }

end Interface

end CiWorkflow
