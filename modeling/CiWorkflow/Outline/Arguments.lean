import CiWorkflow.Interface
import CiWorkflow.Outline.Basic

/-!
# Arguments

A step or a job hands arguments to what it uses, in its `with` block. An argument that the other side does not declare is
worth a warning.
-/

namespace CiWorkflow

/-- An argument that is not declared where it goes. -/
structure UnknownArgument where
  uses : String
  input : String
  job : Option String
  line : Nat
  deriving DecidableEq, Repr

namespace Outline

variable (o : Outline)

/-- The nodes with a key right below a `with` node. -/
def arguments : List Nat :=
  o.document.select Tree.Document.root fun n => (o.document.key? n).isSome && o.document.parentKeyIs "with" n

/-- What the owner of an argument's block uses. -/
def argumentTarget? (n : Nat) : Option String :=
  ((o.document.withBlock? n).bind o.document.parent?).bind o.document.uses?

/-- The line on which a node starts, counted from one; zero for a node that stands nowhere. -/
def lineOf (n : Nat) : Nat :=
  match o.document.range? n with
  | none => 0
  | some r =>
    match Text.sliceString (o.document.source.getD "") 0 r.start with
    | none => 0
    | some before => Text.lineFeeds before.toList + 1

/-- The warning for an argument, by what is known of the things that can be used. -/
def unknownArgument? (declared? : String → Option Interface) (n : Nat) : Option UnknownArgument := do
  let uses ← o.argumentTarget? n
  let i ← declared? uses
  let input ← o.document.key? n
  if (i.inputs.lookup input).isSome then none
  else some { uses, input, job := (o.document.job? n).bind o.document.key?, line := o.lineOf n }

/-- The arguments that are not declared, in the order of the document. -/
def unknownArguments (declared? : String → Option Interface) : List UnknownArgument :=
  o.arguments.filterMap (o.unknownArgument? declared?)

end Outline

end CiWorkflow
