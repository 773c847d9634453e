import CiWorkflow.Text.Sorted
import CiWorkflow.Tree.Fields

/-!
# Workflow queries

In a workflow a job stands right below a `jobs` node, and a step right below a `steps` node.
-/

namespace CiWorkflow.Tree

namespace Document

variable (d : Document)

/-- Whether a node has exactly this key. -/
def keyIs (key : String) (n : Nat) : Bool := d.key? n == some key

/-- The job around a node. -/
def job? (n : Nat) : Option Nat := d.enclosing? n (d.parentKeyIs "jobs")

/-- The step around a node. -/
def step? (n : Nat) : Option Nat := d.enclosing? n (d.parentKeyIs "steps")

/-- The `outputs` block around a node. -/
def outputsBlock? (n : Nat) : Option Nat := d.enclosing? n (d.keyIs "outputs")

/-- The `with` block around a node. -/
def withBlock? (n : Nat) : Option Nat := d.enclosing? n (d.keyIs "with")

/-- The trigger block around a node. -/
def onBlock? (n : Nat) : Option Nat := d.enclosing? n (d.keyIs "on")

/-- The jobs at or below a node. -/
def jobsBelow (n : Nat) : List Nat := d.select n (d.parentKeyIs "jobs")

/-- The steps at or below a node. -/
def stepsBelow (n : Nat) : List Nat := d.select n (d.parentKeyIs "steps")

/-- The `uses` field. -/
def uses? (n : Nat) : Option String := d.field? n "uses"

/-- The `uses` field, else the `name` field. -/
def usesOrName? (n : Nat) : Option String := (d.uses? n).orElse fun _ => d.field? n "name"

/-- The job names that a `needs` node lists, ascending: its own or its first child's value and the values of its children.
Other nodes list none. -/
def dependencies (n : Nat) : List String :=
  if d.keyIs "needs" n then
    Text.sortedSet (((n :: d.children n).filterMap d.valueOrChildValue?).filter (· != ""))
  else []

end Document

end CiWorkflow.Tree
