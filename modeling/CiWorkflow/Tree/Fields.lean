import CiWorkflow.Text.Blank
import CiWorkflow.Tree.Navigation

/-!
# Fields

An entry of a mapping with a scalar value is a field. Nodes are named by their key, their `id` field or their `name`
field.
-/

namespace CiWorkflow.Tree

namespace Document

variable (d : Document)

/-- The text of the first child. -/
def childText? (n : Nat) : Option String := (d.children n).head?.bind d.text?

/-- The value of the first child. -/
def childValue? (n : Nat) : Option String := (d.children n).head?.bind d.value?

/-- The node's own text, else that of its first child. -/
def textOrChildText? (n : Nat) : Option String := (d.text? n).orElse fun _ => d.childText? n

/-- The node's own value, else that of its first child. -/
def valueOrChildValue? (n : Nat) : Option String := (d.value? n).orElse fun _ => d.childValue? n

/-- The value of a field. -/
def field? (n : Nat) (key : String) : Option String := (d.child? n key).bind d.childValue?

/-- The first child whose `id` field has this value, up to case. -/
def childWithId? (n : Nat) (id : String) : Option Nat :=
  (d.children n).find? fun c => ((d.field? c "id").map (Text.sameAscii id)).getD false

/-- The `description` field, else the `desc` field, without blanks at its end. -/
def description? (n : Nat) : Option String :=
  (((d.child? n "description").orElse fun _ => d.child? n "desc").bind d.childValue?).map Text.trimStringEnd

/-- Whether the `required` field says `true`. -/
def required (n : Nat) : Bool := ((d.field? n "required").map (Text.sameAscii "true")).getD false

/-- The key, else the `id` field, else the `name` field. -/
def identifier? (n : Nat) : Option String :=
  (d.key? n).orElse fun _ => (d.field? n "id").orElse fun _ => d.field? n "name"

/-- The identifiers from below the root down to the node. -/
def pathSegments (n : Nat) : List String :=
  ((n :: d.ancestors n).filter fun m => (d.parent? m).isSome).reverse.filterMap d.identifier?

/-- The identifiers from below the root down to the node, with slashes between them. -/
def path (n : Nat) : String := String.intercalate "/" (d.pathSegments n)

end Document

end CiWorkflow.Tree
