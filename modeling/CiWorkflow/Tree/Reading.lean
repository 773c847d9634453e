import CiWorkflow.Failure
import CiWorkflow.Tree.OfConcrete
import CiWorkflow.Yaml.Stream
import CiWorkflow.Yaml.Value

/-!
# Reading documents

A document is read by its layout alone. A manifest, which is content fetched from elsewhere, must also have a mapping as its
first document when its values are read.
-/

namespace CiWorkflow.Tree

namespace Document

/-- The document that a text lays out. -/
def ofText (text : String) : Except ContentFault Document :=
  match Yaml.ConcreteTree.ofText? text.toList with
  | none => .error .malformed
  | some t => .ok (ofConcrete text t)

/-- The document of a manifest. -/
def ofManifest (text : String) : Except ContentFault Document :=
  match Yaml.Value.ofText? text.toList with
  | none => .error .refused
  | some v => if v.isMapping then ofText text else .error .notMapping

end Document

end CiWorkflow.Tree
