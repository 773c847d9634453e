import CiWorkflow.Text.Span

/-!
# Concrete trees of YAML texts

Every construct of a text with the bytes it spans. Comments, anchors and tags are nodes like any other; which child of
a pair is its key and which its value is told by the child's role.
-/

namespace CiWorkflow.Yaml

open Text (Span)

/-- The constructs of a YAML text. -/
inductive Kind where
  | stream
  | document
  /-- a value with its properties, written in block style -/
  | blockNode
  /-- a value with its properties, written in flow style -/
  | flowNode
  | blockMapping
  | flowMapping
  | blockSequence
  | flowSequence
  | pair
  | item
  | plain
  | singleQuoted
  | doubleQuoted
  | blockScalar
  | aliasNode
  | anchor
  | tag
  | comment
  deriving DecidableEq, Repr, Inhabited

namespace Kind

/-- Scalars and aliases: the constructs that stand for one value without parts. -/
def isScalar : Kind → Bool
  | plain | singleQuoted | doubleQuoted | blockScalar | aliasNode => true
  | _ => false

/-- Constructs that carry no content. -/
def isDecoration : Kind → Bool
  | anchor | tag | comment => true
  | _ => false

/-- Constructs after which a flow key's colon may stand without a blank. -/
def isQuotedOrFlow : Kind → Bool
  | singleQuoted | doubleQuoted | flowSequence | flowMapping => true
  | _ => false

end Kind

/-- What a child is to its parent. -/
inductive Role where
  | key
  | value
  | part
  deriving DecidableEq, Repr, Inhabited

/-- A construct, its place among its siblings, its range and its parts. -/
inductive ConcreteTree where
  | node (kind : Kind) (role : Role) (span : Span) (children : List ConcreteTree)
  deriving Repr, Inhabited

namespace ConcreteTree

def kind : ConcreteTree → Kind
  | node k _ _ _ => k

def role : ConcreteTree → Role
  | node _ r _ _ => r

def span : ConcreteTree → Span
  | node _ _ s _ => s

def children : ConcreteTree → List ConcreteTree
  | node _ _ _ cs => cs

/-- A construct without parts. -/
def leaf (kind : Kind) (start stop : Nat) : ConcreteTree :=
  node kind .part ⟨start, stop⟩ []

def withRole (r : Role) : ConcreteTree → ConcreteTree
  | node k _ s cs => node k r s cs

/-- The scalar that a value consists of, apart from its properties; `none` where it is a collection or empty. -/
def bareScalar? (t : ConcreteTree) : Option ConcreteTree :=
  if t.kind.isScalar then some t
  else if t.kind = .flowNode ∨ t.kind = .blockNode then
    (t.children.filter fun c => !c.kind.isDecoration).find? fun c => c.kind.isScalar
  else none

/-! ### Well-placed trees -/

mutual

/-- Ranges are ordered, children lie inside their parent, and siblings follow each other without overlap. -/
def WellPlaced : ConcreteTree → Prop
  | node _ _ s cs => s.start ≤ s.stop ∧ WellPlacedList s cs

def WellPlacedList (s : Span) : List ConcreteTree → Prop
  | [] => True
  | t :: ts => t.WellPlaced ∧ t.span.Within s ∧ (∀ u ∈ ts, t.span.Before u.span) ∧ WellPlacedList s ts

end

end ConcreteTree

end CiWorkflow.Yaml
