import CiWorkflow.Text.Slice
import CiWorkflow.Tree.Element

/-!
# Documents

A document is a tree of elements kept in one row: a node is known by its index, and the root is node `0`. Nodes are
attached below nodes that are there already, so a node comes after its parent.
-/

namespace CiWorkflow.Tree

open Text (Span)

/-- An element with its place in the tree. -/
structure Node where
  element : Element
  parent : Option Nat
  children : List Nat
  deriving DecidableEq, Repr, Inhabited

/-- The nodes in the order they were attached, and the text they were read from where there is one. -/
structure Document where
  nodes : Array Node
  source : Option String
  deriving Repr

namespace Document

/-- The root. -/
def root : Nat := 0

/-- A document of a root alone. -/
def ofRoot (e : Element) : Document := ⟨#[⟨e, none, []⟩], none⟩

/-- A document of a root alone that spans a text. -/
def ofSource (text : String) : Document :=
  ⟨#[⟨.container ⟨0, Text.byteLength text.toList⟩, none, []⟩], some text⟩

instance : Inhabited Document := ⟨ofRoot {}⟩

def size (d : Document) : Nat := d.nodes.size

/-- Whether there is nothing but the root. -/
def isBare (d : Document) : Bool := d.size == 1

def node? (d : Document) (n : Nat) : Option Node := d.nodes[n]?

def element? (d : Document) (n : Nat) : Option Element := (d.node? n).map Node.element

/-- Adds a node behind the last child of `parent`. -/
def append (d : Document) (parent : Nat) (e : Element) : Document :=
  { d with nodes := (d.nodes.modify parent fun p => { p with children := p.children ++ [d.size] }).push ⟨e, some parent, []⟩ }

/-- The node for `e` below `parent`, attached where it is not there yet. An element that `parent` itself has or that one of
its children has is not attached again. -/
def attach (d : Document) (parent : Nat) (e : Element) : Nat × Document :=
  match d.node? parent with
  | none => (parent, d)
  | some p =>
    if p.element = e then (parent, d)
    else
      match p.children.find? fun c => d.element? c == some e with
      | some c => (c, d)
      | none => (d.size, d.append parent e)

/-- `attach`, refused below a node that the document does not have. -/
def attach? (d : Document) (parent : Nat) (e : Element) : Option (Nat × Document) :=
  if parent < d.size then some (d.attach parent e) else none

end Document

end CiWorkflow.Tree
