import CiWorkflow.Text.Ascii
import CiWorkflow.Tree.Document

/-!
# Navigation

Ways through a document: down to children and descendants, up to ancestors, and from a byte to the innermost node.
Keys are looked up without regard to the case of ASCII letters.
-/

namespace CiWorkflow.Tree

namespace Document

variable (d : Document)

def key? (n : Nat) : Option String := (d.element? n).bind Element.key

/-- The text as written. -/
def text? (n : Nat) : Option String := (d.element? n).bind Element.text

/-- The value of the text. -/
def value? (n : Nat) : Option String := (d.element? n).bind Element.value?

def range? (n : Nat) : Option Text.Span := (d.element? n).bind Element.range?

/-- The part of the source that a node spans. -/
def sourceOf? (n : Nat) : Option String :=
  (d.range? n).bind fun r => d.source.bind fun s => Text.sliceString s r.start r.stop

def parent? (n : Nat) : Option Nat := (d.node? n).bind Node.parent

def children (n : Nat) : List Nat := ((d.node? n).map Node.children).getD []

/-- The place of a node among its parent's children. -/
def childIndex? (n : Nat) : Option Nat :=
  (d.parent? n).bind fun p => (d.children p).findIdx? (· == n)

/-! ### Downwards -/

/-- A node and what lies below it down to `depth` levels, each node before its children. -/
def preorder : Nat → Nat → List Nat
  | 0, n => [n]
  | depth + 1, n => n :: (d.children n).flatMap (preorder depth)

/-- A node and all nodes below it, in the order of the document. -/
def descendants (n : Nat) : List Nat := d.preorder d.size n

/-- The nodes of `descendants` that satisfy `p`. -/
def select (n : Nat) (p : Nat → Bool) : List Nat := (d.descendants n).filter p

/-- Whether a node has the key, up to case. -/
def hasKey (key : String) (n : Nat) : Bool :=
  ((d.key? n).map (Text.sameAscii key)).getD false

/-- The first child with the key, up to case. -/
def child? (n : Nat) (key : String) : Option Nat := (d.children n).find? (d.hasKey key)

/-! ### Upwards -/

/-- The nodes above a node, nearest first, up to `height` of them. -/
def above : Nat → Nat → List Nat
  | 0, _ => []
  | height + 1, n =>
    match d.parent? n with
    | none => []
    | some p => p :: above height p

/-- All nodes above a node, nearest first. -/
def ancestors (n : Nat) : List Nat := d.above d.size n

/-- The nearest node above that satisfies `p`. -/
def enclosing? (n : Nat) (p : Nat → Bool) : Option Nat := (d.ancestors n).find? p

/-- The nearest node above with the key, up to case. -/
def enclosingKey? (n : Nat) (key : String) : Option Nat := d.enclosing? n (d.hasKey key)

/-- Whether a node's parent has exactly this key. -/
def parentKeyIs (key : String) (n : Nat) : Bool := (d.parent? n).bind d.key? == some key

/-! ### From a byte -/

/-- Whether a node's range holds the byte. -/
def covers (offset n : Nat) : Bool := ((d.element? n).map (·.covers offset)).getD false

/-- Goes down from `n` through first children that hold the byte, at most `depth` levels. -/
def descend (offset : Nat) : Nat → Nat → Nat
  | 0, n => n
  | depth + 1, n =>
    match (d.children n).find? (d.covers offset) with
    | none => n
    | some c => descend offset depth c

/-- The innermost node that holds the byte. -/
def nodeAt? (offset : Nat) : Option Nat :=
  if d.covers offset root then some (d.descend offset d.size root) else none

end Document

end CiWorkflow.Tree
