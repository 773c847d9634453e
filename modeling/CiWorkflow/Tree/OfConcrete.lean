import CiWorkflow.Tree.Document
import CiWorkflow.Yaml.ConcreteTree

/-!
# Documents from concrete trees

A pair becomes a keyed node with its value below it; a scalar becomes a text node; an element of a sequence that is more
than a scalar becomes a container with the element below it. Mappings and sequences themselves leave no node: their entries
go to whatever holds them. Comments, anchors and tags are dropped.
-/

namespace CiWorkflow.Tree

open Text (Span)
open Yaml (ConcreteTree Kind Role)

namespace Document

/-- The text at a range. -/
def sourceAt (source : List Char) (s : Span) : String :=
  String.ofList ((Text.slice source s.start s.stop).getD [])

/-- The key of a pair with these parts, without blanks and quotes. -/
def pairKey? (source : List Char) (parts : List ConcreteTree) : Option String :=
  (parts.find? (·.role = .key)).map fun k => Text.unquoteString (sourceAt source k.span)

/-- Attaches a scalar. -/
def attachScalar (source : List Char) (parent : Nat) (s : Span) (d : Document) : Document :=
  (d.attach parent (.scalar s (sourceAt source s))).2

variable (source : List Char)

mutual

/-- Attaches what a construct holds below `parent`. -/
def addValue : ConcreteTree → Nat → Document → Document
  | .node kind _ s parts, parent, d =>
    if kind.isScalar then d.attachScalar source parent s
    else if kind.isDecoration then d
    else
      match kind with
      | .pair =>
        match pairKey? source parts with
        | none => addPairValue parts parent d
        | some key =>
          let (n, d) := d.attach parent (.keyed s key)
          addPairValue parts n d
      | .item => addItem s parts parent d
      | .flowSequence => addElements parts parent d
      | _ => addValues parts parent d

/-- Attaches what several constructs hold. -/
def addValues : List ConcreteTree → Nat → Document → Document
  | [], _, d => d
  | t :: ts, parent, d => addValues ts parent (addValue t parent d)

/-- Attaches the value among the parts of a pair. -/
def addPairValue : List ConcreteTree → Nat → Document → Document
  | [], _, d => d
  | t :: ts, parent, d => if t.role = .value then addValue t parent d else addPairValue ts parent d

/-- Attaches the content of a block sequence's item: what follows its comments. -/
def addItem (s : Span) : List ConcreteTree → Nat → Document → Document
  | [], parent, d => (d.attach parent (.container s)).2
  | t :: ts, parent, d =>
    if t.kind = .comment then addItem s ts parent d
    else
      match t.bareScalar? with
      | some scalar => d.attachScalar source parent scalar.span
      | none =>
        let (n, d) := d.attach parent (.container s)
        addValue t n d

/-- Attaches the elements of a flow sequence. -/
def addElements : List ConcreteTree → Nat → Document → Document
  | [], _, d => d
  | t :: ts, parent, d =>
    if t.kind = .comment then addElements ts parent d
    else
      match t.bareScalar? with
      | some scalar => addElements ts parent (d.attachScalar source parent scalar.span)
      | none =>
        let (n, d) := d.attach parent (.container t.span)
        addElements ts parent (addValue t n d)

end

/-- The document of a concrete tree of `text`. -/
def ofConcrete (text : String) (t : ConcreteTree) : Document :=
  addValue text.toList t root (ofSource text)

end Document

end CiWorkflow.Tree
