import CiWorkflow.Proofs.Tree.Preorder
import CiWorkflow.Proofs.Yaml.Shape
import CiWorkflow.Tree.OfConcrete

/-!
# What a construct adds to a document

A construct of a text adds elements below a node, and others below these. The builder attaches them
one by one, each before what is below it (`addValue_eq_graft`), so what it makes of a construct can be
told from the elements alone (`forest`).
-/

namespace CiWorkflow.Tree

open Text (Span)
open Yaml (ConcreteTree Kind Role)

/-- Elements that are to stand side by side: the first one with what is below it, and the others. -/
inductive Forest where
  | nil
  | cons (e : Element) (below rest : Forest)

namespace Forest

variable {e o : Element} {f g b r : Forest}

/-- One element with nothing below it. -/
def single (e : Element) : Forest := cons e nil nil

def append : Forest → Forest → Forest
  | nil, g => g
  | cons e b r, g => cons e b (append r g)

/-- Several forests side by side. -/
def join (fs : List Forest) : Forest := fs.foldr append nil

@[simp] lemma nil_append (f : Forest) : nil.append f = f := rfl
@[simp] lemma cons_append (e : Element) (b r g : Forest) : (cons e b r).append g = cons e b (r.append g) := rfl

@[simp] lemma append_nil (f : Forest) : f.append nil = f := by
  induction f with
  | nil => rfl
  | cons e b r _ ih => rw [cons_append, ih]

@[simp] lemma join_nil : join [] = nil := rfl
@[simp] lemma join_cons (f : Forest) (fs : List Forest) : join (f :: fs) = f.append (join fs) := rfl

/-- All elements, each with the one it stands below and in front of those below it. -/
def links (o : Element) : Forest → List (Element × Element)
  | nil => []
  | cons e b r => (o, e) :: (links e b ++ links o r)

@[simp] lemma links_append (o : Element) (f g : Forest) : (f.append g).links o = f.links o ++ g.links o := by
  induction f generalizing o with
  | nil => rfl
  | cons e b r _ ih => simp [links, ih]

lemma links_join (o : Element) (fs : List Forest) : (join fs).links o = fs.flatMap (links o) := by
  induction fs with
  | nil => rfl
  | cons f fs ih => rw [join_cons, links_append, ih, List.flatMap_cons]

/-- All elements, each in front of those below it. -/
def elements : Forest → List Element
  | nil => []
  | cons e b r => e :: (elements b ++ elements r)

lemma map_snd_links (o : Element) (f : Forest) : (f.links o).map Prod.snd = f.elements := by
  induction f generalizing o with
  | nil => rfl
  | cons e b r ihb ihr => simp [links, elements, ihb, ihr]

@[simp] lemma elements_append (f g : Forest) : (f.append g).elements = f.elements ++ g.elements := by
  induction f with
  | nil => rfl
  | cons e b r _ ih => simp [elements, ih]

lemma elements_join (fs : List Forest) : (join fs).elements = fs.flatMap elements := by
  induction fs with
  | nil => rfl
  | cons f fs ih => rw [join_cons, elements_append, ih, List.flatMap_cons]

/-- Attaches the elements below a node, each before those below it. -/
def graft : Forest → Nat → Document → Document
  | nil, _, d => d
  | cons e b r, p, d => graft r p (graft b (d.attach p e).1 (d.attach p e).2)

@[simp] lemma graft_append (f g : Forest) (p : Nat) (d : Document) :
    (f.append g).graft p d = g.graft p (f.graft p d) := by
  induction f generalizing d with
  | nil => rfl
  | cons e b r _ ih => simp [graft, ih]

end Forest

open Forest (single)

/-! ### The elements of a construct -/

namespace Document

variable (source : List Char)

/-- A scalar's element. -/
def scalarForest (s : Span) : Forest := single (.scalar s (sourceAt source s))

/-- An element of a sequence: a scalar, or a container with what the element consists of below it. -/
def elementForest (s : Span) (t : ConcreteTree) (below : Forest) : Forest :=
  match t.bareScalar? with
  | some scalar => scalarForest source scalar.span
  | none => .cons (.container s) below .nil

mutual

/-- What a construct adds. -/
def forest : ConcreteTree → Forest
  | .node kind _ s parts =>
    if kind.isScalar then scalarForest source s
    else if kind.isDecoration then .nil
    else
      match kind with
      | .pair =>
        match pairKey? source parts with
        | none => valueForest parts
        | some key => .cons (.keyed s key) (valueForest parts) .nil
      | .item => itemForest s parts
      | .flowSequence => elementsForest parts
      | _ => partsForest parts

/-- What several constructs add. -/
def partsForest : List ConcreteTree → Forest
  | [] => .nil
  | t :: ts => (forest t).append (partsForest ts)

/-- What the value among the parts of a pair adds. -/
def valueForest : List ConcreteTree → Forest
  | [] => .nil
  | t :: ts => if t.role = .value then forest t else valueForest ts

/-- What a block sequence's item adds. -/
def itemForest (s : Span) : List ConcreteTree → Forest
  | [] => single (.container s)
  | t :: ts => if t.kind = .comment then itemForest s ts else elementForest source s t (forest t)

/-- What the elements of a flow sequence add. -/
def elementsForest : List ConcreteTree → Forest
  | [] => .nil
  | t :: ts =>
    if t.kind = .comment then elementsForest ts
    else (elementForest source t.span t (forest t)).append (elementsForest ts)

end

lemma graft_elementForest (s : Span) (t : ConcreteTree) (below : Forest) (p : Nat) (d : Document) :
    (elementForest source s t below).graft p d =
      match t.bareScalar? with
      | some scalar => d.attachScalar source p scalar.span
      | none => below.graft (d.attach p (.container s)).1 (d.attach p (.container s)).2 := by
  unfold elementForest
  cases t.bareScalar? <;> rfl

mutual

/-- The builder attaches what a construct adds. -/
lemma addValue_eq_graft : ∀ (t : ConcreteTree) (p : Nat) (d : Document),
    addValue source t p d = (forest source t).graft p d
  | .node kind _ s parts, p, d => by
    unfold addValue forest
    cases kind
    case pair =>
      cases hk : pairKey? source parts with
      | none => simpa [Kind.isScalar, Kind.isDecoration, hk] using addPairValue_eq_graft parts p d
      | some key => simpa [Kind.isScalar, Kind.isDecoration, hk, Forest.graft] using addPairValue_eq_graft parts _ _
    case item => exact addItem_eq_graft s parts p d
    case flowSequence => exact addElements_eq_graft parts p d
    all_goals first | rfl | exact addValues_eq_graft parts p d

lemma addValues_eq_graft : ∀ (ts : List ConcreteTree) (p : Nat) (d : Document),
    addValues source ts p d = (partsForest source ts).graft p d
  | [], _, _ => rfl
  | t :: ts, p, d => by
    rw [addValues, partsForest, Forest.graft_append, addValue_eq_graft t, addValues_eq_graft ts]

lemma addPairValue_eq_graft : ∀ (ts : List ConcreteTree) (p : Nat) (d : Document),
    addPairValue source ts p d = (valueForest source ts).graft p d
  | [], _, _ => rfl
  | t :: ts, p, d => by
    rw [addPairValue, valueForest]
    split
    · exact addValue_eq_graft t p d
    · exact addPairValue_eq_graft ts p d

lemma addItem_eq_graft (s : Span) : ∀ (ts : List ConcreteTree) (p : Nat) (d : Document),
    addItem source s ts p d = (itemForest source s ts).graft p d
  | [], _, _ => rfl
  | t :: ts, p, d => by
    rw [addItem, itemForest]
    split
    · exact addItem_eq_graft s ts p d
    · rw [graft_elementForest]
      cases t.bareScalar? with
      | none => exact addValue_eq_graft t _ _
      | some scalar => rfl

lemma addElements_eq_graft : ∀ (ts : List ConcreteTree) (p : Nat) (d : Document),
    addElements source ts p d = (elementsForest source ts).graft p d
  | [], _, _ => rfl
  | t :: ts, p, d => by
    rw [addElements, elementsForest]
    split
    · exact addElements_eq_graft ts p d
    · rw [Forest.graft_append, graft_elementForest]
      cases t.bareScalar? with
      | none =>
        rw [← addElements_eq_graft ts]
        exact congrArg _ (addValue_eq_graft t _ _)
      | some scalar => exact addElements_eq_graft ts _ _

end

lemma ofConcrete_eq_graft (text : String) (t : ConcreteTree) :
    ofConcrete text t = (forest text.toList t).graft root (ofSource text) :=
  addValue_eq_graft text.toList t root (ofSource text)

end Document

end CiWorkflow.Tree
