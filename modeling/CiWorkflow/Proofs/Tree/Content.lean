import CiWorkflow.Proofs.Tree.Places

/-!
# What a document keeps of a text

The nodes of a document, in its order, are the constructs of the text in value position that have
elements of their own. So no scalar and no keyed pair is lost or met twice; only a sequence's element
over the whole text leaves no node, as the root has its element already.
-/

namespace CiWorkflow.Tree

open Text (Span byteLength)
open Yaml (ConcreteTree Kind)
open Yaml.ConcreteTree (Lawful)

namespace Document

variable {text : String} {t : ConcreteTree} {source : List Char} {f : Forest} {o : Element} {holder : Kind}

/-! ### The nodes of a document -/

/-- The range of a text. -/
def whole (text : String) : Span := ⟨0, byteLength text.toList⟩

/-- The constructs of a text in value position. -/
def textPlaces (text : String) (t : ConcreteTree) : List Place :=
  places text.toList (.container (whole text)) .stream t

/-- The elements of the constructs in value position, each with the one above it. -/
def textLinks (text : String) (t : ConcreteTree) : List (Element × Element) :=
  (textPlaces text t).flatMap (Place.links text.toList)

lemma holds_of_ne (h : holder ≠ .flowSequence) (t : ConcreteTree) : Holds holder t := fun hf => absurd hf h

lemma mem_places {x : Place} (h : t.Everywhere (Lawful source)) (ht : Holds holder t) (hx : x ∈ places source o holder t) :
    x.tree.Everywhere (Lawful source) ∧ Holds x.holder x.tree := by
  induction h generalizing holder o with
  | @node k r s ts own parts ih =>
    have lawful : (ConcreteTree.node k r s ts).Everywhere (Lawful source) := .node own parts
    rw [places_node] at hx
    rcases List.mem_cons.mp hx with rfl | hx
    · exact ⟨lawful, ht⟩
    · obtain ⟨u, hu, hx⟩ := List.mem_flatMap.mp hx
      exact ih u (mem_children_of_mem_valueParts hu) (holds_parts lawful u hu) hx

/-- Elements that are all different from each other and from the root's are met below the root in their
order. -/
lemma map_link?_graft (h : (Element.container (whole text) :: f.elements).Nodup) :
    ((f.graft root (ofSource text)).descendants root).tail.map (f.graft root (ofSource text)).link? =
      (f.links (.container (whole text))).map some := by
  have wf := wellFormed_ofSource text
  obtain ⟨own, nodup⟩ := List.nodup_cons.mp h
  have new : ∀ c ∈ root :: (ofSource text).children root, ∀ e ∈ f.elements, (ofSource text).element? c ≠ some e := by
    rw [children_ofSource]
    intro c hc e he hce
    rw [List.mem_singleton.mp hc, element?_ofSource] at hce
    cases hce
    exact own he
  obtain ⟨ns, grown⟩ : ∃ ns, Grown (ofSource text) root f ns (f.graft root (ofSource text)) :=
    exists_grown wf wf.pos nodup new
  have children : (f.graft root (ofSource text)).children root = ns := by
    rw [grown.children, children_ofSource, List.nil_append]
  have top : (f.graft root (ofSource text)).element? root = some (.container (whole text)) := by
    rw [grown.grown.element root wf.pos, element?_ofSource]
    rfl
  rw [grown.wf.descendants_eq, children, List.tail_cons]
  refine grown.bears.map_link? grown.wf top fun n hn => ?_
  rw [← children] at hn
  exact (grown.wf.linked n root).mp hn

lemma filter_links {e : Element} (h : e ∉ f.elements) : (f.links o).filter (fun l => l.2 ≠ e) = f.links o := by
  refine List.filter_eq_self.mpr fun l hl => ?_
  have hmem : l.2 ∈ f.elements := Forest.map_snd_links o f ▸ List.mem_map_of_mem hl
  have hne : l.2 ≠ e := fun heq => h (heq ▸ hmem)
  simpa using hne

/-- The nodes below the root are the elements of the constructs in value position, but for the root's own
element, and no two nodes have the same element. -/
lemma map_link?_ofConcrete (h : t.Everywhere (Lawful text.toList)) (hs : t.span.Within (whole text)) :
    ((ofConcrete text t).descendants root).tail.map (ofConcrete text t).link? =
        ((textLinks text t).filter fun l => l.2 ≠ .container (whole text)).map some ∧
      (Element.container (whole text) ::
        (((textLinks text t).filter fun l => l.2 ≠ .container (whole text)).map Prod.snd)).Nodup := by
  have ne : Kind.stream ≠ .flowSequence := by decide
  have holds := holds_of_ne ne t
  have laid := (laid_held h .stream).mono hs
  have strict := strict_held h holds
  have nodup := laid.nodup_elements strict
  have links := links_held h holds (.container (whole text))
  rw [ofConcrete_eq_graft, textLinks, textPlaces, ← links]
  rw [held_of_ne ne] at *
  generalize forest text.toList t = f at *
  by_cases hm : Element.container (whole text) ∈ f.elements
  · -- an element over the whole text is the root's own
    obtain ⟨b, rfl⟩ := laid.eq_cons_of_mem strict hm
    rw [Forest.elements, Forest.elements, List.append_nil] at nodup
    have attached : (ofSource text).attach root (.container (whole text)) = (root, ofSource text) :=
      StandsFor.attach (Or.inl ⟨element?_ofSource text, rfl⟩)
    rw [Forest.links, List.filter_cons_of_neg (by simp), Forest.links, List.append_nil,
      filter_links (List.nodup_cons.mp nodup).1, Forest.graft, attached, Forest.map_snd_links]
    exact ⟨map_link?_graft nodup, nodup⟩
  · have fresh := List.nodup_cons.mpr ⟨hm, nodup⟩
    rw [filter_links hm, Forest.map_snd_links]
    exact ⟨map_link?_graft fresh, fresh⟩

lemma exists_of_link? {d : Document} {n : Nat} {l : Element × Element} (h : d.link? n = some l) :
    ∃ p, d.parent? n = some p ∧ d.element? p = some l.1 ∧ d.element? n = some l.2 := by
  obtain ⟨o, ho, h⟩ := Option.bind_eq_some_iff.mp h
  obtain ⟨p, hp, ho⟩ := Option.bind_eq_some_iff.mp ho
  obtain ⟨e, he, rfl⟩ := Option.map_eq_some_iff.mp h
  exact ⟨p, hp, ho, he⟩

/-- The elements of the constructs in value position. -/
def textElements (text : String) (t : ConcreteTree) : List Element :=
  (textPlaces text t).flatMap fun x => ownElements text.toList x.holder x.tree

lemma map_snd_textLinks (text : String) (t : ConcreteTree) :
    (textLinks text t).map Prod.snd = textElements text t := by
  rw [textLinks, List.map_flatMap, textElements]
  exact List.flatMap_congr fun x _ => Forest.map_snd_chain _ _

lemma element?_root_ofConcrete (text : String) (t : ConcreteTree) :
    (ofConcrete text t).element? root = some (.container (whole text)) := by
  rw [ofConcrete_eq_graft, (extends_graft _ _ _).element root (wellFormed_ofSource text).pos]
  exact element?_ofSource text

lemma wellFormed_ofConcrete (text : String) (t : ConcreteTree) : (ofConcrete text t).WellFormed := by
  rw [ofConcrete_eq_graft]
  exact (wellFormed_ofSource text).graft _ _

lemma wellFormed_of_ofText {d : Document} (hd : ofText text = .ok d) : d.WellFormed := by
  obtain ⟨t, -, rfl⟩ := exists_of_ofText hd
  exact wellFormed_ofConcrete text t

/-- A document was read from a text, or made by attaching elements below a root. -/
inductive Built : Document → Prop
  | read {text : String} {d : Document} (hd : ofText text = .ok d) : Built d
  | attached (e : Element) (source : Option String) (es : List (Nat × Element)) :
    Built (attachAll { ofRoot e with source } es)

lemma Built.wellFormed {d : Document} (h : d.Built) : d.WellFormed := by
  cases h with
  | read hd => exact wellFormed_of_ofText hd
  | attached e source es => exact (WellFormed.bare e source).attachAll es

/-- A text has a document that passes a test. -/
lemma exists_of_test (text : String) {p : Document → Bool} (h : (ofText text).toOption.map p = some true) :
    ∃ d, ofText text = .ok d ∧ p d = true := by
  cases hd : ofText text with
  | error f =>
    rw [hd] at h
    cases h
  | ok d =>
    rw [hd] at h
    exact ⟨d, rfl, Option.some.inj h⟩

/-- The elements of a document's nodes: the root's and those of the constructs in value position. -/
def nodeElements (text : String) (t : ConcreteTree) : List Element :=
  .container (whole text) :: (textElements text t).filter (· ≠ .container (whole text))

/-- The nodes have these elements, in their order, and no two have the same. -/
lemma map_element?_ofConcrete (h : t.Everywhere (Lawful text.toList)) (hs : t.span.Within (whole text)) :
    ((ofConcrete text t).descendants root).map (ofConcrete text t).element? = (nodeElements text t).map some ∧
      (nodeElements text t).Nodup := by
  obtain ⟨links, nodup⟩ := map_link?_ofConcrete h hs
  have elements : ((textLinks text t).filter fun l => l.2 ≠ .container (whole text)).map Prod.snd =
        (textElements text t).filter (· ≠ .container (whole text)) := by
    rw [← map_snd_textLinks, List.filter_map]
    rfl
  have second : ∀ n ∈ ((ofConcrete text t).descendants root).tail,
      (ofConcrete text t).element? n = ((ofConcrete text t).link? n).map Prod.snd := by
    intro n hn
    have hl := List.mem_map_of_mem (f := (ofConcrete text t).link?) hn
    rw [links] at hl
    obtain ⟨l, -, hl⟩ := List.mem_map.mp hl
    obtain ⟨p, -, -, he⟩ := exists_of_link? hl.symm
    rw [he, ← hl]
    rfl
  have below : ((ofConcrete text t).descendants root).tail.map (ofConcrete text t).element? =
      ((textElements text t).filter (· ≠ .container (whole text))).map some := by
    rw [List.map_congr_left second, ← Function.comp_def, ← List.map_map, links, ← elements, List.map_map, List.map_map]
    rfl
  have top : (ofConcrete text t).descendants root = root :: ((ofConcrete text t).descendants root).tail := by
    rw [(wellFormed_ofConcrete text t).descendants_eq, List.tail_cons]
  rw [elements] at nodup
  refine ⟨?_, nodup⟩
  rw [top, List.map_cons, element?_root_ofConcrete, below]
  rfl

/-! ### Texts, keys and containers -/

/-- The range and the text of a text node. -/
def textNode? (d : Document) (n : Nat) : Option (Span × String) :=
  (d.range? n).bind fun r => (d.text? n).map fun x => (r, x)

/-- The range and the key of a keyed node. -/
def keyedNode? (d : Document) (n : Nat) : Option (Span × String) :=
  (d.range? n).bind fun r => (d.key? n).map fun x => (r, x)

/-- The range of a node with neither a key nor a text. -/
def anonymousNode? (d : Document) (n : Nat) : Option Span :=
  if d.key? n = none ∧ d.text? n = none then d.range? n else none

end Document

/-- The range and the text of a scalar. -/
def Place.scalar? (source : List Char) (x : Place) : Option (Span × String) :=
  if x.tree.kind.isScalar then some (x.tree.span, Document.sourceAt source x.tree.span) else none

/-- The range and the key of a pair with a key. -/
def keyed? (source : List Char) (t : ConcreteTree) : Option (Span × String) :=
  if t.kind = .pair then (Document.pairKey? source t.children).map fun key => (t.span, key) else none

/-- The range of a sequence's element that is more than a scalar. -/
def Place.element? (x : Place) : Option Span :=
  if isElement x.holder x.tree && (elementScalar? x.tree).isNone then some x.tree.span else none

/-- A document keeps a tree: it has a text node for each scalar in value position, a keyed node for each pair
in value position that has a key, and an anonymous node for each element of a sequence that is more than a
scalar and not the whole text, in the order of the text, and no other nodes but the root. -/
structure Keeps (text : String) (t : ConcreteTree) (d : Document) : Prop where
  texts : (d.descendants Document.root).filterMap d.textNode? =
    (Document.textPlaces text t).filterMap (Place.scalar? text.toList)
  keys : (d.descendants Document.root).filterMap d.keyedNode? =
    (Document.textPlaces text t).filterMap fun x => keyed? text.toList x.tree
  anonymous : (d.descendants Document.root).tail.filterMap d.anonymousNode? =
    ((Document.textPlaces text t).filterMap Place.element?).filter (· ≠ Document.whole text)

namespace Document

variable {text : String} {t : ConcreteTree} {source : List Char} {d : Document} {n : Nat}

lemma filterMap_flatMap_eq {α β ι : Type} {l : List ι} {own : ι → List β} {q : β → Option α} {g : ι → Option α}
    (h : ∀ x ∈ l, (own x).filterMap q = (g x).toList) : (l.flatMap own).filterMap q = l.filterMap g := by
  induction l with
  | nil => rfl
  | cons x l ih =>
    rw [List.flatMap_cons, List.filterMap_append, h x List.mem_cons_self, ih fun y hy => h y (List.mem_cons_of_mem x hy),
      List.filterMap_cons]
    cases g x <;> rfl

lemma filterMap_filter_ne {α : Type} {l : List Element} {q : Element → Option α} {e : Element} (hq : q e = none) :
    (l.filter (· ≠ e)).filterMap q = l.filterMap q := by
  rw [List.filterMap_filter]
  refine List.filterMap_congr fun x _ => ?_
  by_cases hx : x = e <;> simp [hx, hq]

/-- What is told of the nodes by their elements is told of the constructs, where the root tells
nothing. -/
lemma filterMap_descendants {α : Type} {q : Element → Option α} (hq : q (.container (whole text)) = none)
    (h : t.Everywhere (Lawful text.toList)) (hs : t.span.Within (whole text)) :
    ((ofConcrete text t).descendants root).filterMap (fun n => ((ofConcrete text t).element? n).bind q) =
      (textElements text t).filterMap q := by
  have nodes := congrArg (List.filterMap fun e => e.bind q) (map_element?_ofConcrete h hs).1
  rw [List.filterMap_map, List.filterMap_map] at nodes
  refine nodes.trans ?_
  rw [nodeElements, List.filterMap_cons_none (by exact hq)]
  exact filterMap_filter_ne hq

/-- What is told of the nodes below the root is told of the constructs with elements of their own. -/
lemma filterMap_tail {α : Type} (q : Element → Option α) (h : t.Everywhere (Lawful text.toList))
    (hs : t.span.Within (whole text)) :
    ((ofConcrete text t).descendants root).tail.filterMap (fun n => ((ofConcrete text t).element? n).bind q) =
      ((textElements text t).filter (· ≠ .container (whole text))).filterMap q := by
  have nodes := congrArg (fun l => l.tail.filterMap fun e => e.bind q) (map_element?_ofConcrete h hs).1
  rwa [← List.map_tail, List.filterMap_map, ← List.map_tail, List.filterMap_map] at nodes

lemma textNode?_eq (d : Document) :
    d.textNode? = fun n => (d.element? n).bind fun e => e.range?.bind fun r => e.text.map fun x => (r, x) := by
  funext n
  unfold textNode? range? text?
  cases d.element? n <;> rfl

lemma keyedNode?_eq (d : Document) :
    d.keyedNode? = fun n => (d.element? n).bind fun e => e.range?.bind fun r => e.key.map fun x => (r, x) := by
  funext n
  unfold keyedNode? range? key?
  cases d.element? n <;> rfl

lemma anonymousNode?_eq (d : Document) :
    d.anonymousNode? = fun n => (d.element? n).bind fun e =>
      if e.key = none ∧ e.text = none then e.range? else none := by
  funext n
  unfold anonymousNode? range? key? text?
  cases d.element? n <;> simp

/-! ### The elements of one construct -/

lemma ownElements_eq (source : List Char) (x : Place) :
    ownElements source x.holder x.tree = (x.element?.map .container).toList ++
      ((x.scalar? source).map fun y => .scalar y.1 y.2).toList ++
      ((keyed? source x.tree).map fun y => .keyed y.1 y.2).toList := by
  have container : container? x.holder x.tree = x.element?.map .container := by
    unfold container? Place.element?
    split <;> rfl
  have label : (label? source x.tree).toList = ((x.scalar? source).map fun y => Element.scalar y.1 y.2).toList ++
      ((keyed? source x.tree).map fun y => Element.keyed y.1 y.2).toList := by
    unfold label? Place.scalar? keyed?
    by_cases hs : x.tree.kind.isScalar = true
    · have hp : x.tree.kind ≠ .pair := by
        revert hs
        cases x.tree.kind <;> decide
      rw [if_pos hs, if_pos hs, if_neg hp]
      rfl
    · rw [if_neg hs, if_neg hs, Option.map_none, Option.toList_none, List.nil_append]
      split
      · rw [Option.map_map]
        rfl
      · rfl
  rw [ownElements, container, label, List.append_assoc]

lemma filterMap_own {α : Type} (q : Element → Option α) (source : List Char) (x : Place) :
    (ownElements source x.holder x.tree).filterMap q = (x.element?.bind fun s => q (.container s)).toList ++
      ((x.scalar? source).bind fun y => q (.scalar y.1 y.2)).toList ++
      ((keyed? source x.tree).bind fun y => q (.keyed y.1 y.2)).toList := by
  have one {β : Type} (e : Option β) (g : β → Element) :
      (e.map g).toList.filterMap q = (e.bind fun y => q (g y)).toList := by
    cases e with
    | none => rfl
    | some y =>
      rw [Option.map_some, Option.toList_some, List.filterMap_cons, Option.bind_some]
      cases q (g y) <;> rfl
  rw [ownElements_eq, List.filterMap_append, List.filterMap_append, one, one, one]

lemma range?_mk {s : Span} (h : s.start ≤ s.stop) (key text : Option String) :
    Element.range? ⟨s.start, s.stop, key, text⟩ = some s := by
  unfold Element.range?
  rw [if_pos ⟨by dsimp only; omega, by dsimp only; omega⟩]
  rfl

section own

variable {x : Place} (h : x.tree.Everywhere (Lawful source))

include h

lemma texts_own : (ownElements source x.holder x.tree).filterMap
    (fun e => e.range?.bind fun r => e.text.map fun y => (r, y)) = (x.scalar? source).toList := by
  have range := range?_mk h.own.placed.ordered none
  rw [filterMap_own]
  unfold Place.element? Place.scalar? keyed?
  split <;> split <;> split <;> simp_all [Element.scalar, Element.keyed, Element.container]

lemma keys_own : (ownElements source x.holder x.tree).filterMap
    (fun e => e.range?.bind fun r => e.key.map fun y => (r, y)) = (keyed? source x.tree).toList := by
  have range (key : String) := range?_mk h.own.placed.ordered (some key) none
  rw [filterMap_own]
  unfold Place.element? Place.scalar? keyed?
  cases Document.pairKey? source x.tree.children <;> split <;> split <;> split <;>
    simp_all [Element.scalar, Element.keyed, Element.container]

lemma containers_own : (ownElements source x.holder x.tree).filterMap
    (fun e => if e.key = none ∧ e.text = none then e.range? else none) = x.element?.toList := by
  have range := range?_mk h.own.placed.ordered none none
  rw [filterMap_own]
  unfold Place.element? Place.scalar? keyed?
  split <;> split <;> split <;> simp_all [Element.scalar, Element.keyed, Element.container]

end own

lemma eq_container_of_range? {e : Element} {s : Span} (hk : e.key = none) (ht : e.text = none) (hs : e.range? = some s) :
    e = .container s := by
  unfold Element.range? at hs
  split at hs
  · rename_i hr
    cases hs
    obtain ⟨start, stop, key, text⟩ := e
    dsimp only at hk ht hr
    subst hk ht
    rw [Element.container]
    congr 1 <;> (dsimp only; omega)
  · cases hs

lemma range?_container_whole (text : String) : (Element.container (whole text)).range? = some (whole text) :=
  range?_mk (Nat.zero_le _) none none

/-- A document keeps the tree that it is made of. -/
lemma keeps_ofConcrete (h : t.Everywhere (Lawful text.toList)) (hs : t.span.Within (whole text)) :
    Keeps text t (ofConcrete text t) := by
  have lawful {x : Place} (hx : x ∈ textPlaces text t) : x.tree.Everywhere (Lawful text.toList) :=
    (mem_places h (holds_of_ne (by decide) t) hx).1
  refine ⟨?_, ?_, ?_⟩
  · rw [textNode?_eq, filterMap_descendants (by cases (Element.container (whole text)).range? <;> rfl) h hs, textElements]
    exact filterMap_flatMap_eq fun x hx => texts_own (lawful hx)
  · rw [keyedNode?_eq, filterMap_descendants (by cases (Element.container (whole text)).range? <;> rfl) h hs, textElements]
    exact filterMap_flatMap_eq fun x hx => keys_own (lawful hx)
  · have containers : (textElements text t).filterMap
        (fun e => if e.key = none ∧ e.text = none then e.range? else none) = (textPlaces text t).filterMap Place.element? :=
      filterMap_flatMap_eq fun x hx => containers_own (lawful hx)
    rw [anonymousNode?_eq, filterMap_tail _ h hs, ← containers, List.filterMap_filter, List.filter_filterMap]
    refine List.filterMap_congr fun e _ => ?_
    by_cases he : e = .container (whole text)
    · rw [he, if_neg (by simp), if_pos ⟨rfl, rfl⟩, range?_container_whole,
        Option.filter_some_neg (by simp)]
    · rw [if_pos (by simpa using he)]
      split
      · rename_i own
        cases hr : e.range? with
        | none => rfl
        | some r =>
          have other : r ≠ whole text := fun hw => he (hw ▸ eq_container_of_range? own.1 own.2 hr)
          rw [Option.filter_some_pos (by simpa using other)]
      · rfl

/-- The nodes of a document are told by the tree that it was made of: whatever lawful tree over a text this
is, and the tree of the text above all, the text nodes are the scalars in value position, the keyed nodes
the pairs with a key in value position, and the anonymous nodes the sequences' elements that are more than
a scalar, each in the order of the text; only for an element over the whole text there is no node but the
root. -/
theorem document_keeps_content (text : String) :
    (∀ t : ConcreteTree, t.Everywhere (Lawful text.toList) → t.span.Within (whole text) → Keeps text t (ofConcrete text t)) ∧
      ∀ d, ofText text = .ok d → ∃ t, Yaml.ConcreteTree.ofText? text.toList = some t ∧ Keeps text t d := by
  refine ⟨fun t h hs => keeps_ofConcrete h hs, fun d hd => ?_⟩
  obtain ⟨t, ht, rfl⟩ := exists_of_ofText hd
  obtain ⟨lawful, within⟩ := lawful_of_ofText? ht
  exact ⟨t, ht, keeps_ofConcrete lawful within⟩

example : (ofText "a: [b, {c: d}]").toOption.map (fun d => (d.descendants root).filterMap d.textNode?) =
    some [(⟨4, 5⟩, "b"), (⟨11, 12⟩, "d")] := by decide +kernel

/-! ### What is in a key -/

mutual

/-- A construct and all those in it, those in keys too. -/
def constructs : ConcreteTree → List ConcreteTree
  | .node k r s ts => .node k r s ts :: constructsOf ts

/-- Several constructs and all those in them. -/
def constructsOf : List ConcreteTree → List ConcreteTree
  | [] => []
  | t :: ts => constructs t ++ constructsOf ts

end

/-- A pair in the key of another pair has no node, though it has a key. -/
theorem not_keyed_in_key : ∃ t d, Yaml.ConcreteTree.ofText? "? {a: b}\n: c".toList = some t ∧
    ofText "? {a: b}\n: c" = .ok d ∧
      (d.descendants root).filterMap d.keyedNode? ≠ (constructs t).filterMap (keyed? "? {a: b}\n: c".toList) := by
  have counts : (Yaml.ConcreteTree.ofText? "? {a: b}\n: c".toList).map (fun t =>
      (((textPlaces "? {a: b}\n: c" t).filterMap fun x => keyed? "? {a: b}\n: c".toList x.tree).length,
        ((constructs t).filterMap (keyed? "? {a: b}\n: c".toList)).length)) = some (1, 2) := by decide +kernel
  obtain ⟨t, ht, hcounts⟩ := Option.map_eq_some_iff.mp counts
  obtain ⟨kept, all⟩ := Prod.mk.inj hcounts
  obtain ⟨lawful, within⟩ := lawful_of_ofText? ht
  have keys := (keeps_ofConcrete lawful within).keys
  refine ⟨t, ofConcrete _ t, ht, by rw [ofText, ht], fun h => ?_⟩
  rw [keys] at h
  rw [h] at kept
  omega

end Document

end CiWorkflow.Tree
