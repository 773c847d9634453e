import CiWorkflow.Proofs.Tree.Sequences

/-!
# The pairs of keyed nodes

A keyed node is the node of a pair in value position. It has no text, and it begins where the pair does: at
its key, unless a question mark stands in front of that one.
-/

namespace CiWorkflow.Tree

open Text (Span byteLength)
open Yaml (ConcreteTree Kind)
open Yaml.ConcreteTree (Lawful)

/-! ### Lines -/

/-- A byte stands on a line, counted from one: as many line feeds and one are in front of it. -/
def OnLine (source : List Char) (i line : Nat) : Prop :=
  ∃ before after, source = before ++ after ∧ byteLength before = i ∧ line = before.count '\n' + 1

/-- A byte stands on one line only. -/
lemma OnLine.unique {source : List Char} {i line line' : Nat} (h : OnLine source i line) (h' : OnLine source i line') :
    line = line' := by
  obtain ⟨before, after, rfl, rfl, rfl⟩ := h
  obtain ⟨before', after', parts, length, rfl⟩ := h'
  have taken := Text.takeBytes_byteLength before after
  rw [parts, ← length, Text.takeBytes_byteLength] at taken
  rw [Option.some.inj taken]

namespace Document

variable {text : String} {t pair key : ConcreteTree} {d : Document} {n : Nat} {name : String} {x : Place} {e : Element}

/-! ### Keyed nodes -/

/-- A node is that of a pair in value position, and has its key. -/
structure OfPair (text : String) (t : ConcreteTree) (d : Document) (n : Nat) (pair key : ConcreteTree) : Prop where
  place : ∃ x ∈ textPlaces text t, x.tree = pair
  kind : pair.kind = .pair
  part : pair.children.find? (·.role = .key) = some key
  element : d.element? n = some (.keyed pair.span (Text.unquoteString (sourceAt text.toList key.span)))

lemma eq_keyed_of_mem_own (he : e ∈ ownElements text.toList x.holder x.tree) (hk : e.key = some name) :
    x.tree.kind = .pair ∧ pairKey? text.toList x.tree.children = some name ∧ e = .keyed x.tree.span name := by
  rw [ownElements_eq] at he
  simp only [List.mem_append, Option.mem_toList, Option.map_eq_some_iff] at he
  rcases he with (⟨s, -, rfl⟩ | ⟨y, -, rfl⟩) | ⟨y, hy, rfl⟩
  · cases hk
  · cases hk
  · cases hk
    unfold keyed? at hy
    obtain ⟨hkind, hy⟩ := Option.ite_none_right_eq_some.mp hy
    obtain ⟨own, hown, rfl⟩ := Option.map_eq_some_iff.mp hy
    exact ⟨hkind, hown, rfl⟩

lemma exists_ofPair (hd : ofText text = .ok d) (hk : d.key? n = some name) :
    ∃ t pair key, Yaml.ConcreteTree.ofText? text.toList = some t ∧ OfPair text t d n pair key := by
  obtain ⟨t, ht, rfl⟩ := exists_of_ofText hd
  obtain ⟨lawful, within⟩ := lawful_of_ofText? ht
  obtain ⟨e, he, hkey⟩ := Option.bind_eq_some_iff.mp hk
  -- an element with a key is not the root's
  have below := (List.mem_cons.mp (mem_nodeElements lawful within he)).resolve_left fun h => by rw [h] at hkey; cases hkey
  obtain ⟨x, hx, hown⟩ := List.mem_flatMap.mp (List.mem_filter.mp below).1
  obtain ⟨hkind, hpair, rfl⟩ := eq_keyed_of_mem_own hown hkey
  obtain ⟨key, hpart, rfl⟩ := Option.map_eq_some_iff.mp hpair
  exact ⟨t, x.tree, key, ht, ⟨x, hx, rfl⟩, hkind, hpart, he⟩

/-- The root of a text has no key. -/
lemma ne_root_of_key? (hd : ofText text = .ok d) (hk : d.key? n = some name) : n ≠ root := by
  rintro rfl
  obtain ⟨t, -, rfl⟩ := exists_of_ofText hd
  rw [key?, element?_root_ofConcrete] at hk
  cases hk

lemma value?_of_key? (hd : ofText text = .ok d) (hk : d.key? n = some name) : d.value? n = none := by
  obtain ⟨t, pair, key, -, own⟩ := exists_ofPair hd hk
  rw [value?, own.element]
  rfl

/-- The ranges of a pair and of its key. -/
def pairSpans? (t : ConcreteTree) : Option (Span × Span) :=
  (t.children.find? (·.role = .key)).map fun key => (t.span, key.span)

lemma OfPair.mem_pairSpans (h : OfPair text t d n pair key) :
    (pair.span, key.span) ∈ (textPlaces text t).filterMap fun x => pairSpans? x.tree := by
  obtain ⟨x, hx, rfl⟩ := h.place
  refine List.mem_filterMap.mpr ⟨x, hx, ?_⟩
  rw [pairSpans?, h.part]
  rfl

/-! ### Where they begin -/

lemma source_of_ofText (hd : ofText text = .ok d) : d.source = some text := by
  obtain ⟨t, -, rfl⟩ := exists_of_ofText hd
  rw [ofConcrete_eq_graft, source_graft]
  rfl

/-- What is in front of a pair, and between its first byte and its key. -/
lemma OfPair.exists_parts (h : OfPair text t d n pair key) (ht : Yaml.ConcreteTree.ofText? text.toList = some t) :
    d.range? n = some pair.span ∧ ∃ before between after, text.toList = before ++ (between ++ after) ∧
      byteLength before = pair.span.start ∧ byteLength (before ++ between) = key.span.start := by
  obtain ⟨lawful, -⟩ := lawful_of_ofText? ht
  obtain ⟨x, hx, rfl⟩ := h.place
  have own := (mem_places lawful (holds_of_ne (by decide) t) hx).1
  have hkey := List.mem_of_find?_eq_some h.part
  refine ⟨?_, Text.exists_parts own.own.cut.1 (own.parts key hkey).own.cut.1 (own.own.placed.within key hkey).1⟩
  rw [range?, h.element]
  exact range?_mk own.own.placed.ordered _ _

end Document

end CiWorkflow.Tree
