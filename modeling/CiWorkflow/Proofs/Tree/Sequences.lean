import CiWorkflow.Proofs.Tree.Content

/-!
# The elements of sequences

An element of a sequence that is more than a scalar has a node of its own, below the node that the
sequence's owner has, and everything in the element's range is there. Only for an element over the whole
text there is none: its container is the root's own element, so what attaches it answers with the root.
-/

namespace CiWorkflow.Tree

open Text (Span byteLength)
open Yaml (ConcreteTree Kind)
open Yaml.ConcreteTree (Lawful)

/-- The elements of a sequence that are more than a scalar. -/
def largeElements (t : ConcreteTree) : List ConcreteTree :=
  t.children.filter fun u => isElement t.kind u && (elementScalar? u).isNone

namespace Document

/-- A node below another one has a range and neither a key nor a text, and whatever lies in the range is at
or below the node. -/
structure Encloses (d : Document) (o n : Nat) (s : Span) : Prop where
  element : d.element? n = some (.container s)
  parent : d.parent? n = some o
  inside : ∀ m r, d.range? m = some r → r.Within s → d.Within n m

/-- Each element of a sequence that is more than a scalar has a node below the node of the sequence's owner,
and all these nodes are different. -/
def StandsApart (d : Document) (owner : Element) (t : ConcreteTree) : Prop :=
  ∃ (o : Nat) (node : ConcreteTree → Nat), d.element? o = some owner ∧ (o :: (largeElements t).map node).Nodup ∧
    ∀ u ∈ largeElements t, Encloses d o (node u) u.span

variable {text : String} {t u : ConcreteTree} {source : List Char} {o : Element} {holder : Kind} {x : Place} {e : Element}
  {a b n m : Nat} {r s : Span}

/-! ### Owners and parts -/

/-- What a construct adds its elements below is an element of a construct above it. -/
lemma owner_of_mem_places (h : t.Everywhere (Lawful source)) (hx : x ∈ places source o holder t) :
    x.owner = o ∨ x.owner ∈ (places source o holder t).flatMap fun y => ownElements source y.holder y.tree := by
  induction h generalizing holder o with
  | @node k r s ts own parts ih =>
    rw [places_node] at hx ⊢
    rcases List.mem_cons.mp hx with rfl | hx
    · exact Or.inl rfl
    obtain ⟨u, hu, hx⟩ := List.mem_flatMap.mp hx
    rw [List.flatMap_cons]
    rcases ih u (mem_children_of_mem_valueParts hu) hx with howner | hmem
    · rw [howner]
      rcases List.mem_cons.mp List.getLastD_mem_cons with hlast | hlast
      · exact Or.inl hlast
      · exact Or.inr (List.mem_append_left _ hlast)
    · obtain ⟨y, hy, hmem⟩ := List.mem_flatMap.mp hmem
      exact Or.inr (List.mem_append_right _ (List.mem_flatMap.mpr ⟨y, List.mem_flatMap.mpr ⟨u, hu, hy⟩, hmem⟩))

/-- The parts of a construct in value position are in value position, below its own elements. -/
lemma part_mem_places (h : t.Everywhere (Lawful source)) (hx : x ∈ places source o holder t)
    (hu : u ∈ valueParts x.tree.kind x.tree.children) :
    ⟨(ownElements source x.holder x.tree).getLastD x.owner, x.tree.kind, u⟩ ∈ places source o holder t := by
  induction h generalizing holder o with
  | @node k r s ts own parts ih =>
    rw [places_node] at hx ⊢
    rcases List.mem_cons.mp hx with rfl | hx
    · refine List.mem_cons_of_mem _ (List.mem_flatMap.mpr ⟨u, hu, ?_⟩)
      rw [places_node]
      exact List.mem_cons_self
    · obtain ⟨v, hv, hx⟩ := List.mem_flatMap.mp hx
      exact List.mem_cons_of_mem _ (List.mem_flatMap.mpr ⟨v, hv, ih v (mem_children_of_mem_valueParts hv) hx⟩)

/-- A sequence has no element of its own. -/
lemma ownElements_sequence (ht : Holds holder t) (hk : t.kind = .blockSequence ∨ t.kind = .flowSequence) :
    ownElements source holder t = [] := by
  have container : container? holder t = none := by
    refine Option.eq_none_iff_forall_ne_some.mpr fun c hc => ?_
    rcases (of_container? hc).2 with hi | ⟨hf, -⟩
    · rw [hi] at hk
      exact hk.elim nofun nofun
    · have kinds := ht hf
      rcases hk with hk | hk <;> (rw [hk] at kinds; revert kinds; decide)
  have label : label? source t = none := by
    refine Option.eq_none_iff_forall_ne_some.mpr fun l hl => ?_
    have kinds := (of_label? hl).2
    rcases hk with hk | hk <;> (rw [hk] at kinds; revert kinds; decide)
  rw [ownElements, container, label]
  rfl

/-- An element that is more than a scalar stands below the sequence's owner. -/
lemma element_mem_textLinks (h : t.Everywhere (Lawful text.toList)) (hx : x ∈ textPlaces text t)
    (hk : x.tree.kind = .blockSequence ∨ x.tree.kind = .flowSequence) (hu : u ∈ largeElements x.tree) :
    (x.owner, .container u.span) ∈ textLinks text t := by
  obtain ⟨hmem, large⟩ := List.mem_filter.mp hu
  have notPair : x.tree.kind ≠ .pair := by rcases hk with hk | hk <;> (rw [hk]; decide)
  have part : u ∈ valueParts x.tree.kind x.tree.children := by rwa [valueParts, if_neg notPair]
  have place := part_mem_places h hx part
  rw [ownElements_sequence (mem_places h (holds_of_ne (by decide) t) hx).2 hk] at place
  refine List.mem_flatMap.mpr ⟨_, place, ?_⟩
  have container : container? x.tree.kind u = some (.container u.span) := if_pos large
  rw [Place.links, ownElements, container]
  exact List.mem_cons_self

lemma container_injective : Function.Injective Element.container := by
  intro r s h
  have start : (r.start : Int) = s.start := congrArg Element.start h
  have stop : (r.stop : Int) = s.stop := congrArg Element.stop h
  cases r
  cases s
  rw [Span.mk.injEq]
  dsimp only at start stop
  omega

section nodes

variable (h : t.Everywhere (Lawful text.toList)) (hs : t.span.Within (whole text))

include h

/-- An element is not empty, and starts behind the one above it unless this is the root's, or a container
and the other is none. -/
lemma of_mem_textLinks {l : Element × Element} (hl : l ∈ textLinks text t) : l.2.start < l.2.stop ∧
    (l.1 = .container (whole text) ∨ l.1.start < l.2.start ∨ l.1.IsAnonymous ∧ ¬l.2.IsAnonymous) := by
  have holds := holds_of_ne (show Kind.stream ≠ .flowSequence by decide) t
  have strict := strict_held h holds
  rw [textLinks, textPlaces, ← links_held h holds] at hl
  exact ⟨strict.solid l.2 (Forest.map_snd_links _ _ ▸ List.mem_map_of_mem hl), strict.of_mem_links hl⟩

include hs

lemma mem_nodeElements (he : (ofConcrete text t).element? n = some e) : e ∈ nodeElements text t := by
  have wf := wellFormed_ofConcrete text t
  have hn := wf.mem_descendants_root (lt_size_of_element? he)
  have hmem := List.mem_map_of_mem (f := (ofConcrete text t).element?) hn
  rw [(map_element?_ofConcrete h hs).1, he] at hmem
  simpa using hmem

lemma exists_element? (he : e ∈ nodeElements text t) : ∃ n, (ofConcrete text t).element? n = some e := by
  have hmem := List.mem_map_of_mem (f := some) he
  rw [← (map_element?_ofConcrete h hs).1] at hmem
  obtain ⟨n, -, hn⟩ := List.mem_map.mp hmem
  exact ⟨n, hn⟩

/-- No two nodes have the same element. -/
lemma eq_of_element? (ha : (ofConcrete text t).element? a = some e) (hb : (ofConcrete text t).element? b = some e) :
    a = b := by
  have wf := wellFormed_ofConcrete text t
  obtain ⟨elements, nodup⟩ := map_element?_ofConcrete h hs
  have distinct := nodup.map fun _ _ => Option.some.inj
  rw [← elements] at distinct
  exact List.inj_on_of_nodup_map distinct (wf.mem_descendants_root (lt_size_of_element? ha))
    (wf.mem_descendants_root (lt_size_of_element? hb)) (ha.trans hb.symm)

lemma exists_owner (hx : x ∈ textPlaces text t) : ∃ o, (ofConcrete text t).element? o = some x.owner := by
  refine exists_element? h hs ?_
  by_cases hw : x.owner = .container (whole text)
  · rw [hw]
    exact List.mem_cons_self
  · refine List.mem_cons_of_mem _ (List.mem_filter.mpr ⟨?_, by simpa using hw⟩)
    exact (owner_of_mem_places h hx).resolve_left hw

/-- No node but the root is empty. -/
lemma solid_of_ne_root (hn : n ≠ root) (hr : (ofConcrete text t).range? n = some r) : r.start < r.stop := by
  obtain ⟨e, s, he, hspans, hrange⟩ := (ordered_ofConcrete (fits_of_lawful h) hs).exists_range? (lt_size_of_range? hr)
  rw [hr] at hrange
  cases hrange
  have other : e ≠ .container (whole text) := by
    rintro rfl
    exact hn (eq_of_element? h hs he (element?_root_ofConcrete text t))
  have hmem := (List.mem_filter.mp ((List.mem_cons.mp (mem_nodeElements h hs he)).resolve_left other)).1
  rw [← map_snd_textLinks] at hmem
  obtain ⟨l, hl, rfl⟩ := List.mem_map.mp hmem
  have nonempty := (of_mem_textLinks h hl).1
  rw [hspans.start, hspans.stop] at nonempty
  omega

/-! ### Elements over less than the whole text -/

/-- No node above that of an element over less than the whole text has a range in the element's. -/
lemma eq_of_within (hl : (e, .container s) ∈ textLinks text t) (hne : s ≠ whole text)
    (ho : (ofConcrete text t).element? a = some e) (hp : (ofConcrete text t).parent? n = some a)
    (here : (ofConcrete text t).range? n = some s) (hm : (ofConcrete text t).Within m n)
    (hr : (ofConcrete text t).range? m = some r) (hw : r.Within s) : n = m := by
  have ordered := ordered_ofConcrete (fits_of_lawful h) hs
  rcases Relation.ReflTransGen.cases_head hm with rfl | ⟨q, hq, hmq⟩
  · rfl
  exfalso
  obtain rfl : q = a := Option.some.inj (hq.symm.trans hp)
  -- the owner is in between, so it has the element's range too
  obtain ⟨x, v, hx, hspans, hrange⟩ := ordered.exists_range? (lt_size_of_element? ho)
  obtain rfl : x = e := Option.some.inj (hx.symm.trans ho)
  have inner := (ordered.within_of_within hmq hrange hr).trans hw
  obtain rfl := inner.antisymm (ordered.nested n q s v hp here hrange)
  rcases (of_mem_textLinks h hl).2 with hroot | hlt | ⟨-, named⟩
  · have everything : (ofConcrete text t).range? q = some (whole text) := by
      rw [range?, ho, show x = _ from hroot]
      exact range?_container_whole text
    exact hne (Option.some.inj (hrange.symm.trans everything))
  · exact hlt.ne hspans.start
  · exact named ⟨rfl, rfl⟩

/-- An element over less than the whole text has a node with all that is in its range. -/
lemma exists_encloses (hl : (e, .container s) ∈ textLinks text t) (hne : s ≠ whole text)
    (ho : (ofConcrete text t).element? a = some e) : ∃ n, Encloses (ofConcrete text t) a n s := by
  have wf := wellFormed_ofConcrete text t
  have kept : (e, Element.container s) ∈ (textLinks text t).filter fun l => l.2 ≠ .container (whole text) := by
    refine List.mem_filter.mpr ⟨hl, ?_⟩
    have other : Element.container s ≠ .container (whole text) := fun heq => hne (container_injective heq)
    simpa using other
  have hmem := List.mem_map_of_mem (f := some) kept
  rw [← (map_link?_ofConcrete h hs).1] at hmem
  obtain ⟨n, -, hn⟩ := List.mem_map.mp hmem
  obtain ⟨p, hp, hpe, hnode⟩ := exists_of_link? hn
  obtain rfl := eq_of_element? h hs ho hpe
  have solid : s.start < s.stop := Int.ofNat_lt.mp (of_mem_textLinks h hl).1
  have here : (ofConcrete text t).range? n = some s := by
    rw [range?, hnode]
    exact range?_mk solid.le none none
  refine ⟨n, hnode, hp, fun m r hr hw => ?_⟩
  have hn := wf.mem_descendants_root (lt_size_of_range? here)
  have hm := wf.mem_descendants_root (lt_size_of_range? hr)
  have comparable : (ofConcrete text t).Within n m ∨ (ofConcrete text t).Within m n := by
    rcases (ordered_ofConcrete (fits_of_lawful h) hs).within_or_apart root n hn m hm with hnm | hmn | apart
    · exact Or.inl hnm
    · exact Or.inr hmn
    · -- only the root may be empty, and it is above
      by_cases hroot : m = root
      · exact Or.inr (hroot ▸ wf.within_root (lt_size_of_range? here))
      · have nonempty := solid_of_ne_root h hs hroot hr
        obtain ⟨left, right⟩ := hw
        have before := apart _ _ here hr
        unfold Span.Before at before
        omega
  rcases comparable with hnm | hmn
  · exact hnm
  · rw [eq_of_within h hs hl hne ho hp here hmn hr hw]
    exact Relation.ReflTransGen.refl

/-- For the sequences in value position: their elements stand apart exactly where none is the whole
text. -/
lemma standsApart_iff (hx : x ∈ textPlaces text t) (hk : x.tree.kind = .blockSequence ∨ x.tree.kind = .flowSequence) :
    StandsApart (ofConcrete text t) x.owner x.tree ↔ ∀ u ∈ largeElements x.tree, u.span ≠ whole text := by
  have wf := wellFormed_ofConcrete text t
  constructor
  · rintro ⟨o, node, -, -, encloses⟩ u hu hw
    have top : node u = root :=
      eq_of_element? h hs (by rw [(encloses u hu).element, hw]) (element?_root_ofConcrete text t)
    have below := (encloses u hu).parent
    rw [top, wf.top] at below
    cases below
  · intro hne
    obtain ⟨o, ho⟩ := exists_owner h hs hx
    have linked {u : ConcreteTree} (hu : u ∈ largeElements x.tree) := element_mem_textLinks h hx hk hu
    have each : ∀ u, ∃ n, u ∈ largeElements x.tree → Encloses (ofConcrete text t) o n u.span := by
      intro u
      by_cases hu : u ∈ largeElements x.tree
      · obtain ⟨n, hn⟩ := exists_encloses h hs (linked hu) (hne u hu) ho
        exact ⟨n, fun _ => hn⟩
      · exact ⟨0, fun hu' => absurd hu' hu⟩
    choose node encloses using each
    refine ⟨o, node, ho, List.nodup_cons.mpr ⟨fun hmem => ?_, ?_⟩, encloses⟩
    · obtain ⟨u, hu, hou⟩ := List.mem_map.mp hmem
      exact (wf.lt_of_parent? (encloses u hu).parent).ne hou.symm
    · -- elements that are not empty and behind each other have different ranges
      have apart : (largeElements x.tree).Pairwise fun u v => u.span.Before v.span :=
        (mem_places h (holds_of_ne (by decide) t) hx).1.own.placed.apart.filter _
      refine List.pairwise_map.mpr (apart.imp_of_mem fun {u v} hu hv before hnode => ?_)
      have same := (encloses u hu).element
      rw [hnode, (encloses v hv).element] at same
      have span := container_injective (Option.some.inj same)
      have solid : u.span.start < u.span.stop := Int.ofNat_lt.mp (of_mem_textLinks h (linked hu)).1
      rw [Span.Before, span] at before
      omega

end nodes

end Document

/-- The elements that are more than a scalar stand apart in exactly those of a text's sequences in which none
of them is the whole text; the sequences in a pair's key, which no node owns, are left out. -/
def StandApart (text : String) (t : ConcreteTree) (d : Document) : Prop :=
  ∀ x ∈ Document.textPlaces text t, x.tree.kind = .blockSequence ∨ x.tree.kind = .flowSequence →
    (Document.StandsApart d x.owner x.tree ↔ ∀ u ∈ largeElements x.tree, u.span ≠ Document.whole text)

namespace Document

/-- Whatever lawful tree over a text a document is made of, and for the tree of the text above all: each
element of a sequence that is more than a scalar has a node of its own below the sequence's owner, with all
that is inside the element, exactly where none of these elements is the whole text. -/
theorem elements_apart_iff (text : String) :
    (∀ t : ConcreteTree, t.Everywhere (Lawful text.toList) → t.span.Within (whole text) →
      StandApart text t (ofConcrete text t)) ∧
      ∀ d, ofText text = .ok d → ∃ t, Yaml.ConcreteTree.ofText? text.toList = some t ∧ StandApart text t d := by
  refine ⟨fun t h hs x hx hk => standsApart_iff h hs hx hk, fun d hd => ?_⟩
  obtain ⟨t, ht, rfl⟩ := exists_of_ofText hd
  obtain ⟨lawful, within⟩ := lawful_of_ofText? ht
  exact ⟨t, ht, fun x hx hk => standsApart_iff lawful within hx hk⟩

example : (ofText "- a: 1\n- b: 2").toOption.map (fun d => (d.descendants root).tail.filterMap d.anonymousNode?) =
    some [⟨0, 6⟩, ⟨7, 13⟩] := by decide +kernel

/-- The one entry of a list, which is the whole text, has no node of its own. -/
theorem not_apart_one_entry : ∃ t d, Yaml.ConcreteTree.ofText? "- a: 1".toList = some t ∧ ofText "- a: 1" = .ok d ∧
    ∃ x ∈ textPlaces "- a: 1" t, x.tree.kind = .blockSequence ∧ ¬StandsApart d x.owner x.tree := by
  have found : (Yaml.ConcreteTree.ofText? "- a: 1".toList).map (fun t => (textPlaces "- a: 1" t).any fun x =>
      x.tree.kind = .blockSequence && (largeElements x.tree).any (·.span = whole "- a: 1")) = some true := by
    decide +kernel
  obtain ⟨t, ht, hany⟩ := Option.map_eq_some_iff.mp found
  obtain ⟨x, hx, hboth⟩ := List.any_eq_true.mp hany
  obtain ⟨hk, hlarge⟩ := Bool.and_eq_true_iff.mp hboth
  obtain ⟨u, hu, hw⟩ := List.any_eq_true.mp hlarge
  have hk := of_decide_eq_true hk
  obtain ⟨lawful, within⟩ := lawful_of_ofText? ht
  refine ⟨t, ofConcrete _ t, ht, by rw [ofText, ht], x, hx, hk, fun apart => ?_⟩
  exact (standsApart_iff lawful within hx (Or.inl hk)).mp apart u hu (of_decide_eq_true hw)

end Document

end CiWorkflow.Tree
