import CiWorkflow.Tree.Navigation
import Mathlib.Data.List.Find
import Mathlib.Data.List.Infix
import Mathlib.Tactic.Lemma

/-!
# The arena of a document

Attaching an element changes nothing but the children of the node it is attached below, and in every
document that is made this way the links between parents and children agree (`WellFormed`).
-/

namespace CiWorkflow.Tree.Document

variable {d d' d'' : Document} {n p q c : Nat} {e : Element}

/-! ### Appending -/

lemma node?_eq_none_iff : d.node? n = none ↔ d.size ≤ n := by
  unfold node? size
  exact Array.getElem?_eq_none_iff

lemma exists_node? (h : n < d.size) : ∃ m, d.node? n = some m := by
  rw [← Option.ne_none_iff_exists', ne_eq, node?_eq_none_iff]
  omega

lemma lt_size_of_node? {m : Node} (h : d.node? n = some m) : n < d.size := by
  by_contra hn
  rw [node?_eq_none_iff.mpr (by omega)] at h
  cases h

lemma lt_size_of_element? (h : d.element? n = some e) : n < d.size := by
  obtain ⟨m, hm, -⟩ := Option.map_eq_some_iff.mp h
  exact lt_size_of_node? hm

lemma lt_size_of_key? {key : String} (h : d.key? n = some key) : n < d.size := by
  obtain ⟨e, he, -⟩ := Option.bind_eq_some_iff.mp h
  exact lt_size_of_element? he

lemma lt_size_of_parent? (h : d.parent? n = some p) : n < d.size := by
  obtain ⟨m, hm, -⟩ := Option.bind_eq_some_iff.mp h
  exact lt_size_of_node? hm

lemma lt_size_of_mem_children (h : c ∈ d.children p) : p < d.size := by
  by_contra hp
  have none : d.node? p = none := node?_eq_none_iff.mpr (by omega)
  simp [children, none] at h

@[simp] lemma size_append (d : Document) (p : Nat) (e : Element) : (d.append p e).size = d.size + 1 := by
  simp [append, size]

lemma node?_append (d : Document) (p : Nat) (e : Element) (n : Nat) :
    (d.append p e).node? n =
      if n = d.size then some ⟨e, some p, []⟩
      else if p = n then (d.node? n).map fun m => { m with children := m.children ++ [d.size] } else d.node? n := by
  simp only [append, node?, size, Array.getElem?_push, Array.size_modify, Array.getElem?_modify]
  rfl

lemma element?_append (d : Document) (p : Nat) (e : Element) (n : Nat) :
    (d.append p e).element? n = if n = d.size then some e else d.element? n := by
  unfold element?
  rw [node?_append]
  split_ifs
  · rfl
  · cases d.node? n <;> rfl
  · rfl

lemma parent?_append (d : Document) (p : Nat) (e : Element) (n : Nat) :
    (d.append p e).parent? n = if n = d.size then some p else d.parent? n := by
  unfold parent?
  rw [node?_append]
  split_ifs
  · rfl
  · cases d.node? n <;> rfl
  · rfl

lemma children_append (hp : p < d.size) (e : Element) (n : Nat) :
    (d.append p e).children n = if n = p then d.children p ++ [d.size] else d.children n := by
  obtain ⟨m, hm⟩ := exists_node? hp
  have none : d.node? d.size = none := node?_eq_none_iff.mpr le_rfl
  unfold children
  rw [node?_append]
  by_cases hn : n = d.size
  · subst hn
    simp [none, show d.size ≠ p by omega]
  · by_cases hnp : n = p
    · subst hnp
      simp [hn, hm]
    · simp [hn, hnp, Ne.symm hnp]

/-! ### Attaching -/

/-- What stands for an element below a node: the node itself, or the first child that has the
element. -/
def StandsFor (d : Document) (p : Nat) (e : Element) (n : Nat) : Prop :=
  d.element? p = some e ∧ n = p ∨
    d.element? p ≠ some e ∧ (d.children p).find? (fun c => d.element? c == some e) = some n

lemma StandsFor.mem (h : d.StandsFor p e n) : n ∈ p :: d.children p := by
  rcases h with ⟨-, rfl⟩ | ⟨-, h⟩
  · exact List.mem_cons_self
  · exact List.mem_cons_of_mem _ (List.mem_of_find?_eq_some h)

lemma StandsFor.element? (h : d.StandsFor p e n) : d.element? n = some e := by
  rcases h with ⟨h, rfl⟩ | ⟨-, h⟩
  · exact h
  · simpa using List.find?_some h

lemma StandsFor.lt_size (h : d.StandsFor p e n) : p < d.size := by
  rcases h with ⟨h, -⟩ | ⟨-, h⟩
  · exact lt_size_of_element? h
  · exact lt_size_of_mem_children (List.mem_of_find?_eq_some h)

/-- An element is not attached where something stands for it. -/
lemma StandsFor.attach (h : d.StandsFor p e n) : d.attach p e = (n, d) := by
  obtain ⟨m, hm⟩ := exists_node? h.lt_size
  have own : d.element? p = some m.element := by simp [Document.element?, hm]
  have below : d.children p = m.children := by simp [children, hm]
  unfold Document.attach
  rcases h with ⟨he, rfl⟩ | ⟨he, hf⟩
  · rw [own, Option.some.injEq] at he
    simp [hm, he]
  · rw [own, ne_eq, Option.some.injEq] at he
    rw [below] at hf
    simp [hm, he, hf]

/-- Attaching finds what stands for an element, or appends the element. -/
lemma attach_cases (hp : p < d.size) (e : Element) :
    (∃ n, d.StandsFor p e n ∧ d.attach p e = (n, d)) ∨
      (∀ c ∈ p :: d.children p, d.element? c ≠ some e) ∧ d.attach p e = (d.size, d.append p e) := by
  by_cases he : d.element? p = some e
  · have own : d.StandsFor p e p := Or.inl ⟨he, rfl⟩
    exact Or.inl ⟨p, own, own.attach⟩
  · cases hf : (d.children p).find? fun c => d.element? c == some e with
    | some n =>
      have found : d.StandsFor p e n := Or.inr ⟨he, hf⟩
      exact Or.inl ⟨n, found, found.attach⟩
    | none =>
      right
      constructor
      · intro c hc
        rcases List.mem_cons.mp hc with rfl | hc
        · exact he
        · simpa using List.find?_eq_none.mp hf c hc
      · obtain ⟨m, hm⟩ := exists_node? hp
        have hne : m.element ≠ e := by simpa [Document.element?, hm] using he
        have below : d.children p = m.children := by simp [children, hm]
        rw [below] at hf
        unfold attach
        simp [hm, hne, hf]

lemma attach_of_size_le (hp : d.size ≤ p) (e : Element) : d.attach p e = (p, d) := by
  simp [attach, node?_eq_none_iff.mpr hp]

/-! ### Well-formed documents -/

/-- Nodes come after their parents, parents and children know each other, children stand in the order
they were attached, and neither two children of a node nor a child and its parent have the same
element. -/
structure WellFormed (d : Document) : Prop where
  pos : 0 < d.size
  top : d.parent? root = none
  linked : ∀ n p, n ∈ d.children p ↔ d.parent? n = some p
  rooted : ∀ n < d.size, n ≠ root → ∃ p < n, d.parent? n = some p
  ascending : ∀ p, (d.children p).Pairwise (· < ·)
  distinct : ∀ p, (p :: d.children p).Pairwise fun a b => d.element? a ≠ d.element? b

namespace WellFormed

lemma lt_of_mem_children (h : d.WellFormed) (hc : c ∈ d.children p) : p < c := by
  have hpar := (h.linked c p).mp hc
  have hroot : c ≠ root := by
    rintro rfl
    rw [h.top] at hpar
    cases hpar
  obtain ⟨q, hq, hpar'⟩ := h.rooted c (lt_size_of_parent? hpar) hroot
  rw [hpar] at hpar'
  cases hpar'
  exact hq

lemma lt_size_of_mem (h : d.WellFormed) (hc : c ∈ d.children p) : c < d.size :=
  lt_size_of_parent? ((h.linked c p).mp hc)

lemma lt_of_parent? (h : d.WellFormed) (hp : d.parent? n = some p) : p < n :=
  h.lt_of_mem_children ((h.linked n p).mpr hp)

/-- A root alone. -/
lemma bare (e : Element) (source : Option String) : WellFormed { ofRoot e with source } := by
  have node (n : Nat) :
      node? { ofRoot e with source } n = if n = 0 then some ⟨e, none, []⟩ else none := by
    cases n <;> simp [node?, ofRoot]
  have parent (n : Nat) : parent? { ofRoot e with source } n = none := by
    unfold parent?
    rw [node]
    split <;> rfl
  have children (n : Nat) : Document.children { ofRoot e with source } n = [] := by
    unfold Document.children
    rw [node]
    split <;> rfl
  have size : Document.size { ofRoot e with source } = 1 := rfl
  refine ⟨by omega, parent root, fun n p => ?_, fun n hn hroot => ?_, fun p => ?_, fun p => ?_⟩
  · simp [children, parent]
  · unfold root at hroot
    omega
  · rw [children]
    exact List.Pairwise.nil
  · rw [children]
    exact List.pairwise_singleton _ _

/-- An element that neither a node nor its children have is appended below the node. -/
lemma append (h : d.WellFormed) (hp : p < d.size) (he : ∀ c ∈ p :: d.children p, d.element? c ≠ some e) :
    (d.append p e).WellFormed := by
  have old {a : Nat} (ha : a < d.size) : (d.append p e).element? a = d.element? a := by
    rw [element?_append, if_neg (by omega)]
  have pos := h.pos
  refine ⟨by rw [size_append]; omega, ?_, fun n q => ?_, fun n hn hroot => ?_, fun q => ?_, fun q => ?_⟩
  · rw [parent?_append, if_neg (by unfold root; omega), h.top]
  · rw [children_append hp, parent?_append]
    by_cases hn : n = d.size
    · have new : ∀ r, d.size ∉ d.children r := fun r hr => by have := h.lt_size_of_mem hr; omega
      by_cases hq : q = p
      · simp [hn, hq]
      · simp [hn, hq, new, Ne.symm hq]
    · by_cases hq : q = p <;> simp [hn, hq, h.linked]
  · rw [size_append] at hn
    rw [parent?_append]
    split
    · exact ⟨p, by omega, rfl⟩
    · exact h.rooted n (by omega) hroot
  · rw [children_append hp]
    split
    · refine List.pairwise_append.mpr ⟨h.ascending p, List.pairwise_singleton _ _, fun a ha b hb => ?_⟩
      rw [List.mem_singleton.mp hb]
      exact h.lt_size_of_mem ha
    · exact h.ascending q
  · have below (a : Nat) (ha : a ∈ q :: d.children q) (hq : q < d.size) : a < d.size := by
      rcases List.mem_cons.mp ha with rfl | ha
      · exact hq
      · exact h.lt_size_of_mem ha
    rw [children_append hp]
    split
    · rename_i hqp
      subst hqp
      rw [← List.cons_append]
      refine List.pairwise_append.mpr ⟨?_, List.pairwise_singleton _ _, fun a ha b hb => ?_⟩
      · refine (h.distinct q).imp_of_mem fun {a b} ha hb hab => ?_
        rwa [old (below a ha hp), old (below b hb hp)]
      · rw [List.mem_singleton.mp hb, old (below a ha hp), element?_append, if_pos rfl]
        exact he a ha
    · by_cases hq : q < d.size
      · refine (h.distinct q).imp_of_mem fun {a b} ha hb hab => ?_
        rwa [old (below a ha hq), old (below b hb hq)]
      · have none : d.children q = [] := by
          refine List.eq_nil_iff_forall_not_mem.mpr fun c hc => hq (lt_size_of_mem_children hc)
        rw [none]
        exact List.pairwise_singleton _ _

lemma attach (h : d.WellFormed) (p : Nat) (e : Element) : (d.attach p e).2.WellFormed := by
  by_cases hp : p < d.size
  · rcases attach_cases hp e with ⟨n, -, ha⟩ | ⟨he, ha⟩ <;> rw [ha]
    · exact h
    · exact h.append hp he
  · rwa [attach_of_size_le (by omega)]

end WellFormed

/-! ### Attaching many elements -/

/-- Attaches elements one after the other, each below the node that is given with it. Below a node
that is not there nothing is attached. -/
def attachAll (d : Document) (es : List (Nat × Element)) : Document := es.foldl (fun d x => (d.attach x.1 x.2).2) d

lemma WellFormed.attachAll (h : d.WellFormed) (es : List (Nat × Element)) : (d.attachAll es).WellFormed := by
  induction es generalizing d with
  | nil => exact h
  | cons x es ih => exact ih (h.attach x.1 x.2)

/-- A document is there in another one, whose nodes may have more children. -/
structure Extends (d d' : Document) : Prop where
  element : ∀ n < d.size, d'.element? n = d.element? n
  parent : ∀ n < d.size, d'.parent? n = d.parent? n
  children : ∀ n < d.size, d.children n <+: d'.children n
  size : d.size ≤ d'.size

namespace Extends

lemma refl (d : Document) : d.Extends d := ⟨fun _ _ => rfl, fun _ _ => rfl, fun _ _ => List.prefix_rfl, le_rfl⟩

lemma trans (h : d.Extends d') (h' : d'.Extends d'') : d.Extends d'' := by
  have lt {n : Nat} (hn : n < d.size) : n < d'.size := lt_of_lt_of_le hn h.size
  refine ⟨fun n hn => ?_, fun n hn => ?_, fun n hn => ?_, h.size.trans h'.size⟩
  · rw [h'.element n (lt hn), h.element n hn]
  · rw [h'.parent n (lt hn), h.parent n hn]
  · exact (h.children n hn).trans (h'.children n (lt hn))

lemma append (hp : p < d.size) (e : Element) : d.Extends (d.append p e) := by
  refine ⟨fun n hn => ?_, fun n hn => ?_, fun n _ => ?_, by rw [size_append]; omega⟩
  · rw [element?_append, if_neg (by omega)]
  · rw [parent?_append, if_neg (by omega)]
  · rw [children_append hp]
    split
    · rename_i hn
      rw [hn]
      exact List.prefix_append _ _
    · exact List.prefix_rfl

lemma attach (d : Document) (p : Nat) (e : Element) : d.Extends (d.attach p e).2 := by
  by_cases hp : p < d.size
  · rcases attach_cases hp e with ⟨n, -, ha⟩ | ⟨-, ha⟩ <;> rw [ha]
    · exact refl d
    · exact append hp e
  · rw [attach_of_size_le (by omega)]
    exact refl d

lemma attachAll (d : Document) (es : List (Nat × Element)) : d.Extends (d.attachAll es) := by
  induction es generalizing d with
  | nil => exact refl d
  | cons x es ih => exact (attach d x.1 x.2).trans (ih _)

end Extends

/-- Once an element was attached, its node stands for it. -/
lemma WellFormed.standsFor_attach (h : d.WellFormed) (hp : p < d.size) (e : Element) :
    (d.attach p e).2.StandsFor p e (d.attach p e).1 := by
  rcases attach_cases hp e with ⟨n, hn, ha⟩ | ⟨he, ha⟩ <;> rw [ha]
  · exact hn
  · have old {a : Nat} (ha : a < d.size) : (d.append p e).element? a = d.element? a :=
      (Extends.append hp e).element a ha
    refine Or.inr ⟨by rw [old hp]; exact he p List.mem_cons_self, ?_⟩
    have before : (d.children p).find? (fun c => (d.append p e).element? c == some e) = none := by
      refine List.find?_eq_none.mpr fun c hc => ?_
      rw [old (h.lt_size_of_mem hc)]
      simpa using he c (List.mem_cons_of_mem p hc)
    rw [children_append hp, if_pos rfl, List.find?_append, before]
    simp [element?_append]

/-- What stands for an element still does when more was attached. -/
lemma StandsFor.extends (h : d.WellFormed) (hn : d.StandsFor p e n) (hd : d.Extends d') : d'.StandsFor p e n := by
  have hp := hn.lt_size
  rcases hn with ⟨he, rfl⟩ | ⟨he, hf⟩
  · exact Or.inl ⟨by rw [hd.element n hp, he], rfl⟩
  · refine Or.inr ⟨by rwa [hd.element p hp], ?_⟩
    obtain ⟨more, hmore⟩ := hd.children p hp
    have same : (d.children p).find? (fun c => d'.element? c == some e) =
        (d.children p).find? fun c => d.element? c == some e := by
      refine List.find?_congr fun c hc => ?_
      rw [hd.element c (h.lt_size_of_mem hc)]
    rw [← hmore, List.find?_append, same, hf]
    rfl

/-! ### What attaching does -/

/-- `n` is the node for `e` below `p` in `d'`, and of all nodes of `d` only `p` may have changed, by one
more child. -/
structure Attached (d : Document) (p : Nat) (e : Element) (n : Nat) (d' : Document) : Prop where
  element : d'.element? n = some e
  source : d'.source = d.source
  others : ∀ m < d.size, m ≠ p → d'.node? m = d.node? m
  own : d'.element? p = d.element? p ∧ d'.parent? p = d.parent? p
  found_or_new : n ∈ p :: d.children p ∧ d' = d ∨
    (∀ c ∈ p :: d.children p, d.element? c ≠ some e) ∧ n = d.size ∧ d'.size = d.size + 1 ∧
      d'.children p = d.children p ++ [n] ∧ d'.parent? n = some p ∧ d'.children n = []

/-- An element is attached once, however much is attached behind it. -/
lemma WellFormed.attach_again (h : d.WellFormed) (hp : p < d.size) (e : Element) (es : List (Nat × Element)) :
    ((d.attach p e).2.attachAll es).attach p e = ((d.attach p e).1, (d.attach p e).2.attachAll es) := by
  have stands := h.standsFor_attach hp e
  exact (stands.extends (h.attach p e) (Extends.attachAll _ es)).attach

lemma WellFormed.attached (h : d.WellFormed) (hp : p < d.size) (e : Element) :
    d.Attached p e (d.attach p e).1 (d.attach p e).2 := by
  have stands := h.standsFor_attach hp e
  have grown := Extends.attach d p e
  refine ⟨stands.element?, ?_, fun m hm hne => ?_, ⟨grown.element p hp, grown.parent p hp⟩, ?_⟩
  · rcases attach_cases hp e with ⟨n, -, ha⟩ | ⟨-, ha⟩ <;> rw [ha]
    rfl
  · rcases attach_cases hp e with ⟨n, -, ha⟩ | ⟨-, ha⟩ <;> rw [ha]
    rw [node?_append, if_neg (by omega), if_neg (by omega)]
  · rcases attach_cases hp e with ⟨n, hn, ha⟩ | ⟨he, ha⟩ <;> rw [ha]
    · exact Or.inl ⟨hn.mem, rfl⟩
    · refine Or.inr ⟨he, rfl, size_append d p e, ?_, ?_, ?_⟩
      · rw [children_append hp, if_pos rfl]
      · rw [parent?_append, if_pos rfl]
      · rw [children_append hp, if_neg (by omega)]
        refine List.eq_nil_iff_forall_not_mem.mpr fun c hc => ?_
        have := lt_size_of_mem_children hc
        omega

end CiWorkflow.Tree.Document
