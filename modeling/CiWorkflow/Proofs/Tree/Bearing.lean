import CiWorkflow.Proofs.Tree.Positions

/-!
# Documents that bear a forest

Where no two elements of a forest are the same, grafting it attaches every element, and the document then
bears the forest: its nodes stand to each other as the elements do. In what the tree of a text adds, no
two elements are the same; but one of them, a container over the whole text, may be the root's own
element, and then the root itself stands for it.
-/

namespace CiWorkflow.Tree

open Text (Span byteLength)
open Yaml (ConcreteTree Kind)

/-- Whether a node has neither a key nor a text. -/
def Element.IsAnonymous (e : Element) : Prop := e.key = none ∧ e.text = none

namespace Forest

variable {source : List Char} {s : Span} {e o : Element} {f g : Forest}

lemma eq_nil_of_elements (h : f.elements = []) : f = nil := by
  cases f with
  | nil => rfl
  | cons => cases h

/-- No element is empty, and what is below an element starts behind it, but for what has a key or a text
below a container. -/
def Strict : Forest → Prop
  | nil => True
  | cons e b r =>
    e.start < e.stop ∧ (∀ c ∈ b.elements, e.start < c.start ∨ e.IsAnonymous ∧ ¬c.IsAnonymous) ∧ b.Strict ∧ r.Strict

namespace Strict

lemma append (hf : f.Strict) (hg : g.Strict) : (f.append g).Strict := by
  induction f with
  | nil => exact hg
  | cons e b r _ ih => exact ⟨hf.1, hf.2.1, hf.2.2.1, ih hf.2.2.2⟩

lemma join {fs : List Forest} (h : ∀ f ∈ fs, f.Strict) : (Forest.join fs).Strict := by
  induction fs with
  | nil => trivial
  | cons f fs ih => exact (h f List.mem_cons_self).append (ih fun g hg => h g (List.mem_cons_of_mem f hg))

lemma solid (h : f.Strict) : ∀ e ∈ f.elements, e.start < e.stop := by
  induction f with
  | nil => nofun
  | cons e b r ihb ihr =>
    intro c hc
    rcases List.mem_cons.mp hc with rfl | hc
    · exact h.1
    · rcases List.mem_append.mp hc with hc | hc
      · exact ihb h.2.2.1 c hc
      · exact ihr h.2.2.2 c hc

/-- An element starts behind the one above it, but for what has a key or a text below a container. -/
lemma of_mem_links {l : Element × Element} (h : f.Strict) (hl : l ∈ f.links o) :
    l.1 = o ∨ l.1.start < l.2.start ∨ l.1.IsAnonymous ∧ ¬l.2.IsAnonymous := by
  induction f generalizing o with
  | nil => cases hl
  | cons e b r ihb ihr =>
    rcases List.mem_cons.mp hl with rfl | hl
    · exact Or.inl rfl
    · rcases List.mem_append.mp hl with hl | hl
      · right
        rcases ihb h.2.2.1 hl with he | hlt
        · rw [he]
          exact h.2.1 l.2 (map_snd_links e b ▸ List.mem_map_of_mem hl)
        · exact hlt
      · exact ihr h.2.2.2 hl

end Strict

end Forest

namespace Laid

variable {source : List Char} {s : Span} {f : Forest}

/-- No two elements are the same. -/
lemma nodup_elements (h : Laid source s f) (strict : f.Strict) : f.elements.Nodup := by
  induction h with
  | nil => exact List.nodup_nil
  | @cons s r e b f here within below rest ihb ihf =>
    obtain ⟨solid, own, strictBelow, strictRest⟩ := strict
    have behind : ∀ c ∈ f.elements, (r.stop : Int) ≤ c.start := by
      intro c hc
      obtain ⟨q, hq, hw⟩ := rest.bounds c hc
      rw [hq.start]
      exact Int.ofNat_le.mpr hw.1
    have start := here.start
    have stop := here.stop
    rw [Forest.elements, List.nodup_cons, List.nodup_append]
    refine ⟨fun he => ?_, ihb strictBelow, ihf strictRest, fun c hc c' hc' heq => ?_⟩
    · rcases List.mem_append.mp he with he | he
      · rcases own e he with hlt | ⟨hanon, hnamed⟩
        · omega
        · exact hnamed hanon
      · have := behind e he
        omega
    · subst heq
      obtain ⟨q, hq, hw⟩ := below.bounds c hc
      have nonempty := strictBelow.solid c hc
      have later := behind c hc'
      have inside := hw.2
      rw [hq.start, hq.stop] at *
      omega

/-- Only the first element can be a container over the whole range, and then it is the only one. -/
lemma eq_cons_of_mem (h : Laid source s f) (strict : f.Strict) (hm : Element.container s ∈ f.elements) :
    ∃ b, f = .cons (.container s) b .nil := by
  cases h with
  | nil => cases hm
  | @cons _ r e b f here within below rest =>
    obtain ⟨solid, own, strictBelow, strictRest⟩ := strict
    have start := here.start
    have stop := here.stop
    have nothing_behind (hr : s.stop ≤ r.stop) : f.elements = [] := by
      refine List.eq_nil_iff_forall_not_mem.mpr fun c hc => ?_
      obtain ⟨q, hq, hw⟩ := rest.bounds c hc
      have nonempty := strictRest.solid c hc
      have := hw.1
      have := hw.2
      rw [hq.start, hq.stop] at nonempty
      dsimp only at *
      omega
    have whole : (Element.container s).start = s.start ∧ (Element.container s).stop = s.stop := ⟨rfl, rfl⟩
    have left := within.1
    have right := within.2
    rcases List.mem_cons.mp hm with rfl | hm
    · rw [Forest.eq_nil_of_elements (nothing_behind (by omega))]
      exact ⟨b, rfl⟩
    · rcases List.mem_append.mp hm with hm | hm
      · rcases own _ hm with hlt | ⟨-, hnamed⟩
        · omega
        · exact absurd ⟨rfl, rfl⟩ hnamed
      · obtain ⟨q, hq, hw⟩ := rest.bounds _ hm
        have := hw.1
        have := hq.start
        dsimp only at *
        omega

end Laid

namespace Document

variable {d d' : Document} {n p k : Nat} {ns : List Nat} {e o : Element} {f b r : Forest}

/-! ### Bearing a forest -/

/-- Some nodes have the elements of a forest that stand side by side, and so have those below them. -/
inductive Bears (d : Document) : List Nat → Forest → Prop
  | nil : Bears d [] .nil
  | cons {n : Nat} {ns : List Nat} {e : Element} {b r : Forest} (here : d.element? n = some e)
      (below : Bears d (d.children n) b) (rest : Bears d ns r) : Bears d (n :: ns) (.cons e b r)

/-- A document still bears what it bore when the nodes from some node on are left alone. -/
lemma Bears.frame (h : Bears d ns f) (wf : d.WellFormed) (hk : ∀ n ∈ ns, k ≤ n) (hd : d.Extends d')
    (same : ∀ n, k ≤ n → n < d.size → d'.children n = d.children n) : Bears d' ns f := by
  induction h with
  | nil => exact .nil
  | @cons n ns e b r here below rest ihb ihr =>
    have hn := lt_size_of_element? here
    have from_k := hk n List.mem_cons_self
    refine .cons (by rw [hd.element n hn, here]) ?_ (ihr fun m hm => hk m (List.mem_cons_of_mem n hm))
    rw [same n from_k hn]
    exact ihb fun c hc => from_k.trans (wf.lt_of_mem_children hc).le

/-- A document has grown by a forest below a node, whose new children are `ns`. -/
structure Grown (d : Document) (p : Nat) (f : Forest) (ns : List Nat) (d' : Document) : Prop where
  wf : d'.WellFormed
  grown : d.Extends d'
  children : d'.children p = d.children p ++ ns
  bears : Bears d' ns f
  others : ∀ q < d.size, q ≠ p → d'.children q = d.children q

/-- An element is appended, then what is below it, and then what stands behind it. -/
lemma Grown.cons {d₂ d₃ : Document} {bs rs : List Nat} (hp : p < d.size)
    (below : Grown (d.append p e) d.size b bs d₂) (rest : Grown d₂ p r rs d₃) :
    Grown d p (.cons e b r) (d.size :: rs) d₃ := by
  have size₂ : d.size + 1 ≤ d₂.size := size_append d p e ▸ below.grown.size
  have old {q : Nat} (hq : q < d.size) : q < (d.append p e).size := by rw [size_append]; omega
  refine ⟨rest.wf, ((Extends.append hp e).trans below.grown).trans rest.grown, ?_, ?_, fun q hq hqp => ?_⟩
  · rw [rest.children, below.others p (old hp) (by omega), children_append hp, if_pos rfl, List.append_assoc]
    rfl
  · refine .cons ?_ ?_ rest.bears
    · rw [rest.grown.element d.size (by omega), below.grown.element d.size (by rw [size_append]; omega),
        element?_append_self]
    · have children : d₂.children d.size = bs := by
        rw [below.children, children_append_self hp, List.nil_append]
      have behind : ∀ n ∈ bs, d.size + 1 ≤ n := by
        intro n hn
        rw [← children] at hn
        exact below.wf.lt_of_mem_children hn
      rw [rest.others d.size (by omega) (by omega), children]
      exact below.bears.frame below.wf behind rest.grown fun n hn hn' => rest.others n hn' (by omega)
  · rw [rest.others q (by omega) hqp, below.others q (old hq) (by omega), children_append hp, if_neg hqp]

/-- Elements that are all different, and not there yet, are all attached. -/
lemma exists_grown (wf : d.WellFormed) (hp : p < d.size) (nodup : f.elements.Nodup)
    (new : ∀ c ∈ p :: d.children p, ∀ e ∈ f.elements, d.element? c ≠ some e) :
    ∃ ns, Grown d p f ns (f.graft p d) := by
  induction f generalizing p d with
  | nil => exact ⟨[], wf, Extends.refl d, (List.append_nil _).symm, .nil, fun _ _ _ => rfl⟩
  | cons e b r ihb ihr =>
    rw [Forest.elements, List.nodup_cons, List.nodup_append] at nodup
    obtain ⟨own, nodupBelow, nodupRest, -⟩ := nodup
    have attached : d.attach p e = (d.size, d.append p e) := by
      rcases attach_cases hp e with ⟨n, hn, -⟩ | ⟨-, ha⟩
      · exact absurd hn.element? (new n hn.mem e List.mem_cons_self)
      · exact ha
    rw [Forest.graft, attached]
    have wf₁ := wf.append hp fun c hc => new c hc e List.mem_cons_self
    have there : d.size < (d.append p e).size := by rw [size_append]; omega
    obtain ⟨bs, below⟩ := ihb wf₁ there nodupBelow (by
      rw [children_append_self hp]
      intro c hc x hx hcx
      rw [List.mem_singleton.mp hc, element?_append_self] at hcx
      cases hcx
      exact own (List.mem_append_left _ hx))
    have grown := (Extends.append hp e).trans below.grown
    have size₂ := grown.size
    obtain ⟨rs, rest⟩ := ihr (p := p) below.wf (by omega) nodupRest (by
      rw [below.others p (by omega) (by omega), children_append hp, if_pos rfl, ← List.cons_append]
      intro c hc x hx hcx
      rcases List.mem_append.mp hc with hc | hc
      · have hlt : c < d.size := by
          rcases List.mem_cons.mp hc with rfl | hc
          · exact hp
          · exact wf.lt_size_of_mem hc
        rw [grown.element c hlt] at hcx
        exact new c hc x (List.mem_cons_of_mem e (List.mem_append_right _ hx)) hcx
      · rw [List.mem_singleton.mp hc, below.grown.element d.size there, element?_append_self] at hcx
        cases hcx
        exact own (List.mem_append_right _ hx))
    exact ⟨d.size :: rs, below.cons hp rest⟩

/-- The element that a node has, and the one that its parent has. -/
def link? (d : Document) (n : Nat) : Option (Element × Element) :=
  ((d.parent? n).bind d.element?).bind fun o => (d.element? n).map fun e => (o, e)

/-- What is met below a node, in order, is the forest that its children bear. -/
lemma Bears.map_link? (h : Bears d ns f) (wf : d.WellFormed) (hp : d.element? p = some o)
    (hns : ∀ n ∈ ns, d.parent? n = some p) : (ns.flatMap d.descendants).map d.link? = (f.links o).map some := by
  induction h generalizing p o with
  | nil => rfl
  | @cons n ns e b r here _ _ ihb ihr =>
    have link : d.link? n = some (o, e) := by
      rw [link?, hns n List.mem_cons_self, Option.bind_some, hp, Option.bind_some, here, Option.map_some]
    have inside := ihb here fun c hc => (wf.linked c n).mp hc
    have behind := ihr hp fun m hm => hns m (List.mem_cons_of_mem n hm)
    rw [List.flatMap_cons, List.map_append, behind, wf.descendants_eq, List.map_cons, inside, link, Forest.links]
    simp

end Document

end CiWorkflow.Tree
