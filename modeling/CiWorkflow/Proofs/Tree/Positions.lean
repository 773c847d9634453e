import CiWorkflow.Proofs.Tree.Laid
import CiWorkflow.Proofs.Yaml.Stream
import CiWorkflow.Tree.Reading

/-!
# Positions in documents

Every node of a document that was read from a text has a range in the text, its children lie inside of
it in their order, and a text node holds exactly the text at its range. Attaching an element keeps this
where everything below the node ends in front of the element, also where the element is there already:
the node that is found then is the parent, which has nothing behind the element's start, or an empty
child.
-/

namespace CiWorkflow.Tree

open Text (Span IsCut byteLength)
open Yaml (ConcreteTree Kind)
open Yaml.ConcreteTree (Lawful)

namespace Document

variable {source : List Char} {d d' : Document} {n p : Nat} {e : Element} {q r s : Span} {f : Forest}

/-! ### Grafting keeps what is there -/

lemma Extends.range? (h : d.Extends d') (hn : n < d.size) : d'.range? n = d.range? n := by
  unfold Document.range?
  rw [h.element n hn]

lemma lt_size_of_range? (h : d.range? n = some r) : n < d.size := by
  obtain ⟨e, he, -⟩ := Option.bind_eq_some_iff.mp h
  exact lt_size_of_element? he

lemma Extends.range?_of_some (h : d.Extends d') (hr : d.range? n = some r) : d'.range? n = some r := by
  rw [h.range? (lt_size_of_range? hr), hr]

/-- A child that was there before was a child of the same node. -/
lemma Extends.mem_children (h : d.Extends d') (wf : d.WellFormed) (wf' : d'.WellFormed) (hn : n < d.size)
    (hc : n ∈ d'.children p) : n ∈ d.children p := by
  rw [wf.linked, ← h.parent n hn]
  exact (wf'.linked n p).mp hc

lemma extends_graft (f : Forest) (p : Nat) (d : Document) : d.Extends (f.graft p d) := by
  induction f generalizing p d with
  | nil => exact Extends.refl d
  | cons e b r ihb ihr => exact ((Extends.attach d p e).trans (ihb _ _)).trans (ihr _ _)

lemma WellFormed.graft (h : d.WellFormed) (f : Forest) (p : Nat) : (f.graft p d).WellFormed := by
  induction f generalizing p d with
  | nil => exact h
  | cons e b r ihb ihr => exact ihr (ihb (h.attach p e) _) _

lemma source_attach (d : Document) (p : Nat) (e : Element) : (d.attach p e).2.source = d.source := by
  by_cases hp : p < d.size
  · rcases attach_cases hp e with ⟨n, -, ha⟩ | ⟨-, ha⟩ <;> rw [ha]
    rfl
  · rw [attach_of_size_le (by omega)]

lemma source_graft (f : Forest) (p : Nat) (d : Document) : (f.graft p d).source = d.source := by
  induction f generalizing p d with
  | nil => rfl
  | cons e b r ihb ihr => rw [Forest.graft, ihr, ihb, source_attach]

lemma element?_append_self (d : Document) (p : Nat) (e : Element) : (d.append p e).element? d.size = some e := by
  rw [element?_append, if_pos rfl]

lemma children_append_self (hp : p < d.size) (e : Element) : (d.append p e).children d.size = [] := by
  rw [children_append hp, if_neg (by omega)]
  refine List.eq_nil_iff_forall_not_mem.mpr fun c hc => ?_
  have := lt_size_of_mem_children hc
  omega

/-! ### Documents in order -/

/-- Whether one of two nodes ends before the other starts. -/
def Apart (d : Document) (a b : Nat) : Prop :=
  ∀ r s, d.range? a = some r → d.range? b = some s → r.Before s ∨ s.Before r

instance : Std.Symm d.Apart := ⟨fun _ _ h r s hr hs => (h s r hs hr).symm⟩

/-- Every node has a range in a text, inside its parent's and behind those of the siblings before it. -/
structure Ordered (source : List Char) (d : Document) : Prop where
  wf : d.WellFormed
  spans : ∀ n e, d.element? n = some e → ∃ r, e.Spans source r
  nested : ∀ n p r s, d.parent? n = some p → d.range? n = some r → d.range? p = some s → r.Within s
  apart : ∀ p, (d.children p).Pairwise fun a b => ∀ r s, d.range? a = some r → d.range? b = some s → r.Before s

namespace Ordered

lemma range?_of_spans (he : d.element? n = some e) (hr : e.Spans source r) : d.range? n = some r := by
  unfold Document.range?
  rw [he]
  exact hr.range?

variable (h : Ordered source d)

include h

lemma exists_range? (hn : n < d.size) : ∃ e r, d.element? n = some e ∧ e.Spans source r ∧ d.range? n = some r := by
  obtain ⟨m, hm⟩ := exists_node? hn
  have he : d.element? n = some m.element := by rw [Document.element?, hm]; rfl
  obtain ⟨r, hr⟩ := h.spans n _ he
  exact ⟨_, r, he, hr, range?_of_spans he hr⟩

lemma ordered (hr : d.range? n = some r) : r.start ≤ r.stop := by
  obtain ⟨e, s, -, he, hs⟩ := h.exists_range? (lt_size_of_range? hr)
  rw [hs] at hr
  cases hr
  exact he.ordered

/-- An element is appended behind everything that its parent holds. -/
lemma append (he : e.Spans source r) (hp : d.range? p = some q) (hr : r.Within q)
    (new : ∀ c ∈ p :: d.children p, d.element? c ≠ some e)
    (before : ∀ c ∈ d.children p, ∀ s, d.range? c = some s → s.stop ≤ r.start) : Ordered source (d.append p e) := by
  have hlt := lt_size_of_range? hp
  have grown := Extends.append hlt e
  have here : (d.append p e).range? d.size = some r :=
    range?_of_spans (element?_append_self d p e) he
  refine ⟨h.wf.append hlt new, fun n x hx => ?_, fun n m u v hm hu hv => ?_, fun m => ?_⟩
  · rw [element?_append] at hx
    split at hx
    · cases hx
      exact ⟨r, he⟩
    · exact h.spans n x hx
  · rw [parent?_append] at hm
    split at hm
    · rename_i hn
      cases hm
      rw [hn, here] at hu
      rw [grown.range?_of_some hp] at hv
      cases hu
      cases hv
      exact hr
    · have hn := lt_size_of_parent? hm
      have hmn := h.wf.lt_of_parent? hm
      rw [grown.range? hn] at hu
      rw [grown.range? (by omega)] at hv
      exact h.nested n m u v hm hu hv
  · have old : ∀ {a b}, a ∈ d.children m → b ∈ d.children m →
        (∀ r s, d.range? a = some r → d.range? b = some s → r.Before s) →
        ∀ r s, (d.append p e).range? a = some r → (d.append p e).range? b = some s → r.Before s := by
      intro a b ha hb hab u v hu hv
      rw [grown.range? (h.wf.lt_size_of_mem ha)] at hu
      rw [grown.range? (h.wf.lt_size_of_mem hb)] at hv
      exact hab u v hu hv
    rw [children_append hlt]
    split
    · rename_i hm
      subst hm
      refine List.pairwise_append.mpr ⟨(h.apart m).imp_of_mem old, List.pairwise_singleton _ _, fun a ha b hb u v hu hv => ?_⟩
      rw [List.mem_singleton.mp hb, here] at hv
      rw [grown.range? (h.wf.lt_size_of_mem ha)] at hu
      cases hv
      exact before a ha u hu
    · exact (h.apart m).imp_of_mem old

/-- Attaching keeps the order, and what is below the node that stands for the element then ends in
front of the element. -/
lemma attach (he : e.Spans source r) (hp : d.range? p = some q) (hr : r.Within q)
    (before : ∀ c ∈ d.children p, ∀ s, d.range? c = some s → s.stop ≤ r.start) :
    Ordered source (d.attach p e).2 ∧ (d.attach p e).2.element? (d.attach p e).1 = some e ∧
      (∀ c ∈ (d.attach p e).2.children (d.attach p e).1, ∀ s, (d.attach p e).2.range? c = some s → s.stop ≤ r.start) ∧
      ∀ m, d.size ≤ m → m < (d.attach p e).2.size → m = (d.attach p e).1 := by
  have hlt := lt_size_of_range? hp
  rcases attach_cases hlt e with ⟨n, hn, ha⟩ | ⟨new, ha⟩ <;> rw [ha]
  · refine ⟨h, hn.element?, fun c hc s hs => ?_, fun m hm hm' => absurd hm' (Nat.not_lt.mpr hm)⟩
    rcases List.mem_cons.mp hn.mem with hnp | hchild
    · exact before c (hnp ▸ hc) s hs
    · -- the element is there already, so it is empty
      have here := range?_of_spans hn.element? he
      have inside := h.nested c n s r ((h.wf.linked c n).mp hc) hs here
      have empty := before n hchild r here
      exact Nat.le_trans inside.2 empty
  · refine ⟨h.append he hp hr new before, element?_append_self d p e, fun c hc => ?_, fun m hm hm' => ?_⟩
    · rw [children_append_self hlt] at hc
      cases hc
    · rw [size_append] at hm'
      change m = d.size
      omega

/-- Grafting keeps the order where everything below the node ends in front of what is grafted, and what
is new lies where that lies. -/
lemma graft (laid : Laid source s f) (hp : d.range? p = some q) (hs : s.Within q)
    (before : ∀ c ∈ d.children p, ∀ r, d.range? c = some r → r.stop ≤ s.start) :
    Ordered source (f.graft p d) ∧ ∀ n r, d.size ≤ n → (f.graft p d).range? n = some r → r.Within s := by
  induction laid generalizing d p q with
  | nil =>
    refine ⟨h, fun n r hn hr => ?_⟩
    have := lt_size_of_range? hr
    change n < d.size at this
    omega
  | @cons s r e b f here within below rest ihb ihf =>
    have started : ∀ c ∈ d.children p, ∀ u, d.range? c = some u → u.stop ≤ r.start :=
      fun c hc u hu => Nat.le_trans (before c hc u hu) within.1
    have attached := h.attach here hp (within.trans hs) started
    have grown := Extends.attach d p e
    rw [Forest.graft]
    rcases hd : d.attach p e with ⟨n, d₁⟩
    rw [hd] at attached grown
    dsimp only at attached grown ⊢
    obtain ⟨h₁, he, before₁, new₁⟩ := attached
    have below_grown := extends_graft b n d₁
    obtain ⟨h₂, new₂⟩ := ihb h₁ (range?_of_spans he here) (Span.Within.refl r) before₁
    -- all that is new so far lies in the range of the element
    have sofar : ∀ m u, d.size ≤ m → (b.graft n d₁).range? m = some u → u.Within r := by
      intro m u hm hu
      by_cases hm' : m < d₁.size
      · rw [below_grown.range? hm', new₁ m hm hm', range?_of_spans he here] at hu
        cases hu
        exact Span.Within.refl r
      · exact new₂ m u (by omega) hu
    have both_grown := grown.trans below_grown
    have before₂ : ∀ c ∈ (b.graft n d₁).children p, ∀ u, (b.graft n d₁).range? c = some u → u.stop ≤ r.stop := by
      intro c hc u hu
      by_cases hold : c < d.size
      · rw [both_grown.range? hold] at hu
        exact Nat.le_trans (started c (both_grown.mem_children h.wf h₂.wf hold hc) u hu) here.ordered
      · exact (sofar c u (by omega) hu).2
    have behind : (⟨r.stop, s.stop⟩ : Span).Within s := ⟨Nat.le_trans within.1 here.ordered, Nat.le_refl _⟩
    obtain ⟨h₃, new₃⟩ := ihf h₂ (both_grown.range?_of_some hp) (behind.trans hs) before₂
    refine ⟨h₃, fun m u hm hu => ?_⟩
    by_cases hm' : m < (b.graft n d₁).size
    · rw [(extends_graft f p (b.graft n d₁)).range? hm'] at hu
      exact (sofar m u hm hu).trans within
    · exact (new₃ m u (by omega) hu).trans behind

/-! ### What the order means -/

lemma within_of_within {a x : Nat} (hx : d.Within a x) (hs : d.range? x = some s) (hr : d.range? a = some r) :
    s.Within r := by
  induction hx using Relation.ReflTransGen.head_induction_on generalizing s with
  | refl =>
    rw [hr] at hs
    cases hs
    exact Span.Within.refl _
  | @head x m hm _ ih =>
    obtain ⟨-, u, -, -, hu⟩ := h.exists_range? ((h.wf.lt_of_parent? hm).trans (lt_size_of_parent? hm))
    exact (h.nested x m s u hm hs hu).trans (ih hu)

/-- A node and all below it are met by rising starts. -/
lemma rising (n : Nat) :
    (d.descendants n).Pairwise fun a b => ∀ r s, d.range? a = some r → d.range? b = some s → r.start ≤ s.start := by
  refine h.wf.induction_children (P := fun n => (d.descendants n).Pairwise fun a b =>
    ∀ r s, d.range? a = some r → d.range? b = some s → r.start ≤ s.start) (fun n ih => ?_) n
  rw [h.wf.descendants_eq, List.pairwise_cons]
  refine ⟨fun x hx r s hr hs => ?_, List.pairwise_flatMap.mpr ⟨ih, (h.apart n).imp_of_mem fun {a b} ha hb hab => ?_⟩⟩
  · have hx : x ∈ d.descendants n := by
      rw [h.wf.descendants_eq]
      exact List.mem_cons_of_mem n hx
    exact (h.within_of_within (h.wf.mem_descendants_iff.mp hx) hs hr).1
  · intro x hx y hy r s hr hs
    obtain ⟨-, u, -, -, hu⟩ := h.exists_range? (h.wf.lt_size_of_mem ha)
    obtain ⟨-, v, -, -, hv⟩ := h.exists_range? (h.wf.lt_size_of_mem hb)
    have left := h.within_of_within (h.wf.mem_descendants_iff.mp hx) hr hu
    have right := h.within_of_within (h.wf.mem_descendants_iff.mp hy) hs hv
    have ordered := h.ordered hr
    have apart := hab u v hu hv
    exact Nat.le_trans (Nat.le_trans ordered left.2) (Nat.le_trans apart right.1)

/-- Of two nodes neither of which is below the other, one ends before the other starts. -/
lemma within_or_apart (n : Nat) :
    ∀ a ∈ d.descendants n, ∀ b ∈ d.descendants n, d.Within a b ∨ d.Within b a ∨ d.Apart a b := by
  refine h.wf.induction_children (P := fun n =>
    ∀ a ∈ d.descendants n, ∀ b ∈ d.descendants n, d.Within a b ∨ d.Within b a ∨ d.Apart a b) (fun n ih a ha b hb => ?_) n
  have hna := h.wf.mem_descendants_iff.mp ha
  have hnb := h.wf.mem_descendants_iff.mp hb
  rw [h.wf.descendants_eq] at ha hb
  rcases List.mem_cons.mp ha with rfl | ha
  · exact Or.inl hnb
  rcases List.mem_cons.mp hb with rfl | hb
  · exact Or.inr (Or.inl hna)
  obtain ⟨x, hx, ha⟩ := List.mem_flatMap.mp ha
  obtain ⟨y, hy, hb⟩ := List.mem_flatMap.mp hb
  by_cases hxy : x = y
  · exact ih x hx a ha b (hxy ▸ hb)
  · -- they are below two children, which are apart
    refine Or.inr (Or.inr fun r s hr hs => ?_)
    obtain ⟨-, u, -, -, hu⟩ := h.exists_range? (h.wf.lt_size_of_mem hx)
    obtain ⟨-, v, -, -, hv⟩ := h.exists_range? (h.wf.lt_size_of_mem hy)
    have left := h.within_of_within (h.wf.mem_descendants_iff.mp ha) hr hu
    have right := h.within_of_within (h.wf.mem_descendants_iff.mp hb) hs hv
    have children : (d.children n).Pairwise d.Apart :=
      (h.apart n).imp fun hab r s hr hs => Or.inl (hab r s hr hs)
    exact (children.forall hx hy hxy u v hu hv).imp
      (fun before => Nat.le_trans left.2 (Nat.le_trans before right.1))
      fun before => Nat.le_trans right.2 (Nat.le_trans before left.1)

end Ordered

end Document

/-! ### Positioned documents -/

/-- The positions of a document that was read from a text. -/
structure Positioned (text : String) (d : Document) : Prop where
  whole : d.range? Document.root = some ⟨0, byteLength text.toList⟩
  valid : ∀ n < d.size, ∃ r, d.range? n = some r ∧ r.start ≤ r.stop ∧ r.stop ≤ byteLength text.toList ∧
    (d.sourceOf? n).isSome
  nested : ∀ n p, d.parent? n = some p → ∃ r s, d.range? n = some r ∧ d.range? p = some s ∧ r.Within s
  apart : ∀ p, (d.children p).Pairwise fun a b => ∃ r s, d.range? a = some r ∧ d.range? b = some s ∧ r.Before s
  visited : (d.descendants Document.root).Perm (List.range d.size)
  rising : (d.descendants Document.root).Pairwise fun a b =>
    ∃ r s, d.range? a = some r ∧ d.range? b = some s ∧ r.start ≤ s.start
  text : ∀ n x, d.text? n = some x → d.sourceOf? n = some x

namespace Document

lemma Ordered.positioned {text : String} (h : Ordered text.toList d) (hd : d.source = some text)
    (whole : d.range? root = some ⟨0, byteLength text.toList⟩) : Positioned text d := by
  have ranged {n : Nat} (hn : n < d.size) : ∃ r, d.range? n = some r := by
    obtain ⟨-, r, -, -, hr⟩ := h.exists_range? hn
    exact ⟨r, hr⟩
  have sliced {n : Nat} {e : Element} {r : Span} (hr : d.range? n = some r) (he : e.Spans text.toList r) :
      ∃ x, Text.slice text.toList r.start r.stop = some x ∧ d.sourceOf? n = some (String.ofList x) := by
    obtain ⟨x, hx⟩ := Text.exists_slice he.cut.1 he.cut.2 he.ordered
    refine ⟨x, hx, ?_⟩
    rw [sourceOf?, hr, hd]
    simp [Text.sliceString, hx]
  refine ⟨whole, fun n hn => ?_, fun n p hp => ?_, fun p => ?_, h.wf.descendants_root_perm, ?_, fun n x hx => ?_⟩
  · obtain ⟨e, r, -, he, hr⟩ := h.exists_range? hn
    obtain ⟨x, -, hx⟩ := sliced hr he
    exact ⟨r, hr, he.ordered, he.cut.2.le, by rw [hx]; rfl⟩
  · have hn := lt_size_of_parent? hp
    obtain ⟨r, hr⟩ := ranged hn
    obtain ⟨s, hs⟩ := ranged ((h.wf.lt_of_parent? hp).trans hn)
    exact ⟨r, s, hr, hs, h.nested n p r s hp hr hs⟩
  · refine (h.apart p).imp_of_mem fun {a b} ha hb hab => ?_
    obtain ⟨r, hr⟩ := ranged (h.wf.lt_size_of_mem ha)
    obtain ⟨s, hs⟩ := ranged (h.wf.lt_size_of_mem hb)
    exact ⟨r, s, hr, hs, hab r s hr hs⟩
  · refine (h.rising root).imp_of_mem fun {a b} ha hb hab => ?_
    obtain ⟨r, hr⟩ := ranged (h.wf.lt_size_of_within_root (h.wf.mem_descendants_iff.mp ha))
    obtain ⟨s, hs⟩ := ranged (h.wf.lt_size_of_within_root (h.wf.mem_descendants_iff.mp hb))
    exact ⟨r, s, hr, hs, hab r s hr hs⟩
  · obtain ⟨e, he, hx⟩ := Option.bind_eq_some_iff.mp hx
    obtain ⟨r, hr⟩ := h.spans n e he
    obtain ⟨y, hy, hsource⟩ := sliced (range?_of_spans he hr) hr
    rw [hr.text x hx] at hy
    cases hy
    rw [hsource, String.ofList_toList]

/-! ### Reading a text -/

variable {text : String} {t : ConcreteTree}

lemma wellFormed_ofSource (text : String) : (ofSource text).WellFormed := WellFormed.bare _ (some text)

lemma element?_ofSource (text : String) :
    (ofSource text).element? root = some (.container ⟨0, byteLength text.toList⟩) := rfl

lemma children_ofSource (text : String) (n : Nat) : (ofSource text).children n = [] := by
  refine List.eq_nil_iff_forall_not_mem.mpr fun c hc => ?_
  have hlt := (wellFormed_ofSource text).lt_of_mem_children hc
  have hsize : c < 1 := (wellFormed_ofSource text).lt_size_of_mem hc
  omega

lemma fits_whole (source : List Char) : Fits source ⟨0, byteLength source⟩ [] :=
  ⟨⟨Nat.zero_le _, nofun, List.Pairwise.nil⟩, Text.isCut_zero _, Text.isCut_byteLength _⟩

lemma ordered_ofSource (text : String) : Ordered text.toList (ofSource text) := by
  have wf := wellFormed_ofSource text
  refine ⟨wf, fun n e he => ?_, fun n p r s hp => ?_, fun p => ?_⟩
  · have hn : n < 1 := lt_size_of_element? he
    obtain rfl : n = root := by unfold root; omega
    rw [element?_ofSource] at he
    cases he
    exact ⟨_, (fits_whole text.toList).spans_container⟩
  · have hc := (wf.linked n p).mpr hp
    rw [children_ofSource] at hc
    cases hc
  · rw [children_ofSource]
    exact List.Pairwise.nil

lemma range?_root_ofSource (text : String) : (ofSource text).range? root = some ⟨0, byteLength text.toList⟩ :=
  Ordered.range?_of_spans (element?_ofSource text) (fits_whole text.toList).spans_container

/-- What is made of a well-placed tree is in order. -/
lemma ordered_ofConcrete (h : t.Everywhere fun _ => Fits text.toList) (hs : t.span.Within ⟨0, byteLength text.toList⟩) :
    Ordered text.toList (ofConcrete text t) := by
  have nothing : ∀ c ∈ (ofSource text).children root, ∀ r, (ofSource text).range? c = some r → r.stop ≤ t.span.start := by
    rw [children_ofSource]
    nofun
  rw [ofConcrete_eq_graft]
  exact ((ordered_ofSource text).graft (laid_forest h) (range?_root_ofSource text) hs nothing).1

lemma positioned_ofConcrete (h : t.Everywhere fun _ => Fits text.toList) (hs : t.span.Within ⟨0, byteLength text.toList⟩) :
    Positioned text (ofConcrete text t) := by
  have ordered := ordered_ofConcrete h hs
  rw [ofConcrete_eq_graft] at ordered ⊢
  refine ordered.positioned (source_graft _ _ _) ?_
  exact (extends_graft _ _ _).range?_of_some (range?_root_ofSource text)

lemma exists_of_ofText {d : Document} (h : ofText text = .ok d) :
    ∃ t, Yaml.ConcreteTree.ofText? text.toList = some t ∧ d = ofConcrete text t := by
  unfold ofText at h
  split at h
  · cases h
  · rename_i t ht
    cases h
    exact ⟨t, ht, rfl⟩

/-- The tree of a text is lawful and lies in the text. -/
lemma lawful_of_ofText? (h : Yaml.ConcreteTree.ofText? text.toList = some t) :
    t.Everywhere (Lawful text.toList) ∧ t.span.Within ⟨0, byteLength text.toList⟩ := by
  obtain ⟨-, hspan, lawful⟩ := Yaml.lawful_ofText? h
  refine ⟨lawful, ?_⟩
  rw [hspan]
  exact Span.Within.refl _

/-- The positions of a document are those of the tree that it was made of: whatever well-placed tree over
a text this is, and the tree of the text above all, every node has a range in the text, children lie in
their parents one behind the other, nodes are met by rising starts, and a text node holds the text at its
range. -/
theorem positions_of_document (text : String) :
    (∀ t : ConcreteTree, t.WellPlaced →
      (t.Everywhere fun _ s _ => IsCut text.toList s.start ∧ IsCut text.toList s.stop) →
      t.span.Within ⟨0, byteLength text.toList⟩ → Positioned text (ofConcrete text t)) ∧
      ∀ d, ofText text = .ok d → Positioned text d := by
  constructor
  · intro t placed cut hs
    exact positioned_ofConcrete (cut.and_placed placed) hs
  · intro d hd
    obtain ⟨t, ht, rfl⟩ := exists_of_ofText hd
    obtain ⟨lawful, within⟩ := lawful_of_ofText? ht
    exact positioned_ofConcrete (fits_of_lawful lawful) within

end Document

end CiWorkflow.Tree
