import CiWorkflow.Proofs.Tree.Arena
import Mathlib.Data.List.Flatten
import Mathlib.Data.List.Nodup
import Mathlib.Logic.Relation

/-!
# The order of a document

In a well-formed document the descendants of a node are the node itself and those of its children, one
child after the other. The depth of the search never cuts anything off, and from the root every node
is met exactly once.
-/

namespace CiWorkflow.Tree.Document

variable {d : Document} {a b n p x : Nat} {e : Element}

/-- `x` is `a`, or `a` is reached from `x` by going from node to parent. -/
def Within (d : Document) (a x : Nat) : Prop := Relation.ReflTransGen (fun n p => d.parent? n = some p) x a

namespace WellFormed

variable (h : d.WellFormed)

include h

/-! ### Down the tree -/

/-- Children come after their parents, so what holds of a node when it holds of its children holds of
all nodes. -/
lemma induction_children {P : Nat → Prop} (step : ∀ n, (∀ c ∈ d.children n, P c) → P n) (n : Nat) : P n := by
  have below : ∀ k n, d.size - n ≤ k → P n := by
    intro k
    induction k with
    | zero =>
      intro n hn
      refine step n fun c hc => ?_
      have := lt_size_of_mem_children hc
      omega
    | succ k ih =>
      intro n hn
      refine step n fun c hc => ih c ?_
      have := h.lt_of_mem_children hc
      omega
  exact below _ n le_rfl

/-- No more levels are below a node than there are nodes behind it. -/
lemma preorder_congr {k k' : Nat} (hk : d.size - n ≤ k) (hk' : d.size - n ≤ k') :
    d.preorder k n = d.preorder k' n := by
  induction k generalizing k' n with
  | zero =>
    have none : d.children n = [] := by
      refine List.eq_nil_iff_forall_not_mem.mpr fun c hc => ?_
      have := lt_size_of_mem_children hc
      omega
    cases k' with
    | zero => rfl
    | succ k' => simp [preorder, none]
  | succ k ih =>
    have fits {j : Nat} (hj : d.size - n ≤ j + 1) : ∀ c ∈ d.children n, d.size - c ≤ j := by
      intro c hc
      have := h.lt_of_mem_children hc
      omega
    cases k' with
    | zero =>
      have none : d.children n = [] := by
        refine List.eq_nil_iff_forall_not_mem.mpr fun c hc => ?_
        have := lt_size_of_mem_children hc
        omega
      simp [preorder, none]
    | succ k' =>
      simp only [preorder, List.cons.injEq, true_and]
      exact List.flatMap_congr fun c hc => ih (fits hk c hc) (fits hk' c hc)

lemma descendants_eq (n : Nat) : d.descendants n = n :: (d.children n).flatMap d.descendants := by
  have deeper : d.descendants n = d.preorder (d.size + 1) n := h.preorder_congr (by omega) (by omega)
  rw [deeper]
  rfl

lemma mem_descendants_self (n : Nat) : n ∈ d.descendants n := by
  rw [h.descendants_eq]
  exact List.mem_cons_self

/-! ### Subtrees -/

lemma le_of_within (hx : d.Within a x) : a ≤ x := by
  induction hx with
  | refl => exact le_rfl
  | tail _ hp ih => exact (h.lt_of_parent? hp).le.trans ih

/-- The subtree of a node is one stretch of the subtree of every node above. -/
lemma descendants_infix (hx : d.Within a x) : d.descendants x <:+: d.descendants a := by
  induction hx with
  | refl => exact List.infix_rfl
  | @tail b p hb hp ih =>
    refine ih.trans ?_
    obtain ⟨before, after, hc⟩ := List.append_of_mem ((h.linked b p).mpr hp)
    refine ⟨p :: before.flatMap d.descendants, after.flatMap d.descendants, ?_⟩
    rw [h.descendants_eq p, hc]
    simp

lemma mem_descendants_iff : x ∈ d.descendants a ↔ d.Within a x := by
  constructor
  · refine h.induction_children (P := fun a => x ∈ d.descendants a → d.Within a x) (fun a ih hx => ?_) a
    rw [h.descendants_eq] at hx
    rcases List.mem_cons.mp hx with rfl | hx
    · exact Relation.ReflTransGen.refl
    · obtain ⟨c, hc, hx⟩ := List.mem_flatMap.mp hx
      exact (ih c hc hx).tail ((h.linked c a).mp hc)
  · intro hx
    exact (h.descendants_infix hx).subset (h.mem_descendants_self x)

/-- Two children of one node have nothing below them in common. -/
lemma eq_of_within_children (ha : a ∈ d.children p) (hb : b ∈ d.children p) (hax : d.Within a x)
    (hbx : d.Within b x) : a = b := by
  have unique : Relator.RightUnique fun n p => d.parent? n = some p := by
    intro n q r hq hr
    exact Option.some.inj (hq.symm.trans hr)
  -- a child that lies within another child of its parent is that child
  have top {a b : Nat} (ha : a ∈ d.children p) (hb : b ∈ d.children p) (hab : d.Within a b) : a = b := by
    rcases Relation.ReflTransGen.cases_head hab with heq | ⟨q, hq, hqa⟩
    · exact heq.symm
    · have hpar : d.parent? b = some q := hq
      rw [(h.linked b p).mp hb] at hpar
      cases hpar
      have := h.le_of_within hqa
      have := h.lt_of_mem_children ha
      omega
  rcases Relation.ReflTransGen.total_of_right_unique unique hax hbx with hab | hba
  · exact (top hb ha hab).symm
  · exact top ha hb hba

lemma nodup_descendants (n : Nat) : (d.descendants n).Nodup := by
  refine h.induction_children (P := fun n => (d.descendants n).Nodup) (fun n ih => ?_) n
  rw [h.descendants_eq, List.nodup_cons]
  constructor
  · intro hn
    obtain ⟨c, hc, hn⟩ := List.mem_flatMap.mp hn
    have := h.le_of_within (h.mem_descendants_iff.mp hn)
    have := h.lt_of_mem_children hc
    omega
  · rw [List.nodup_flatMap]
    refine ⟨ih, (h.ascending n).imp_of_mem fun {a b} ha hb hab => ?_⟩
    intro x hax hbx
    have := h.eq_of_within_children ha hb (h.mem_descendants_iff.mp hax) (h.mem_descendants_iff.mp hbx)
    omega

/-- The children of a node are met in their order among what is below it. -/
lemma children_sublist (n : Nat) : (d.children n).Sublist (d.descendants n) := by
  rw [h.descendants_eq]
  refine List.Sublist.cons n ?_
  have single := List.Sublist.flatMap_right (d.children n) (f := fun c => [c]) (g := d.descendants)
    fun c _ => List.singleton_sublist.mpr (h.mem_descendants_self c)
  rwa [List.flatMap_singleton'] at single

/-- The grandchildren of the root are met in the order of their parents. -/
lemma grandchildren_sublist (q : Nat → Bool) :
    (((d.children root).filter q).flatMap d.children).Sublist (d.descendants root) := by
  rw [h.descendants_eq]
  refine List.Sublist.cons root ?_
  exact (List.Sublist.flatMap_right _ fun c _ => h.children_sublist c).trans (List.filter_sublist.flatMap _)

/-! ### From the root -/

lemma within_root (hx : x < d.size) : d.Within root x := by
  induction x using Nat.strong_induction_on with
  | h x ih =>
    by_cases hroot : x = root
    · subst hroot
      exact Relation.ReflTransGen.refl
    · obtain ⟨p, hp, hpar⟩ := h.rooted x hx hroot
      exact Relation.ReflTransGen.head hpar (ih p hp (by omega))

lemma lt_size_of_within_root (hx : d.Within root x) : x < d.size := by
  rcases Relation.ReflTransGen.cases_head hx with rfl | ⟨p, hp, -⟩
  · exact h.pos
  · exact lt_size_of_parent? hp

lemma mem_descendants_root (hx : x < d.size) : x ∈ d.descendants root := h.mem_descendants_iff.mpr (h.within_root hx)

lemma mem_select_root_iff {q : Nat → Bool} (hq : q x = true → x < d.size) : x ∈ d.select root q ↔ q x = true := by
  rw [select, List.mem_filter]
  exact and_iff_right_of_imp fun hx => h.mem_descendants_root (hq hx)

/-- Every node is met exactly once. -/
lemma descendants_root_perm : (d.descendants root).Perm (List.range d.size) := by
  refine (List.perm_ext_iff_of_nodup (h.nodup_descendants root) List.nodup_range).mpr fun x => ?_
  rw [h.mem_descendants_iff, List.mem_range]
  exact ⟨h.lt_size_of_within_root, h.within_root⟩

lemma descendants_sublist_root (hx : x < d.size) : (d.descendants x).Sublist (d.descendants root) :=
  (h.descendants_infix (h.within_root hx)).sublist

/-- A parent is met before its children. -/
lemma parent_before (hp : d.parent? n = some p) : [p, n].Sublist (d.descendants root) := by
  have hc := (h.linked n p).mpr hp
  refine List.Sublist.trans ?_ (h.descendants_sublist_root (lt_size_of_mem_children hc))
  rw [h.descendants_eq p]
  refine List.Sublist.cons_cons p (List.singleton_sublist.mpr ?_)
  exact List.mem_flatMap.mpr ⟨n, hc, h.mem_descendants_self n⟩

/-- All that is below a child is met before the next child. -/
lemma subtree_before (ha : a ∈ d.children p) (hb : b ∈ d.children p) (hab : a < b) :
    (d.descendants a ++ d.descendants b).Sublist (d.descendants root) := by
  refine List.Sublist.trans ?_ (h.descendants_sublist_root (lt_size_of_mem_children ha))
  have siblings : [a, b].Sublist (d.children p) := by
    obtain ⟨before, after, hc⟩ := List.append_of_mem ha
    have sorted := h.ascending p
    rw [hc] at hb sorted
    rw [hc]
    refine List.Sublist.trans ?_ (List.sublist_append_right before _)
    refine List.Sublist.cons_cons a (List.singleton_sublist.mpr ?_)
    rcases List.mem_append.mp hb with hb | hb
    · have := (List.pairwise_append.mp sorted).2.2 b hb a List.mem_cons_self
      omega
    · rcases List.mem_cons.mp hb with rfl | hb
      · omega
      · exact hb
  rw [h.descendants_eq p]
  refine List.Sublist.cons p ?_
  simpa using siblings.flatMap d.descendants

end WellFormed

/-! ### Documents that are made by attaching -/

/-- Whatever was attached below a root, the document is well-formed and each child is listed once; its
order meets every node exactly once, a parent before its children and all of a child's subtree before
the next child; and one more element changes nothing but the children of the node it is attached
below, and nothing at all when it is attached again. -/
theorem attachAll_arena (e : Element) (source : Option String) (es : List (Nat × Element)) :
    let d := attachAll { ofRoot e with source } es
    let order := d.descendants root
    (d.WellFormed ∧ ∀ n p, d.parent? n = some p → (d.children p).count n = 1) ∧
      (order.Perm (List.range d.size) ∧ (∀ a x, x ∈ d.descendants a ↔ d.Within a x) ∧
        (∀ n p, d.parent? n = some p → [p, n].Sublist order) ∧
        ∀ p, ∀ a ∈ d.children p, ∀ b ∈ d.children p, a < b →
          (d.descendants a ++ d.descendants b).Sublist order) ∧
      ∀ p < d.size, ∀ x, let (n, d') := d.attach p x
        d.Attached p x n d' ∧ ∀ more, (d'.attachAll more).attach p x = (n, d'.attachAll more) := by
  intro d order
  have h : d.WellFormed := (WellFormed.bare e source).attachAll es
  refine ⟨⟨h, fun n p hp => ?_⟩, ⟨h.descendants_root_perm, fun a x => h.mem_descendants_iff,
    fun n p hp => h.parent_before hp, fun p a ha b hb hab => h.subtree_before ha hb hab⟩, fun p hp x => ?_⟩
  · exact List.count_eq_one_of_mem ((h.ascending p).imp Nat.ne_of_lt) ((h.linked n p).mpr hp)
  · exact ⟨h.attached hp x, h.attach_again hp x⟩

end CiWorkflow.Tree.Document
