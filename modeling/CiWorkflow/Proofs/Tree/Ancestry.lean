import CiWorkflow.Proofs.Tree.Preorder

/-!
# The nodes above a node

In a well-formed document the way up from a node ends at the root before its height is used up, so the
ancestors of a node are all the nodes that it lies strictly within, and the nearest one that satisfies a
condition lies within all others that do.
-/

namespace CiWorkflow.Tree.Document

variable {d : Document} {a b n p x : Nat}

/-- `x` lies below `a`: its parent is `a` or lies below it. -/
def StrictlyWithin (d : Document) (a x : Nat) : Prop := ∃ p, d.parent? x = some p ∧ d.Within a p

/-- The node with a property that stands above a node and has no other such node between them. -/
def Nearest (d : Document) (q : Nat → Bool) (x a : Nat) : Prop :=
  d.StrictlyWithin a x ∧ q a = true ∧ ∀ b, d.StrictlyWithin b x → q b = true → d.Within b a

lemma StrictlyWithin.within (h : d.StrictlyWithin a x) : d.Within a x := by
  obtain ⟨p, hp, hap⟩ := h
  exact Relation.ReflTransGen.head hp hap

lemma within_iff : d.Within a x ↔ a = x ∨ d.StrictlyWithin a x := by
  constructor
  · intro h
    rcases Relation.ReflTransGen.cases_head h with rfl | ⟨p, hp, hap⟩
    · exact Or.inl rfl
    · exact Or.inr ⟨p, hp, hap⟩
  · rintro (rfl | h)
    · exact Relation.ReflTransGen.refl
    · exact h.within

lemma strictlyWithin_of_parent? (hp : d.parent? x = some p) : d.StrictlyWithin a x ↔ d.Within a p := by
  constructor
  · rintro ⟨q, hq, haq⟩
    rw [hp] at hq
    cases hq
    exact haq
  · intro hap
    exact ⟨p, hp, hap⟩

lemma parentKeyIs_iff {key : String} :
    d.parentKeyIs key n = true ↔ ∃ p, d.parent? n = some p ∧ d.key? p = some key := by
  rw [parentKeyIs, beq_iff_eq, Option.bind_eq_some_iff]

lemma ancestors_of_top (hp : d.parent? n = none) : d.ancestors n = [] := by
  unfold ancestors
  cases d.size with
  | zero => rfl
  | succ k => rw [above, hp]

lemma enclosing?_of_top (q : Nat → Bool) (hp : d.parent? n = none) : d.enclosing? n q = none := by
  rw [enclosing?, ancestors_of_top hp, List.find?_nil]

namespace WellFormed

variable (h : d.WellFormed)

include h

/-- What holds of a node when it holds of its parent holds of all nodes. -/
lemma induction_parent {P : Nat → Prop} (step : ∀ n, (∀ p, d.parent? n = some p → P p) → P n) (n : Nat) : P n := by
  induction n using Nat.strong_induction_on with
  | h n ih => exact step n fun p hp => ih p (h.lt_of_parent? hp)

/-! ### The list of ancestors -/

/-- No more nodes are above a node than are in front of it. -/
lemma above_congr {k k' : Nat} (hk : n ≤ k) (hk' : n ≤ k') : d.above k n = d.above k' n := by
  induction k generalizing k' n with
  | zero =>
    obtain rfl : n = root := by unfold root; omega
    cases k' with
    | zero => rfl
    | succ k' => simp [above, h.top]
  | succ k ih =>
    cases k' with
    | zero =>
      obtain rfl : n = root := by unfold root; omega
      simp [above, h.top]
    | succ k' =>
      simp only [above]
      cases hp : d.parent? n with
      | none => rfl
      | some p =>
        have hlt := h.lt_of_parent? hp
        exact congrArg (p :: ·) (ih (by omega) (by omega))

lemma ancestors_of_parent? (hp : d.parent? n = some p) : d.ancestors n = p :: d.ancestors p := by
  have hn := lt_size_of_parent? hp
  have higher : d.ancestors n = d.above (d.size + 1) n := h.above_congr (by omega) (by omega)
  rw [higher, above, hp]
  rfl

lemma mem_ancestors_iff : a ∈ d.ancestors x ↔ d.StrictlyWithin a x := by
  refine h.induction_parent (P := fun x => a ∈ d.ancestors x ↔ d.StrictlyWithin a x) (fun x ih => ?_) x
  cases hp : d.parent? x with
  | none => simp [ancestors_of_top hp, StrictlyWithin, hp]
  | some p => rw [h.ancestors_of_parent? hp, List.mem_cons, ih p hp, strictlyWithin_of_parent? hp, within_iff]

/-! ### The nearest ancestor -/

lemma enclosing?_of_parent? (q : Nat → Bool) (hp : d.parent? n = some p) :
    d.enclosing? n q = if q p = true then some p else d.enclosing? p q := by
  rw [enclosing?, h.ancestors_of_parent? hp, List.find?_cons]
  cases q p <;> rfl

/-- A parent that has the property is found at once. -/
lemma enclosing?_parent {q : Nat → Bool} (hp : d.parent? n = some p) (hq : q p = true) :
    d.enclosing? n q = some p := by
  rw [h.enclosing?_of_parent? q hp, if_pos hq]

lemma nearest_of_enclosing? {q : Nat → Bool} : d.enclosing? x q = some a → d.Nearest q x a := by
  refine h.induction_parent (P := fun x => d.enclosing? x q = some a → d.Nearest q x a) (fun x ih ha => ?_) x
  cases hp : d.parent? x with
  | none => rw [enclosing?_of_top q hp] at ha; cases ha
  | some p =>
    rw [h.enclosing?_of_parent? q hp] at ha
    split at ha
    · rename_i hq
      obtain rfl : p = a := Option.some.inj ha
      exact ⟨⟨p, hp, Relation.ReflTransGen.refl⟩, hq, fun b hb _ => (strictlyWithin_of_parent? hp).mp hb⟩
    · rename_i hq
      obtain ⟨above, own, others⟩ := ih p hp ha
      refine ⟨⟨p, hp, above.within⟩, own, fun b hb hqb => ?_⟩
      rcases within_iff.mp ((strictlyWithin_of_parent? hp).mp hb) with heq | hb
      · rw [heq] at hqb
        exact absurd hqb hq
      · exact others b hb hqb

/-- What is found going up is the nearest node with the property. -/
lemma enclosing?_eq_some_iff {q : Nat → Bool} : d.enclosing? x q = some a ↔ d.Nearest q x a := by
  refine ⟨h.nearest_of_enclosing?, fun ha => ?_⟩
  cases hf : d.enclosing? x q with
  | none => exact absurd ha.2.1 (List.find?_eq_none.mp hf a (h.mem_ancestors_iff.mpr ha.1))
  | some b =>
    obtain ⟨above, own, others⟩ := h.nearest_of_enclosing? hf
    rw [(h.le_of_within (ha.2.2 b above own)).antisymm (h.le_of_within (others a ha.1 ha.2.1))]

end WellFormed

end CiWorkflow.Tree.Document
