import CiWorkflow.Proofs.Tree.Ancestry
import CiWorkflow.Proofs.Tree.Content

/-!
# The innermost node at a byte

The search for a byte goes down from the root to first children whose range holds the byte, and ends
where no child's does. Where children lie inside their parents and apart from each other it cannot go
wrong: every node whose range holds the byte is on its way.
-/

namespace CiWorkflow.Tree

namespace Document

variable {d : Document} {offset a n m p x c k : Nat}

/-- A byte lies in the range of a node. -/
def HasByte (d : Document) (offset n : Nat) : Prop :=
  ∃ r, d.range? n = some r ∧ r.start ≤ offset ∧ offset < r.stop

/-- A step of the search: to the first child that holds the byte. -/
def Inward (d : Document) (offset n c : Nat) : Prop :=
  ∃ before after, d.children n = before ++ c :: after ∧ d.HasByte offset c ∧ ∀ b ∈ before, ¬ d.HasByte offset b

/-- Whatever bytes a child has are its parent's, and no two children of a node have a byte in common. -/
structure Nested (d : Document) : Prop where
  inside : ∀ n p, d.parent? n = some p → ∀ offset, d.HasByte offset n → d.HasByte offset p
  disjoint : ∀ p, ∀ a ∈ d.children p, ∀ b ∈ d.children p, a ≠ b →
    ∀ offset, d.HasByte offset a → ¬ d.HasByte offset b

lemma covers_iff : d.covers offset n = true ↔ d.HasByte offset n := by
  unfold covers HasByte range?
  cases d.element? n with
  | none => simp
  | some e =>
    rw [Option.map_some, Option.getD_some, Option.bind_some, Element.covers]
    cases e.range? <;> simp [Text.Span.contains]

lemma inward_iff : d.Inward offset n c ↔ (d.children n).find? (d.covers offset) = some c := by
  rw [List.find?_eq_some_iff_append, covers_iff]
  constructor
  · rintro ⟨before, after, hc, own, others⟩
    refine ⟨own, before, after, hc, fun b hb => ?_⟩
    simpa [← covers_iff] using others b hb
  · rintro ⟨own, before, after, hc, others⟩
    refine ⟨before, after, hc, own, fun b hb => ?_⟩
    simpa [← covers_iff] using others b hb

lemma Inward.mem_children (h : d.Inward offset n c) : c ∈ d.children n := by
  obtain ⟨before, after, hc, -, -⟩ := h
  rw [hc]
  simp

lemma Inward.hasByte (h : d.Inward offset n c) : d.HasByte offset c := by
  obtain ⟨-, -, -, hc, -⟩ := h
  exact hc

lemma inward_unique : Relator.RightUnique (d.Inward offset) := by
  intro n a b ha hb
  rw [inward_iff] at ha hb
  exact Option.some.inj (ha.symm.trans hb)

/-- The search stops exactly where no child holds the byte. -/
lemma forall_not_inward_iff : (∀ c, ¬ d.Inward offset n c) ↔ ∀ c ∈ d.children n, ¬ d.HasByte offset c := by
  have stops : (∀ c, ¬ d.Inward offset n c) ↔ (d.children n).find? (d.covers offset) = none := by
    rw [Option.eq_none_iff_forall_ne_some]
    exact forall_congr' fun c => not_congr inward_iff
  rw [stops, List.find?_eq_none]
  exact forall₂_congr fun c _ => not_congr covers_iff

/-! ### The search -/

lemma descend_reached (offset k n : Nat) : Relation.ReflTransGen (d.Inward offset) n (d.descend offset k n) := by
  induction k generalizing n with
  | zero => exact Relation.ReflTransGen.refl
  | succ k ih =>
    rw [descend]
    split
    · exact Relation.ReflTransGen.refl
    · rename_i c hc
      exact Relation.ReflTransGen.head (inward_iff.mpr hc) (ih c)

/-- Where the search ends does not depend on the way. -/
lemma eq_of_ended {y : Nat} (hx : Relation.ReflTransGen (d.Inward offset) n x)
    (hy : Relation.ReflTransGen (d.Inward offset) n y)
    (endx : ∀ c, ¬ d.Inward offset x c) (endy : ∀ c, ¬ d.Inward offset y c) : x = y := by
  rcases Relation.ReflTransGen.total_of_right_unique inward_unique hx hy with hxy | hyx
  · rcases Relation.ReflTransGen.cases_head hxy with heq | ⟨c, hc, -⟩
    · exact heq
    · exact absurd hc (endx c)
  · rcases Relation.ReflTransGen.cases_head hyx with heq | ⟨c, hc, -⟩
    · exact heq.symm
    · exact absurd hc (endy c)

namespace WellFormed

variable (h : d.WellFormed)

include h

/-- There are never more steps to do than there are nodes behind a node. -/
lemma descend_ended (hk : d.size - n ≤ k) : ∀ c, ¬ d.Inward offset (d.descend offset k n) c := by
  induction k generalizing n with
  | zero =>
    intro c hc
    have := lt_size_of_mem_children hc.mem_children
    rw [descend] at this
    omega
  | succ k ih =>
    rw [descend]
    split
    · rename_i hf
      rw [forall_not_inward_iff]
      intro c hc
      rw [← covers_iff]
      exact List.find?_eq_none.mp hf c hc
    · rename_i c hf
      have := h.lt_of_mem_children (inward_iff.mpr hf).mem_children
      exact ih (by omega)

lemma nodeAt?_eq_some_iff : d.nodeAt? offset = some m ↔
    d.HasByte offset root ∧ Relation.ReflTransGen (d.Inward offset) root m ∧ ∀ c, ¬ d.Inward offset m c := by
  have reached := descend_reached (d := d) offset d.size root
  have ended : ∀ c, ¬ d.Inward offset (d.descend offset d.size root) c := h.descend_ended (by omega)
  unfold nodeAt?
  split
  · rename_i hroot
    rw [Option.some.injEq]
    constructor
    · rintro rfl
      exact ⟨covers_iff.mp hroot, reached, ended⟩
    · rintro ⟨-, hm, endm⟩
      exact eq_of_ended reached hm ended endm
  · rename_i hroot
    simp [← covers_iff, hroot]

/-- Every node on the way of the search holds the byte, with all that are above it. -/
lemma hasByte_of_reached (hroot : d.HasByte offset root) (hm : Relation.ReflTransGen (d.Inward offset) root m)
    (ha : d.Within a m) : d.HasByte offset a := by
  induction hm with
  | refl =>
    rcases within_iff.mp ha with rfl | ⟨p, hp, -⟩
    · exact hroot
    · rw [h.top] at hp
      cases hp
  | @tail x c _ step ih =>
    rcases within_iff.mp ha with rfl | ha
    · exact step.hasByte
    · exact ih ((strictlyWithin_of_parent? ((h.linked c x).mp step.mem_children)).mp ha)

/-- What is strictly below a node is at or below one of its children. -/
lemma exists_child_of_strictlyWithin (ha : d.StrictlyWithin a n) : ∃ c ∈ d.children a, d.Within c n := by
  rcases Relation.ReflTransGen.cases_tail ha.within with heq | ⟨c, hc, hca⟩
  · obtain ⟨p, hp, hap⟩ := ha
    have := h.le_of_within hap
    have := h.lt_of_parent? hp
    omega
  · exact ⟨c, (h.linked c a).mpr hca, hc⟩

end WellFormed

/-! ### Nested documents -/

namespace Nested

variable (nested : d.Nested)

include nested

lemma hasByte_above (ha : d.Within a n) (hn : d.HasByte offset n) : d.HasByte offset a := by
  induction ha with
  | refl => exact hn
  | tail _ hp ih => exact nested.inside _ _ hp offset ih

/-- A node that holds the byte and is strictly below a node is at or below the child that the search
goes to from there. -/
lemma within_of_inward (h : d.WellFormed) (hn : d.HasByte offset n) (ha : d.StrictlyWithin a n)
    (step : d.Inward offset a c) : d.Within c n := by
  obtain ⟨c', hc', below⟩ := h.exists_child_of_strictlyWithin ha
  by_cases heq : c = c'
  · rwa [heq]
  · have held := nested.hasByte_above below hn
    exact absurd held (nested.disjoint a c step.mem_children c' hc' heq offset step.hasByte)

/-- The search passes a node that holds the byte or stays above it. -/
lemma within_or_within (h : d.WellFormed) (hn : d.HasByte offset n)
    (hm : Relation.ReflTransGen (d.Inward offset) root m) : d.Within n m ∨ d.Within m n := by
  induction hm with
  | refl =>
    obtain ⟨r, hr, -⟩ := hn
    exact Or.inr (h.within_root (lt_size_of_range? hr))
  | @tail x c _ step ih =>
    have up : d.parent? c = some x := (h.linked c x).mp step.mem_children
    rcases ih with hx | hx
    · exact Or.inl (Relation.ReflTransGen.head up hx)
    · rcases within_iff.mp hx with rfl | hx
      · exact Or.inl (Relation.ReflTransGen.head up Relation.ReflTransGen.refl)
      · exact Or.inr (nested.within_of_inward h hn hx step)

/-- Every node that holds the byte is the one that is found, or above it. -/
lemma exists_nodeAt? (h : d.WellFormed) (hn : d.HasByte offset n) :
    ∃ m, d.nodeAt? offset = some m ∧ d.Within n m := by
  obtain ⟨r, hr, hin⟩ := hn
  have hroot := nested.hasByte_above (h.within_root (lt_size_of_range? hr)) ⟨r, hr, hin⟩
  have reached := descend_reached (d := d) offset d.size root
  have ended : ∀ c, ¬ d.Inward offset (d.descend offset d.size root) c := h.descend_ended (by omega)
  refine ⟨_, h.nodeAt?_eq_some_iff.mpr ⟨hroot, reached, ended⟩, ?_⟩
  rcases nested.within_or_within h ⟨r, hr, hin⟩ reached with hx | hx
  · exact hx
  · rcases within_iff.mp hx with heq | hx
    · exact within_iff.mpr (Or.inl heq.symm)
    · obtain ⟨c, hc, below⟩ := h.exists_child_of_strictlyWithin hx
      exact absurd (nested.hasByte_above below ⟨r, hr, hin⟩) (forall_not_inward_iff.mp ended c hc)

end Nested

lemma hasByte_iff_of_range? {r : Text.Span} (hr : d.range? n = some r) :
    d.HasByte offset n ↔ r.start ≤ offset ∧ offset < r.stop := by
  constructor
  · rintro ⟨s, hs, hin⟩
    rw [hr] at hs
    cases hs
    exact hin
  · intro hin
    exact ⟨r, hr, hin⟩

/-- The documents that are read from texts are nested. -/
lemma nested_of_positioned {text : String} (h : Positioned text d) : d.Nested := by
  refine ⟨fun n p hp offset hn => ?_, fun p a ha b hb hab offset => ?_⟩
  · obtain ⟨r, s, hr, hs, within⟩ := h.nested n p hp
    rw [hasByte_iff_of_range? hr] at hn
    rw [hasByte_iff_of_range? hs]
    have := within.1
    have := within.2
    omega
  · have apart : (d.children p).Pairwise fun a b => ¬ (d.HasByte offset a ∧ d.HasByte offset b) := by
      refine (h.apart p).imp fun {a b} hab => ?_
      obtain ⟨r, s, hr, hs, before⟩ := hab
      rw [hasByte_iff_of_range? hr, hasByte_iff_of_range? hs]
      simp only [Text.Span.Before] at before
      omega
    have symm : Std.Symm fun a b => ¬ (d.HasByte offset a ∧ d.HasByte offset b) := ⟨fun _ _ h k => h ⟨k.2, k.1⟩⟩
    intro hx hy
    exact apart.forall ha hb hab ⟨hx, hy⟩

/-- In every document: what is found at a byte is where the search from the root ends, which it always
does, and nothing is found exactly where the root has no range that holds the byte; the node that is
found and all above it hold the byte, and none of its children does. In a nested document every node
that holds the byte is the one that is found or above it, and documents that are read from texts are
nested. -/
theorem innermost_node (h : d.Built) (offset : Nat) :
    (∀ m, d.nodeAt? offset = some m ↔
        d.HasByte offset root ∧ Relation.ReflTransGen (d.Inward offset) root m ∧ ∀ c, ¬ d.Inward offset m c) ∧
      (d.nodeAt? offset = none ↔ ¬ d.HasByte offset root) ∧
      (∀ m, d.nodeAt? offset = some m →
        (∀ a, d.Within a m → d.HasByte offset a) ∧ ∀ c ∈ d.children m, ¬ d.HasByte offset c) ∧
      (d.Nested → ∀ n, d.HasByte offset n → ∃ m, d.nodeAt? offset = some m ∧ d.Within n m) ∧
      ∀ text d', ofText text = .ok d' → d'.Nested := by
  have wf := h.wellFormed
  refine ⟨fun m => wf.nodeAt?_eq_some_iff, ?_, fun m hm => ?_, fun nested n hn => nested.exists_nodeAt? wf hn, ?_⟩
  · rw [← covers_iff, nodeAt?]
    split <;> simp_all
  · obtain ⟨hroot, reached, ended⟩ := wf.nodeAt?_eq_some_iff.mp hm
    exact ⟨fun a ha => wf.hasByte_of_reached hroot reached ha, forall_not_inward_iff.mp ended⟩
  · intro text d' hd
    exact nested_of_positioned ((positions_of_document text).2 d' hd)

/-- Between a key and its value the entry is the innermost node. -/
theorem innermost_node_of_entry : ∃ d, ofText "jobs:\n  a: x\n  b: ''" = .ok d ∧ d.Built ∧ d.Nested ∧
    d.nodeAt? 17 = some 4 ∧ ∀ n, d.HasByte 17 n → d.Within n 4 := by
  obtain ⟨d, hd, found⟩ := exists_of_test "jobs:\n  a: x\n  b: ''" (p := fun d => d.nodeAt? 17 == some 4)
    (by decide +kernel)
  rw [beq_iff_eq] at found
  have built := Built.read hd
  obtain ⟨-, -, -, passed, read⟩ := innermost_node built 17
  have nested := read _ d hd
  refine ⟨d, hd, built, nested, found, fun n hn => ?_⟩
  obtain ⟨m, hm, within⟩ := passed nested n hn
  rw [found] at hm
  cases hm
  exact within

end Document

end CiWorkflow.Tree
