import CiWorkflow.Proofs.Tree.Ancestry
import CiWorkflow.Proofs.Tree.Content
import CiWorkflow.Tree.Workflow

/-!
# Up and down a document

What a walk with a stack meets below a node are the nodes from which one comes to it going up, so going
up from a node finds the deepest of the nodes that have it below them.
-/

namespace CiWorkflow.Tree.Document

variable {d : Document} {a b n p : Nat} {stack met met' : List Nat}

/-! ### Down with a stack -/

/-- What is met by going on like this: the top of a stack is met, and its children take its place. -/
inductive Walks (d : Document) : List Nat → List Nat → Prop
  | done : Walks d [] []
  | visit {n : Nat} {stack met : List Nat} (rest : Walks d (d.children n ++ stack) met) :
      Walks d (n :: stack) (n :: met)

lemma Walks.unique (h : d.Walks stack met) (h' : d.Walks stack met') : met = met' := by
  induction h generalizing met' with
  | done =>
    cases h'
    rfl
  | visit _ ih =>
    cases h' with
    | visit rest => rw [ih rest]

/-- Trees are walked one after the other where each of them is walked whole. -/
lemma Walks.forest {ns : List Nat}
    (trees : ∀ n ∈ ns, ∀ stack met, d.Walks stack met → d.Walks (n :: stack) (d.descendants n ++ met))
    (h : d.Walks stack met) : d.Walks (ns ++ stack) (ns.flatMap d.descendants ++ met) := by
  induction ns with
  | nil => exact h
  | cons n ns ih =>
    rw [List.flatMap_cons, List.append_assoc]
    exact trees n List.mem_cons_self _ _ (ih fun m hm => trees m (List.mem_cons_of_mem n hm))

/-! ### Depth -/

/-- The number of nodes above a node. -/
def depth (d : Document) (n : Nat) : Nat := (d.ancestors n).length

/-- Of the nodes with a property the one that has the most nodes above it; `none` where no node has the
property. -/
def IsDeepest (d : Document) (s : Nat → Prop) : Option Nat → Prop
  | none => ∀ a, ¬ s a
  | some a => s a ∧ ∀ b, s b → b ≠ a → d.depth b < d.depth a

lemma IsDeepest.unique {s : Nat → Prop} {x y : Option Nat} (hx : d.IsDeepest s x) (hy : d.IsDeepest s y) : x = y := by
  cases x with
  | none =>
    cases y with
    | none => rfl
    | some b => exact absurd hy.1 (hx b)
  | some a =>
    cases y with
    | none => exact absurd hx.1 (hy a)
    | some b =>
      by_contra hne
      have hab : b ≠ a := fun h => hne (congrArg some h.symm)
      have below := hx.2 b hy.1 hab
      have above := hy.2 a hx.1 hab.symm
      omega

lemma isDeepest_congr {s t : Nat → Prop} (h : ∀ a, s a ↔ t a) (x : Option Nat) :
    d.IsDeepest s x ↔ d.IsDeepest t x := by
  have same : s = t := funext fun a => propext (h a)
  rw [same]

namespace WellFormed

variable (h : d.WellFormed)

include h

lemma walks_descendants (n : Nat) : ∀ stack met, d.Walks stack met → d.Walks (n :: stack) (d.descendants n ++ met) := by
  refine h.induction_children (P := fun n => ∀ stack met, d.Walks stack met →
    d.Walks (n :: stack) (d.descendants n ++ met)) (fun n ih stack met rest => ?_) n
  rw [h.descendants_eq]
  exact .visit (Walks.forest ih rest)

/-- A walk that starts at a node ends, and meets what is at and below the node in order. -/
lemma walks_iff : d.Walks [n] met ↔ met = d.descendants n := by
  have whole : d.Walks [n] (d.descendants n) := by
    simpa using h.walks_descendants n [] [] .done
  constructor
  · intro hw
    exact hw.unique whole
  · rintro rfl
    exact whole

lemma depth_of_parent? (hp : d.parent? n = some p) : d.depth n = d.depth p + 1 := by
  rw [depth, h.ancestors_of_parent? hp, List.length_cons, depth]

lemma depth_lt_of_strictlyWithin : d.StrictlyWithin a n → d.depth a < d.depth n := by
  refine h.induction_parent (P := fun n => d.StrictlyWithin a n → d.depth a < d.depth n) (fun n ih ha => ?_) n
  obtain ⟨p, hp, hap⟩ := ha
  have step := h.depth_of_parent? hp
  rcases within_iff.mp hap with rfl | hap
  · omega
  · have := ih p hp hap
    omega

/-- A node is strictly below another one where the way down from that one meets it later. -/
lemma strictlyWithin_iff : d.StrictlyWithin a n ↔ n ∈ d.descendants a ∧ n ≠ a := by
  rw [h.mem_descendants_iff, within_iff]
  constructor
  · intro ha
    refine ⟨Or.inr ha, ?_⟩
    rintro rfl
    exact Nat.lt_irrefl _ (h.depth_lt_of_strictlyWithin ha)
  · rintro ⟨heq | ha, hne⟩
    · exact absurd heq.symm hne
    · exact ha

lemma isDeepest_enclosing? (q : Nat → Bool) (n : Nat) :
    d.IsDeepest (fun a => d.StrictlyWithin a n ∧ q a = true) (d.enclosing? n q) := by
  cases hf : d.enclosing? n q with
  | none =>
    rintro a ⟨ha, hq⟩
    exact List.find?_eq_none.mp hf a (h.mem_ancestors_iff.mpr ha) hq
  | some a =>
    obtain ⟨above, own, others⟩ := h.nearest_of_enclosing? hf
    refine ⟨⟨above, own⟩, fun b hb hne => ?_⟩
    rcases within_iff.mp (others b hb.1 hb.2) with heq | hba
    · exact absurd heq hne
    · exact h.depth_lt_of_strictlyWithin hba

/-- Going up finds the deepest node with a property that is above. -/
lemma enclosing?_eq_iff (q : Nat → Bool) (n : Nat) (found : Option Nat) :
    d.enclosing? n q = found ↔ d.IsDeepest (fun a => d.StrictlyWithin a n ∧ q a = true) found := by
  constructor
  · rintro rfl
    exact h.isDeepest_enclosing? q n
  · intro hf
    exact (h.isDeepest_enclosing? q n).unique hf

/-- Going up finds the deepest of the children of nodes with a key that have a node below them. -/
lemma enclosing?_parentKeyIs_eq_iff (key : String) (n : Nat) (found : Option Nat) :
    d.enclosing? n (d.parentKeyIs key) = found ↔
      d.IsDeepest (fun a => a ∈ d.select root (d.parentKeyIs key) ∧ n ∈ d.descendants a ∧ n ≠ a) found := by
  rw [h.enclosing?_eq_iff]
  refine isDeepest_congr (fun a => ?_) found
  have inside : d.parentKeyIs key a = true → a < d.size := by
    intro ha
    obtain ⟨p, hp, -⟩ := parentKeyIs_iff.mp ha
    exact lt_size_of_parent? hp
  rw [h.mem_select_root_iff inside, h.strictlyWithin_iff, and_comm]

end WellFormed

/-- In every document: a walk with a stack from a node meets its descendants, and these are the nodes from
which one comes to it going from node to parent; the job and the step around a node are the deepest of
all jobs and steps that have the node strictly below them; and going up with any condition finds the
deepest node with it that is above. There is none exactly where no node fits. -/
theorem navigation_agrees (h : d.Built) :
    (∀ a met, d.Walks [a] met ↔ met = d.descendants a) ∧
      (∀ a n, n ∈ d.descendants a ↔ d.Within a n) ∧
      (∀ n found, d.job? n = found ↔
        d.IsDeepest (fun j => j ∈ d.jobsBelow root ∧ n ∈ d.descendants j ∧ n ≠ j) found) ∧
      (∀ n found, d.step? n = found ↔
        d.IsDeepest (fun s => s ∈ d.stepsBelow root ∧ n ∈ d.descendants s ∧ n ≠ s) found) ∧
      ∀ q n found, d.enclosing? n q = found ↔ d.IsDeepest (fun a => d.StrictlyWithin a n ∧ q a = true) found := by
  have wf := h.wellFormed
  exact ⟨fun a met => wf.walks_iff, fun a n => wf.mem_descendants_iff, wf.enclosing?_parentKeyIs_eq_iff "jobs",
    wf.enclosing?_parentKeyIs_eq_iff "steps", wf.enclosing?_eq_iff⟩

/-- Where a step holds jobs of its own, the job around a node is the inner one. -/
theorem navigation_agrees_nested_jobs : ∃ d,
    ofText "jobs:\n  a:\n    steps:\n    - jobs:\n        b:\n          steps:\n          - uses: x" = .ok d ∧ d.Built ∧
      d.jobsBelow root = [2, 6] ∧ d.job? 10 = some 6 ∧
      d.IsDeepest (fun j => j ∈ d.jobsBelow root ∧ 10 ∈ d.descendants j ∧ 10 ≠ j) (some 6) := by
  obtain ⟨d, hd, jobs⟩ := exists_of_test
    "jobs:\n  a:\n    steps:\n    - jobs:\n        b:\n          steps:\n          - uses: x"
    (p := fun d => d.jobsBelow root == [2, 6] && d.job? 10 == some 6) (by decide +kernel)
  simp only [Bool.and_eq_true, beq_iff_eq] at jobs
  have built := Built.read hd
  exact ⟨d, hd, built, jobs.1, jobs.2, ((navigation_agrees built).2.2.1 10 (some 6)).mp jobs.2⟩

end CiWorkflow.Tree.Document
