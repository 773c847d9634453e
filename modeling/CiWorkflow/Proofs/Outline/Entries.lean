import CiWorkflow.Proofs.Outline.Parameters
import CiWorkflow.Proofs.Tree.Ancestry

/-!
# What stands in a parameter

The entries of the `inputs` and `outputs` blocks at the top level declare parameters, and what stands in
such an entry describes one. The parameters of an action are the names of the nodes below any node with the
key of the block. So where an entry, or a node in one, has that key itself, what stands right below it is
taken for a parameter, and none else is: the names are all declared outside of the entries exactly where
each of those nodes has the name of a parameter that is.
-/

namespace CiWorkflow

open CiWorkflow.Tree (Document)

namespace Interface

variable {d : Document} {block name : String} {e n p : Nat}

/-- A node is an entry of a block at the top level. -/
def IsEntry (d : Document) (e : Nat) : Prop :=
  ∃ b, d.parent? e = some b ∧ d.parent? b = some Document.root ∧
    (d.key? b = some "inputs" ∨ d.key? b = some "outputs")

/-- A node stands below an entry of a block at the top level. -/
def InEntry (d : Document) (n : Nat) : Prop := ∃ e, IsEntry d e ∧ d.StrictlyWithin e n

/-- Some node that does not stand in an entry declares a parameter of an action under a name. -/
def DeclaredOutside (d : Document) (block name : String) : Prop :=
  ∃ n < d.size, Declares d false block name n ∧ ¬ InEntry d n

/-- No parameter is only declared by what stands in an entry. -/
structure NoneMistaken (d : Document) (i : Interface) : Prop where
  inputs : ∀ name ∈ i.inputs.map Prod.fst, DeclaredOutside d "inputs" name
  outputs : ∀ name ∈ i.outputs.map Prod.fst, DeclaredOutside d "outputs" name

/-- What stands right below a node that has the key of a block and is, or stands in, an entry has the name
of a parameter that is declared outside. -/
def FieldsDeclared (d : Document) (block : String) : Prop :=
  ∀ p n name, IsEntry d p ∨ InEntry d p → d.key? p = some block → d.parent? n = some p →
    d.Named n name → name ≠ "" → DeclaredOutside d block name

lemma inEntry_iff (hp : d.parent? n = some p) : InEntry d n ↔ IsEntry d p ∨ InEntry d p := by
  constructor
  · rintro ⟨e, he, hn⟩
    rcases Document.within_iff.mp ((Document.strictlyWithin_of_parent? hp).mp hn) with rfl | hin
    · exact Or.inl he
    · exact Or.inr ⟨e, he, hin⟩
  · rintro (he | ⟨e, he, hin⟩)
    · exact ⟨p, he, p, hp, Relation.ReflTransGen.refl⟩
    · exact ⟨e, he, p, hp, hin.within⟩

/-- Neither an entry nor what stands in one stands at the top level. -/
lemma parent_ne_root (h : d.WellFormed) (hn : IsEntry d n ∨ InEntry d n) : d.parent? n ≠ some Document.root := by
  have entry {e : Nat} (he : IsEntry d e) : Document.root < e := by
    obtain ⟨b, hb, hroot, -⟩ := he
    exact (h.lt_of_parent? hroot).trans (h.lt_of_parent? hb)
  intro hroot
  rcases hn with ⟨b, hb, htop, -⟩ | ⟨e, he, q, hq, hin⟩
  · rw [hroot] at hb
    cases hb
    rw [h.top] at htop
    cases htop
  · rw [hroot] at hq
    cases hq
    have := h.le_of_within hin
    have := entry he
    omega

/-- The names that an action declares are all declared outside of the entries exactly where those of what
is taken for an entry are. -/
lemma declaredOutside_iff (h : d.WellFormed) (block : String) :
    (∀ name ∈ (parameters d false block).map Prod.fst, DeclaredOutside d block name) ↔ FieldsDeclared d block := by
  constructor
  · intro outside p n name hp hk hn hid hne
    have declares : Declares d false block name n :=
      ⟨hne, hid, p, hn, hk, fun hw => absurd hw Bool.false_ne_true⟩
    exact outside name ((mem_parameters_iff h).mpr ⟨n, Document.lt_size_of_parent? hn, declares⟩)
  · intro fields name hname
    obtain ⟨n, hn, declares⟩ := (mem_parameters_iff h).mp hname
    by_cases hin : InEntry d n
    · obtain ⟨hne, hid, p, hp, hk, -⟩ := declares
      exact fields p n name ((inEntry_iff hp).mp hin) hk hp hid hne
    · exact ⟨n, hn, declares, hin⟩

lemma noneMistaken_iff (h : d.WellFormed) {r : Reference} (hr : r.isWorkflow = false) :
    NoneMistaken d (ofDocument d r) ↔ FieldsDeclared d "inputs" ∧ FieldsDeclared d "outputs" := by
  rw [← declaredOutside_iff h, ← declaredOutside_iff h]
  unfold ofDocument
  rw [hr]
  exact ⟨fun ⟨i, o⟩ => ⟨i, o⟩, fun ⟨i, o⟩ => ⟨i, o⟩⟩

/-- However a document was built: of the parameters of an action none is declared only by what stands in an entry
of a block at the top level, exactly where all that stands right below a node that is, or stands in, an entry and
has the key of a block has the name of a parameter from outside; above all where no entry and nothing that stands
in one is keyed like a block. -/
theorem none_mistaken_iff (h : d.Built) {r : Reference} (hr : r.isWorkflow = false) :
    (NoneMistaken d (ofDocument d r) ↔ FieldsDeclared d "inputs" ∧ FieldsDeclared d "outputs") ∧
      ((∀ p, IsEntry d p ∨ InEntry d p → d.key? p ≠ some "inputs" ∧ d.key? p ≠ some "outputs") →
        NoneMistaken d (ofDocument d r)) := by
  refine ⟨noneMistaken_iff h.wellFormed hr, fun other => ?_⟩
  rw [noneMistaken_iff h.wellFormed hr]
  exact ⟨fun p n name hp hk => absurd hk (other p hp).1, fun p n name hp hk => absurd hk (other p hp).2⟩

/-- The fields of a parameter are not taken for parameters where the blocks are the only nodes that are
keyed like blocks. -/
theorem none_mistaken_described : ∃ d,
    Document.ofText "inputs:\n  ref:\n    description: x\noutputs:\n  ref:\n    value: y" = .ok d ∧
      d.Built ∧ (Reference.ofText "o/a@v1").isWorkflow = false ∧
      (∀ p, IsEntry d p ∨ InEntry d p → d.key? p ≠ some "inputs" ∧ d.key? p ≠ some "outputs") ∧
      NoneMistaken d (ofDocument d (Reference.ofText "o/a@v1")) := by
  obtain ⟨d, hd, hall⟩ := Document.exists_of_test
    "inputs:\n  ref:\n    description: x\noutputs:\n  ref:\n    value: y"
    (p := fun d => (List.range d.size).all fun p =>
      !(d.key? p == some "inputs" || d.key? p == some "outputs") || d.parent? p == some Document.root)
    (by decide +kernel)
  have built := Document.Built.read hd
  have action : (Reference.ofText "o/a@v1").isWorkflow = false := by decide
  have other : ∀ p, IsEntry d p ∨ InEntry d p → d.key? p ≠ some "inputs" ∧ d.key? p ≠ some "outputs" := by
    intro p hp
    have inside : p < d.size := by
      rcases hp with ⟨b, hb, -⟩ | ⟨e, -, q, hq, -⟩
      · exact Document.lt_size_of_parent? hb
      · exact Document.lt_size_of_parent? hq
    have blocks := List.all_eq_true.mp hall p (List.mem_range.mpr inside)
    have below := parent_ne_root built.wellFormed hp
    simp only [Bool.or_eq_true, Bool.not_eq_true', Bool.or_eq_false_iff, beq_iff_eq, beq_eq_false_iff_ne,
      below, or_false] at blocks
    exact blocks
  exact ⟨d, hd, built, action, other, (none_mistaken_iff built action).2 other⟩

/-- A field of a parameter that is called like the block is taken for a parameter. -/
theorem not_none_mistaken_parameter_inputs : ∃ d,
    Document.ofText "inputs:\n  inputs:\n    description: x" = .ok d ∧
      (Reference.ofText "o/a@v1").isWorkflow = false ∧
      ¬ NoneMistaken d (ofDocument d (Reference.ofText "o/a@v1")) := by
  obtain ⟨d, hd, hall⟩ := Document.exists_of_test "inputs:\n  inputs:\n    description: x"
    (p := fun d => d.key? 1 == some "inputs" && d.key? 2 == some "inputs" && d.parent? 1 == some Document.root &&
      d.parent? 2 == some 1 && d.parent? 3 == some 2 && d.identifier? 3 == some "description" &&
      (List.range d.size).all fun n => d.identifier? n != some "description" || n == 3)
    (by decide +kernel)
  simp only [Bool.and_eq_true, beq_iff_eq, List.all_eq_true, List.mem_range, Bool.or_eq_true, bne_iff_ne] at hall
  obtain ⟨⟨⟨⟨⟨⟨block, entry⟩, top⟩, below⟩, field⟩, named⟩, only⟩ := hall
  have action : (Reference.ofText "o/a@v1").isWorkflow = false := by decide
  have isEntry : IsEntry d 2 := ⟨1, below, top, Or.inl block⟩
  refine ⟨d, hd, action, fun hnone => ?_⟩
  have fields := ((noneMistaken_iff (Document.wellFormed_of_ofText hd) action).mp hnone).1
  have described : d.Named 3 "description" := Document.identifier?_eq_some_iff.mp named
  obtain ⟨n, hn, declares, outside⟩ := fields 2 3 "description" (Or.inl isEntry) entry field described (by decide)
  rcases only n hn with other | rfl
  · exact other (Document.identifier?_eq_some_iff.mpr declares.2.1)
  · exact outside ((inEntry_iff field).mpr (Or.inl isEntry))

end Interface

end CiWorkflow
