import CiWorkflow.Interface
import CiWorkflow.Outline.Basic
import CiWorkflow.Proofs.Tree.Content
import CiWorkflow.Proofs.Tree.Fields
import Mathlib.Data.String.Basic

/-!
# The parameters of a manifest

The parameters of a block are the names of the nodes right below it (`Document.Named`), each with the
description of the first node of that name in the order of the document (`Document.Describes`). The
entries that an outline lists for the block are found by another rule: it asks for a trigger anywhere
above where the parameters of a workflow ask for one right above, and for nothing above but the root
where those of an action ask for nothing. So what a workflow declares is listed, and what is listed for
an action is declared.
-/

namespace CiWorkflow

/-! ### Sorted bindings -/

namespace Text

/-- The keys of bindings ascend. -/
def Ascending {α : Type} (l : List (String × α)) : Prop := (l.map Prod.fst).Pairwise (· < ·)

lemma ascending_bindSorted {α : Type} {l : List (String × α)} (h : Ascending l) (k : String) (v : α) :
    Ascending (bindSorted k v l) := by
  induction l with
  | nil => exact List.pairwise_singleton _ _
  | cons b l ih =>
    obtain ⟨j, w⟩ := b
    obtain ⟨first, rest⟩ := List.pairwise_cons.mp h
    unfold bindSorted
    split
    · rename_i hlt
      refine List.pairwise_cons.mpr ⟨fun x hx => ?_, h⟩
      rcases List.mem_cons.mp hx with rfl | hx
      · exact hlt
      · exact lt_trans hlt (first x hx)
    · split
      · rename_i heq
        subst heq
        exact h
      · rename_i hlt hne
        refine List.pairwise_cons.mpr ⟨fun x hx => ?_, ih rest⟩
        rcases mem_keys_bindSorted.mp hx with rfl | hx
        · exact lt_of_le_of_ne (not_lt.mp hlt) (Ne.symm hne)
        · exact first x hx

/-- Where keys ascend, no binding hides another one. -/
lemma Ascending.lookup_eq_some_iff {α : Type} {l : List (String × α)} (h : Ascending l) {k : String} {v : α} :
    l.lookup k = some v ↔ (k, v) ∈ l := by
  induction l with
  | nil => simp
  | cons b l ih =>
    obtain ⟨j, w⟩ := b
    obtain ⟨first, rest⟩ := List.pairwise_cons.mp h
    by_cases hk : k = j
    · subst hk
      have behind : (k, v) ∉ l := fun hv => lt_irrefl k (first k (List.mem_map.mpr ⟨_, hv, rfl⟩))
      simp [behind, eq_comm]
    · have hb : (k == j) = false := by simpa using hk
      rw [List.lookup_cons, hb, List.mem_cons]
      simp [ih rest, hk]

lemma isSome_lookup_iff {α : Type} {l : List (String × α)} {k : String} :
    (l.lookup k).isSome = true ↔ k ∈ l.map Prod.fst := by
  rw [← Bool.not_eq_false, Option.isSome_eq_false_iff, Option.isNone_iff_eq_none, List.lookup_eq_none_iff,
    List.mem_map]
  constructor
  · intro h
    by_contra hk
    exact h fun p hp => by simpa using fun heq => hk ⟨p, hp, heq.symm⟩
  · rintro ⟨p, hp, rfl⟩ h
    simpa using h p hp

end Text

open CiWorkflow.Tree (Document)

/-! ### What declares a parameter -/

namespace Interface

variable {d : Document} {workflow : Bool} {block name : String} {n : Nat}

/-- A node declares a parameter under a name: it stands right below a node that is keyed with the block,
and in a workflow that one has a node keyed `on` for its grandparent. -/
def Declares (d : Document) (workflow : Bool) (block name : String) (n : Nat) : Prop :=
  name ≠ "" ∧ d.Named n name ∧ ∃ p, d.parent? n = some p ∧ d.key? p = some block ∧
    (workflow = true → ∃ trigger top, d.parent? p = some trigger ∧ d.parent? trigger = some top ∧
      d.key? top = some "on")

/-- A node is the first one in the order of the document that declares a parameter under a name. -/
def DeclaresFirst (d : Document) (workflow : Bool) (block name : String) (n : Nat) : Prop :=
  ∃ before after, d.descendants Document.root = before ++ n :: after ∧ Declares d workflow block name n ∧
    ∀ m ∈ before, ¬ Declares d workflow block name m

lemma isParameter_iff : isParameter d workflow block n = true ↔
    ∃ p, d.parent? n = some p ∧ d.key? p = some block ∧
      (workflow = true → ∃ trigger top, d.parent? p = some trigger ∧ d.parent? trigger = some top ∧
        d.key? top = some "on") := by
  unfold isParameter
  cases d.parent? n with
  | none => simp
  | some p =>
    have above : (((d.parent? p).bind d.parent?).bind d.key? == some "on") = true ↔
        ∃ trigger top, d.parent? p = some trigger ∧ d.parent? trigger = some top ∧ d.key? top = some "on" := by
      rw [beq_iff_eq, Option.bind_eq_some_iff]
      simp only [Option.bind_eq_some_iff]
      constructor
      · rintro ⟨top, ⟨trigger, hp, ht⟩, hk⟩
        exact ⟨trigger, top, hp, ht, hk⟩
      · rintro ⟨trigger, top, hp, ht, hk⟩
        exact ⟨top, ⟨trigger, hp, ht⟩, hk⟩
    simp only [Bool.and_eq_true, Bool.or_eq_true, Document.keyIs, beq_iff_eq, above, Option.some.injEq,
      exists_eq_left']
    cases workflow <;> simp

/-- Whether a node has a name, which must not be empty. -/
def named (d : Document) (name : String) (n : Nat) : Bool := d.identifier? n == some name && name != ""

lemma declares_iff :
    Declares d workflow block name n ↔ isParameter d workflow block n = true ∧ named d name n = true := by
  rw [isParameter_iff, Declares, named, Bool.and_eq_true, beq_iff_eq, bne_iff_ne, Document.identifier?_eq_some_iff]
  constructor
  · rintro ⟨hne, hid, hp⟩
    exact ⟨hp, hid, hne⟩
  · rintro ⟨hp, hid, hne⟩
    exact ⟨hne, hid, hp⟩

/-! ### How parameters are collected -/

/-- Adds the parameter that a node declares. -/
def declareNode (d : Document) (ps : Parameters) (n : Nat) : Parameters :=
  match d.identifier? n with
  | none => ps
  | some name => if name = "" then ps else declare ps name ((d.description? n).getD "")

lemma parameters_eq (d : Document) (workflow : Bool) (block : String) :
    parameters d workflow block =
      (d.select Document.root (isParameter d workflow block)).foldl (declareNode d) [] := rfl

lemma ascending_declareNode {ps : Parameters} (h : Text.Ascending ps) (n : Nat) :
    Text.Ascending (declareNode d ps n) := by
  unfold declareNode
  split
  · exact h
  · unfold declare
    split_ifs
    · exact h
    · exact h
    · exact Text.ascending_bindSorted h _ _

/-- A name that is there keeps its description, and one that is not there gets that of a node with this
name. -/
lemma lookup_declareNode (ps : Parameters) (n : Nat) :
    (declareNode d ps n).lookup name =
      (ps.lookup name).or (if named d name n then some ((d.description? n).getD "") else none) := by
  unfold declareNode named
  cases d.identifier? n with
  | none => simp
  | some own =>
    by_cases hown : own = ""
    · subst hown
      by_cases hname : name = ""
      · simp [hname]
      · have other : (some "" == some name) = false := by simpa using Ne.symm hname
        simp [other]
    · by_cases hname : name = own
      · subst hname
        cases hl : ps.lookup name with
        | none => simp [hown, declare, hl, Text.lookup_bindSorted_self]
        | some v => simp [hown, declare, hl]
      · have other : (some own == some name) = false := by simpa using Ne.symm hname
        simp only [hown, if_false, declare, other, Bool.false_and, Bool.false_eq_true, Option.or_none]
        split
        · rfl
        · exact Text.lookup_bindSorted_of_ne hname _ _

/-- The first node with a name counts. -/
lemma lookup_foldl (ns : List Nat) (ps : Parameters) :
    (ns.foldl (declareNode d) ps).lookup name =
      (ps.lookup name).or ((ns.find? (named d name)).map fun n => (d.description? n).getD "") := by
  induction ns generalizing ps with
  | nil => simp
  | cons n ns ih =>
    rw [List.foldl_cons, ih, lookup_declareNode, Option.or_assoc, List.find?_cons]
    cases named d name n <;> simp

lemma ascending_parameters (d : Document) (workflow : Bool) (block : String) :
    Text.Ascending (parameters d workflow block) := by
  rw [parameters_eq]
  exact List.foldlRecOn _ _ List.Pairwise.nil fun ps h n _ => ascending_declareNode h n

/-- A name is bound to the description of the first node that declares it. -/
lemma lookup_parameters_iff {description : String} :
    (parameters d workflow block).lookup name = some description ↔
      ∃ n, DeclaresFirst d workflow block name n ∧ d.Describes n description := by
  rw [parameters_eq, lookup_foldl, List.lookup_nil, Option.none_or, Option.map_eq_some_iff, Document.select,
    List.find?_filter]
  refine exists_congr fun n => and_congr ?_ Document.getD_description?_eq_iff
  rw [List.find?_eq_some_iff_append]
  simp only [decide_eq_true_eq, ← declares_iff, Bool.not_eq_true', decide_eq_false_iff_not, DeclaresFirst]
  constructor
  · rintro ⟨hn, before, after, order, others⟩
    exact ⟨before, after, order, hn, others⟩
  · rintro ⟨before, after, order, hn, others⟩
    exact ⟨hn, before, after, order, others⟩

/-- The names are those that some node declares. -/
lemma mem_parameters_iff (h : d.WellFormed) :
    name ∈ (parameters d workflow block).map Prod.fst ↔ ∃ n < d.size, Declares d workflow block name n := by
  rw [← Text.isSome_lookup_iff, parameters_eq, lookup_foldl, List.lookup_nil, Option.none_or, Option.isSome_map,
    Document.select, List.find?_filter, List.find?_isSome]
  simp only [decide_eq_true_eq, ← declares_iff]
  refine exists_congr fun n => and_congr_left fun _ => ?_
  rw [h.mem_descendants_iff]
  exact ⟨h.lt_size_of_within_root, h.within_root⟩

/-! ### The entries of an outline -/

/-- The two nodes above a node are among its ancestors. -/
lemma mem_ancestors {p trigger top : Nat} (h : d.WellFormed) (hp : d.parent? p = some trigger)
    (ht : d.parent? trigger = some top) : top ∈ d.ancestors p := by
  have below := h.lt_of_parent? hp
  have inside := Document.lt_size_of_parent? hp
  have deep : ∃ k, d.size = k + 2 := ⟨d.size - 2, by omega⟩
  obtain ⟨k, hk⟩ := deep
  simp [Document.ancestors, hk, Document.above, hp, ht]

/-- What a workflow declares is listed. -/
lemma entry_of_declares (h : d.WellFormed) (hn : n < d.size) (hd : Declares d true block name n) :
    n ∈ d.select Document.root (Outline.isInterfaceEntry d block) := by
  obtain ⟨-, hid, p, hp, hk, above⟩ := hd
  obtain ⟨trigger, top, htrigger, htop, hon⟩ := above rfl
  refine List.mem_filter.mpr ⟨h.mem_descendants_root hn, ?_⟩
  have under : (d.onBlock? p).isSome = true := by
    rw [Document.onBlock?, Document.enclosing?, List.find?_isSome]
    exact ⟨top, mem_ancestors h htrigger htop, by simpa [Document.keyIs] using hon⟩
  have named : d.identifier? n = some name := Document.identifier?_eq_some_iff.mpr hid
  simp [Outline.isInterfaceEntry, hp, Document.keyIs, hk, named, under]

/-- What is listed has a node for its parent that is keyed with the block. -/
lemma declares_of_entry (hn : n ∈ d.select Document.root (Outline.isInterfaceEntry d block))
    (hid : d.Named n name) (hne : name ≠ "") : Declares d false block name n := by
  obtain ⟨-, listed⟩ := List.mem_filter.mp hn
  unfold Outline.isInterfaceEntry at listed
  cases hp : d.parent? n with
  | none => simp [hp] at listed
  | some p =>
    simp only [hp, Bool.and_eq_true, Document.keyIs, beq_iff_eq] at listed
    exact ⟨hne, hid, p, hp, listed.1.1, fun hw => absurd hw Bool.false_ne_true⟩

/-! ### Both views -/

/-- The parameters of a block, and the entries that an outline lists for it. -/
structure Agree (d : Document) (r : Reference) (block : String) (ps : Parameters) (entries : List Nat) : Prop where
  ascending : Text.Ascending ps
  names : ∀ name, name ∈ ps.map Prod.fst ↔ ∃ n < d.size, Declares d r.isWorkflow block name n
  first : ∀ name description, (name, description) ∈ ps ↔
    ∃ n, DeclaresFirst d r.isWorkflow block name n ∧ d.Describes n description
  listed : r.isWorkflow = true → ∀ name ∈ ps.map Prod.fst, ∃ n ∈ entries, d.Named n name
  declared : r.isWorkflow = false → ∀ n ∈ entries, ∀ name, d.Named n name → name ≠ "" → name ∈ ps.map Prod.fst

lemma agree (h : d.WellFormed) (r : Reference) (block : String) :
    Agree d r block (parameters d r.isWorkflow block) (d.select Document.root (Outline.isInterfaceEntry d block)) := by
  refine ⟨ascending_parameters d _ block, fun name => mem_parameters_iff h, fun name description => ?_,
    fun hw name hname => ?_, fun hw n hn name hid hne => ?_⟩
  · rw [← (ascending_parameters d _ block).lookup_eq_some_iff, lookup_parameters_iff]
  · obtain ⟨n, hn, hd⟩ := (mem_parameters_iff h).mp hname
    rw [hw] at hd
    exact ⟨n, entry_of_declares h hn hd, hd.2.1⟩
  · refine (mem_parameters_iff h).mpr ⟨n, ?_, ?_⟩
    · exact h.lt_size_of_within_root (h.mem_descendants_iff.mp (List.mem_filter.mp hn).1)
    · rw [hw]
      exact declares_of_entry hn hid hne

/-- Whatever was attached below a root, and whatever text was read: in both blocks the parameters of a
document are the names that some node declares, each once, ascending, with the description of the first
node that declares it; what a workflow declares is the name of a listed entry, and the name of an entry
that is listed for an action is declared. -/
theorem parameters_agree_with_entries :
    (∀ e source es, (Document.attachAll { Document.ofRoot e with source } es).WellFormed) ∧
      (∀ text d, Document.ofText text = .ok d → d.WellFormed) ∧
      ∀ d : Document, d.WellFormed → ∀ r,
        Agree d r "inputs" (ofDocument d r).inputs (Outline.ofDocument d).inputs ∧
          Agree d r "outputs" (ofDocument d r).outputs (Outline.ofDocument d).outputs := by
  refine ⟨fun e source es => (Document.WellFormed.bare e source).attachAll es, fun text d hd => ?_,
    fun d h r => ⟨agree h r "inputs", agree h r "outputs"⟩⟩
  obtain ⟨t, -, rfl⟩ := Document.exists_of_ofText hd
  exact Document.wellFormed_ofConcrete text t

end Interface

end CiWorkflow
