import CiWorkflow.Proofs.Outline.Needs
import CiWorkflow.Proofs.Tree.Ancestry
import Mathlib.Data.List.Perm.Subperm

/-!
# The jobs of a workflow

The jobs of a workflow stand right below a `jobs` block at its top level. An outline takes every node for
a job whose parent is keyed `jobs`, wherever that one stands. So it misses no job, and it lists the jobs
alone exactly where no node below the top level that is keyed `jobs` has something below it.
-/

namespace CiWorkflow

open CiWorkflow.Tree (Document)

namespace Outline

variable {d : Document} {name dep : String} {j n : Nat} {needed : List String}

/-- The children of the `jobs` blocks at the top level, in the order of the document. -/
def workflowJobs (d : Document) : List Nat :=
  ((d.children Document.root).filter (d.keyIs "jobs")).flatMap d.children

/-- Nothing but the jobs of the workflow is taken for a job, and none else is said to need something. -/
structure OnlyJobs (d : Document) (o : Outline) : Prop where
  jobs : o.jobs = workflowJobs d
  names : o.jobNames = (workflowJobs d).filterMap d.key?
  needs : ∀ name needed, (name, needed) ∈ o.needs →
    ∃ j ∈ workflowJobs d, d.key? j = some name ∧ needsAt d j = needed
  unknown : ∀ name dep, (name, dep) ∈ o.unknownNeeds →
    ∃ j ∈ workflowJobs d, d.key? j = some name ∧ dep ∈ needsAt d j

/-- A node that is keyed `jobs` and has something below it stands at the top level. -/
def JobsOnTop (d : Document) : Prop :=
  ∀ p, d.key? p = some "jobs" → d.children p ≠ [] → d.parent? p = some Document.root

lemma mem_jobs_iff (h : d.WellFormed) :
    n ∈ (ofDocument d).jobs ↔ ∃ p, d.parent? n = some p ∧ d.key? p = some "jobs" := by
  have all : (ofDocument d).jobs = d.select Document.root (d.parentKeyIs "jobs") := rfl
  rw [all, h.mem_select_root_iff fun hn => ?_, Document.parentKeyIs_iff]
  obtain ⟨p, hp, -⟩ := Document.parentKeyIs_iff.mp hn
  exact Document.lt_size_of_parent? hp

lemma mem_workflowJobs_iff (h : d.WellFormed) :
    n ∈ workflowJobs d ↔ ∃ p, d.parent? n = some p ∧ d.key? p = some "jobs" ∧ d.parent? p = some Document.root := by
  simp only [workflowJobs, List.mem_flatMap, List.mem_filter, Document.keyIs, beq_iff_eq, h.linked]
  constructor
  · rintro ⟨p, ⟨top, key⟩, hp⟩
    exact ⟨p, hp, key, top⟩
  · rintro ⟨p, hp, key, top⟩
    exact ⟨p, ⟨top, key⟩, hp⟩

/-- Both lists follow the order of the document. -/
lemma jobs_eq_iff (h : d.WellFormed) :
    (ofDocument d).jobs = workflowJobs d ↔ ∀ n, n ∈ (ofDocument d).jobs ↔ n ∈ workflowJobs d := by
  have nodup := h.nodup_descendants Document.root
  have jobs : (ofDocument d).jobs.Sublist (d.descendants Document.root) := List.filter_sublist
  have own : (workflowJobs d).Sublist (d.descendants Document.root) := h.grandchildren_sublist (d.keyIs "jobs")
  rw [← List.Nodup.perm_iff_eq_of_sublist nodup jobs own]
  exact List.perm_ext_iff_of_nodup (nodup.sublist jobs) (nodup.sublist own)

/-- No job of the workflow is missed. -/
lemma workflowJobs_sublist (h : d.WellFormed) : (workflowJobs d).Sublist (ofDocument d).jobs := by
  have own := (h.grandchildren_sublist (d.keyIs "jobs")).filter (d.parentKeyIs "jobs")
  rwa [List.filter_eq_self.mpr fun n hn => ?_] at own
  obtain ⟨p, hp, key, -⟩ := (mem_workflowJobs_iff h).mp hn
  exact Document.parentKeyIs_iff.mpr ⟨p, hp, key⟩

lemma jobs_eq_iff_onTop (h : d.WellFormed) : (ofDocument d).jobs = workflowJobs d ↔ JobsOnTop d := by
  rw [jobs_eq_iff h]
  constructor
  · intro same p key below
    obtain ⟨n, hn⟩ := List.exists_mem_of_ne_nil _ below
    have hp := (h.linked n p).mp hn
    obtain ⟨q, hq, -, top⟩ := (mem_workflowJobs_iff h).mp ((same n).mp ((mem_jobs_iff h).mpr ⟨p, hp, key⟩))
    rw [hp] at hq
    cases hq
    exact top
  · intro onTop n
    refine ⟨fun hn => ?_, fun hn => (workflowJobs_sublist h).subset hn⟩
    obtain ⟨p, hp, key⟩ := (mem_jobs_iff h).mp hn
    exact (mem_workflowJobs_iff h).mpr ⟨p, hp, key, onTop p key (List.ne_nil_of_mem ((h.linked n p).mpr hp))⟩

/-! ### What the other queries mention -/

/-- A name that is said to need something is that of a job. -/
lemma exists_of_mem_needs (hmem : (name, needed) ∈ (ofDocument d).needs) :
    ∃ j ∈ (ofDocument d).jobs, d.key? j = some name ∧ needsAt d j = needed := by
  obtain ⟨j, last, hneeds⟩ := mem_needsGraph_iff.mp hmem
  exact ⟨j, last.mem, last.key?_eq, hneeds⟩

/-- So is the name of a job that needs one that is not there. -/
lemma exists_of_mem_unknownNeeds (hmem : (name, dep) ∈ (ofDocument d).unknownNeeds) :
    ∃ j ∈ (ofDocument d).jobs, d.key? j = some name ∧ dep ∈ needsAt d j := by
  obtain ⟨j, last, hdep⟩ := mem_needsOf_iff.mp (mem_unknownNeeds_iff.mp hmem).1
  exact ⟨j, last.mem, last.key?_eq, hdep⟩

lemma onlyJobs_iff (h : d.WellFormed) : OnlyJobs d (ofDocument d) ↔ JobsOnTop d := by
  rw [← jobs_eq_iff_onTop h]
  constructor
  · intro only
    exact only.jobs
  · intro same
    refine ⟨same, ?_, fun name needed hmem => ?_, fun name dep hmem => ?_⟩
    · rw [jobNames, same]
      rfl
    · rw [← same]
      exact exists_of_mem_needs hmem
    · rw [← same]
      exact exists_of_mem_unknownNeeds hmem

/-- However a document was built: its outline lists all jobs of the workflow, in the order of the document; and it
lists and mentions nothing else for a job exactly where every node that is keyed `jobs` and has something below
it stands at the top level. -/
theorem only_jobs_iff (h : d.Built) :
    (workflowJobs d).Sublist (ofDocument d).jobs ∧ (OnlyJobs d (ofDocument d) ↔ JobsOnTop d) :=
  ⟨workflowJobs_sublist h.wellFormed, onlyJobs_iff h.wellFormed⟩

/-- An input and an argument with the names of jobs are not taken for jobs where the one block that is keyed
`jobs` stands at the top level. -/
theorem only_jobs_named_alike : ∃ d,
    Document.ofText
        "on:\n  workflow_call:\n    inputs:\n      build:\n        type: string\njobs:\n  build:\n    with:\n      test: x" =
      .ok d ∧ d.Built ∧ JobsOnTop d ∧ OnlyJobs d (ofDocument d) := by
  obtain ⟨d, hd, hall⟩ := Document.exists_of_test
    "on:\n  workflow_call:\n    inputs:\n      build:\n        type: string\njobs:\n  build:\n    with:\n      test: x"
    (p := fun d => (List.range d.size).all fun p => d.key? p != some "jobs" || d.parent? p == some Document.root)
    (by decide +kernel)
  have built := Document.Built.read hd
  have onTop : JobsOnTop d := by
    intro p key below
    obtain ⟨n, hn⟩ := List.exists_mem_of_ne_nil _ below
    have blocks := List.all_eq_true.mp hall p (List.mem_range.mpr (Document.lt_size_of_mem_children hn))
    rw [key] at blocks
    simpa using blocks
  exact ⟨d, hd, built, onTop, (only_jobs_iff built).2.mpr onTop⟩

/-- What stands below an input that is called `jobs` is taken for a job. -/
theorem not_only_jobs_input : ∃ d,
    Document.ofText
        "on:\n  workflow_dispatch:\n    inputs:\n      jobs:\n        type: string\njobs:\n  build:\n    runs-on: x" =
      .ok d ∧ d.WellFormed ∧ ¬ OnlyJobs d (ofDocument d) := by
  obtain ⟨d, hd, input⟩ := Document.exists_of_test
    "on:\n  workflow_dispatch:\n    inputs:\n      jobs:\n        type: string\njobs:\n  build:\n    runs-on: x"
    (p := fun d => d.key? 4 == some "jobs" && d.parent? 5 == some 4 && d.parent? 4 == some 3)
    (by decide +kernel)
  simp only [Bool.and_eq_true, beq_iff_eq] at input
  obtain ⟨⟨key, below⟩, deep⟩ := input
  have h := Document.wellFormed_of_ofText hd
  refine ⟨d, hd, h, fun only => ?_⟩
  have top := (onlyJobs_iff h).mp only 4 key (List.ne_nil_of_mem ((h.linked 5 4).mpr below))
  rw [deep] at top
  cases top

end Outline

end CiWorkflow
