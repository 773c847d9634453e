import CiWorkflow.Outline.Basic

/-!
# Summaries of jobs

What is shown of a job: what it needs, what it uses and what its steps are called.
-/

namespace CiWorkflow

structure JobSummary where
  name : String
  needs : List String
  steps : List String
  uses : Option String
  deriving DecidableEq, Repr

namespace Outline

variable (o : Outline)

/-- What a step is called: its id, else what it uses, else its name, else its place in the job. -/
def stepLabel (place step : Nat) : String :=
  ((o.document.field? step "id").orElse fun _ => o.document.usesOrName? step).getD ("step " ++ toString (place + 1))

/-- The summary of a job that has a name. -/
def summary? (job : Nat) : Option JobSummary :=
  (o.document.key? job).map fun name =>
    { name
      needs := o.needsOf name
      steps := (o.document.stepsBelow job).mapIdx o.stepLabel
      uses := o.document.uses? job }

/-- The summaries of the jobs, in the order of the document. -/
def summaries : List JobSummary := o.jobs.filterMap o.summary?

end Outline

end CiWorkflow
