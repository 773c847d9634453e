import CiWorkflow.Failure

/-!
# Advice

How a failure is presented: with details and with a suggestion, where there are any. A failure may come with contexts that
say what was being done when it arose.
-/

namespace CiWorkflow

/-- What lies at the bottom of a report. -/
inductive Cause where
  | failure (f : Failure)
  | io (kind : IoKind) (message : String)
  | toml (message : String)
  | plain (message : String)
  deriving DecidableEq, Repr

namespace Cause

def message : Cause → String
  | failure f => f.message
  | io _ m => m
  | toml m => m
  | plain m => m

end Cause

/-- A cause and the contexts around it, outermost first. -/
structure Report where
  contexts : List String := []
  cause : Cause
  deriving DecidableEq, Repr

namespace Report

def ofFailure (f : Failure) : Report := { cause := .failure f }

/-- Adds an outer context. -/
def within (r : Report) (context : String) : Report := { r with contexts := context :: r.contexts }

/-- All messages, outermost first. -/
def message (r : Report) : String := String.intercalate ": " (r.contexts ++ [r.cause.message])

end Report

/-- A failure as it is presented. -/
structure Advice where
  failure : Failure
  suggestion : Option String := none
  details : Option String := none
  deriving DecidableEq, Repr

namespace Advice

/-- The advice for a failure of the program. -/
def ofFailure : Failure → Advice
  | f@(.invalidReference ..) =>
    { failure := f
      suggestion := some ("References look like 'owner/repo@ref', 'owner/repo/path@ref', " ++
        "'owner/repo/.github/workflows/file.yml@ref' or './.github/actions/name'") }
  | f@(.httpStatus _ 404) =>
    { failure := f
      suggestion := some "Check that the repository, the ref and the path exist"
      details := some "Private repositories cannot be resolved without credentials" }
  | f@(.httpStatus ..) =>
    { failure := f, suggestion := some "Retry later; the failure is cached for a few minutes" }
  | f@(.fetchFailed ..) =>
    { failure := f, suggestion := some "Check your internet connection or the local path" }
  | f@(.outsideProject _) =>
    { failure := f
      suggestion := some "Local references must stay inside the project, e.g. './.github/actions/name'" }
  | f@(.content ..) =>
    { failure := f
      details := some "The content must be a YAML mapping such as an action.yml or a workflow file" }
  | f@(.config _) =>
    { failure := f, suggestion := some "Check ~/.wflens/config.toml or the file named by WFLENS_CONFIG_PATH" }
  | f@(.fileSystem ..) =>
    { failure := f, suggestion := some "Run 'wflens cache clean' to reset the content cache" }
  | f@(.io ..) => { failure := .other f.message }
  | .toml m => { failure := .config m }
  | f => { failure := f }

/-- The advice for a report. -/
def ofReport (r : Report) : Advice :=
  match r.cause with
  | .failure f => ofFailure f
  | .io .permissionDenied _ =>
    { failure := .fileSystem "file access" "unknown"
      suggestion := some "Check ownership of the file or of the wflens cache directory"
      details := some r.message }
  | .io .notFound _ =>
    { failure := .fileSystem "file access" "unknown"
      suggestion := some "Check that the file or directory exists and the path is correct"
      details := some r.message }
  | .toml m =>
    { failure := .config m, suggestion := some "Check the TOML syntax of ~/.wflens/config.toml" }
  | _ => { failure := .other r.message }

/-- The failure, the details and the suggestion, a line each. -/
def text (a : Advice) : String :=
  a.failure.message ++ (a.details.map ("\nDetails: " ++ ·)).getD "" ++
    (a.suggestion.map ("\nSuggestion: " ++ ·)).getD ""

end Advice

end CiWorkflow
