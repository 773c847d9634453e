import CiWorkflow.Advice
import CiWorkflow.Cli.JsonValue
import CiWorkflow.Cli.Style
import CiWorkflow.Outline.Arguments
import CiWorkflow.Outline.Summary
import CiWorkflow.Reference.Key
import CiWorkflow.Reference.Location
import CiWorkflow.Resolution.Entry
import CiWorkflow.Time.Timestamp

/-!
# Listings

How entries, summaries and failures are shown, in lines for people and in JSON.
-/

namespace CiWorkflow.Cli

open Resolution (Entry)

/-! ### Entries -/

/-- The word for what a reference names. -/
def targetLabel : Target → String
  | .action .. => "action"
  | .workflow .. => "reusable workflow"
  | .inProject _ => "local"
  | .unparsable => "unparsable"

/-- The name in JSON of what a reference names. -/
def targetTag : Target → String
  | .action .. => "action"
  | .workflow .. => "reusable_workflow"
  | .inProject _ => "local_path"
  | .unparsable => "unparsable"

/-- How things stand with an entry. -/
def statusText (color : Bool) (e : Entry) : String :=
  if e.available then Style.green.paint color "resolved"
  else if e.reference.isResolvable then Style.yellow.paint color "unavailable"
  else Style.red.paint color "unparsable"

def parameterLine (color : Bool) (p : String × String) : String :=
  let name := "    " ++ Style.cyan.paint color p.1
  if p.2 = "" then name else name ++ "  " ++ Style.dimmed.paint color (Text.trimString p.2)

def parameterLines (color : Bool) (label : String) (ps : Parameters) : List String :=
  if ps.isEmpty then [] else ("  " ++ label ++ ":") :: ps.map (parameterLine color)

/-- The lines that show an entry. -/
def entryLines (color : Bool) (e : Entry) : List String :=
  let r := e.reference
  (Style.bold.paint color r.raw ++ " (" ++ targetLabel r.target ++ ") " ++ statusText color e) ::
    (r.browseUrl?.map ("  source:      " ++ ·)).toList ++ (r.marketplaceUrl?.map ("  marketplace: " ++ ·)).toList ++
    (if e.available then
      parameterLines color "inputs" e.interface.inputs ++ parameterLines color "outputs" e.interface.outputs
    else [])

open JsonValue (object list text boolean number ofOption ofStrings)

def referenceJson (r : Reference) : JsonValue :=
  object [("raw", text r.raw), ("kind", text (targetTag r.target)), ("slug", text r.slug), ("ref", text r.ref),
    ("subpath", text r.subpath), ("name", text r.name), ("is_local", boolean r.isLocal),
    ("is_workflow", boolean r.isWorkflow), ("download_location", ofOption text r.location?)]

def parametersJson (ps : Parameters) : JsonValue := object (ps.map fun (k, v) => (k, text v))

def entryJson (e : Entry) : JsonValue :=
  object [("reference", referenceJson e.reference), ("inputs", parametersJson e.interface.inputs),
    ("outputs", parametersJson e.interface.outputs), ("is_available", boolean e.available),
    ("expires_at", ofOption (fun t => text (Time.Timestamp.ofInstant t)) e.expires), ("tags", ofStrings e.tags),
    ("browse_url", ofOption text e.reference.browseUrl?), ("marketplace_url", ofOption text e.reference.marketplaceUrl?),
    ("repository_url", ofOption text e.reference.repositoryUrl?)]

/-! ### Workflows -/

/-- What is shown of a workflow file. -/
structure Inspection where
  file : String
  jobs : List JobSummary
  unknownNeeds : List (String × String)
  entries : List Entry
  unknownArguments : List UnknownArgument

def summaryLines (color : Bool) (j : JobSummary) : List String :=
  let needs := if j.needs.isEmpty then "" else " (needs " ++ String.intercalate ", " j.needs ++ ")"
  ("  " ++ Style.cyan.paint color j.name ++ needs) :: (j.uses.map ("    uses " ++ ·)).toList ++
    j.steps.map ("    - " ++ ·)

def warning (color : Bool) (message : String) : String := Style.yellow.paint color "warning:" ++ " " ++ message

/-- The lines that show a workflow file. -/
def inspectionLines (color : Bool) (i : Inspection) : List String :=
  Style.bold.paint color i.file :: i.jobs.flatMap (summaryLines color) ++
    (i.unknownNeeds.map fun (job, missing) => warning color s!"job '{job}' needs unknown job '{missing}'") ++
    (if i.entries.isEmpty then [] else "" :: i.entries.flatMap (entryLines color)) ++
    (i.unknownArguments.map fun u =>
      warning color s!"line {u.line}: '{u.uses}' does not declare input '{u.input}'")

def summaryJson (j : JobSummary) : JsonValue :=
  object [("name", text j.name), ("needs", ofStrings j.needs), ("steps", ofStrings j.steps),
    ("uses", ofOption text j.uses)]

def unknownArgumentJson (u : UnknownArgument) : JsonValue :=
  object [("uses", text u.uses), ("input", text u.input), ("job", ofOption text u.job), ("line", number u.line)]

def inspectionJson (i : Inspection) : JsonValue :=
  object [("file", text i.file), ("jobs", list (i.jobs.map summaryJson)),
    ("unknown_needs", list (i.unknownNeeds.map fun (job, missing) => ofStrings [job, missing])),
    ("references", list (i.entries.map entryJson)),
    ("unknown_inputs", list (i.unknownArguments.map unknownArgumentJson))]

/-! ### Failures -/

/-- The lines that show a failure, with its details and a suggestion where there are any. -/
def adviceLines (color : Bool) (a : Advice) : List String :=
  (Style.boldRed.paint color "error" ++ ": " ++ a.failure.message) ::
    (a.details.map (Style.yellow.paint color "details" ++ ": " ++ ·)).toList ++
    (a.suggestion.map (Style.green.paint color "suggestion" ++ ": " ++ ·)).toList

/-- Lines, each with its end. -/
def unlines (l : List String) : String := String.join (l.map (· ++ "\n"))

end CiWorkflow.Cli
