import CiWorkflow.Cli.Invocation
import CiWorkflow.Cli.Listing
import CiWorkflow.Files.Project
import CiWorkflow.Resolution.Resolve

/-!
# Sessions

A session runs one command on a host: it loads the settings, resolves what it has to with the content kept from earlier
sessions, and prints.
-/

namespace CiWorkflow.Cli

open Config (Settings)
open Files (Host Project)
open Resolution (Cache ContentStore Entry Fetch Retention)

/-- What a command prints, and how it failed if it did. -/
structure Outcome where
  output : List String := []
  failure : Option Report := none

namespace Outcome

def ofReport (r : Report) : Outcome := { failure := some r }

/-- What goes to the standard output. -/
def stdout (o : Outcome) : String := unlines o.output

/-- What goes to the standard error. -/
def stderr (color : Bool) (o : Outcome) : String :=
  match o.failure with
  | none => ""
  | some r => unlines (adviceLines color (Advice.ofReport r))

def exitCode (o : Outcome) : Nat := if o.failure.isSome then 1 else 0

end Outcome

variable {m : Type → Type} [Monad m] (host : Host m)

/-! ### Resolving -/

/-- What resolving needs: the settings, the directory of kept content where there is one, and the project. -/
structure Setup where
  settings : Settings
  directory : Option String
  project : Project

/-- Whether a character may stand in what the program says of itself to others. -/
def isHeaderChar (c : Char) : Bool := c == '\t' || (' ' ≤ c && c != '\x7f')

/-- Prepares resolving. -/
def setup (s : Settings) (root : String) : m (Except Report Setup) := do
  let directory ←
    if s.resolver.diskCache then pure ((← s.contentDirectory host).map some) else pure (Except.ok none)
  match directory with
  | .error r => return .error r
  | .ok directory =>
    if s.resolver.userAgent.toList.all isHeaderChar then return .ok { settings := s, directory, project := ⟨root⟩ }
    return .error (Report.ofFailure (.other "Failed to build HTTP client: builder error"))

/-- The kept file of a reference, if there is one. -/
def keptFile (directory : String) (r : Reference) : m ContentStore := do
  match ContentStore.fileName? r with
  | none => return {}
  | some name =>
    let path := Files.join directory name
    match ← host.written? path, ← host.readText path with
    | some written, .ok text => return NamedCache.insert {} name ⟨.text text, written⟩
    | _, _ => return {}

/-- The kept files of some references. -/
def keptFiles (directory : String) : List Reference → m ContentStore
  | [] => return {}
  | r :: rs => do
    let one ← keptFile host directory r
    let rest ← keptFiles directory rs
    return ⟨one.entries ++ rest.entries.filter fun e => (one.get? e.1).isNone⟩

/-- Writes the files of a store that another one does not have. -/
def saveNew (directory : String) (before : ContentStore) : List (String × Resolution.ContentFile) → m Unit
  | [] => return ()
  | (name, f) :: r => do
    match f.content with
    | .text t =>
      if before.get? name != some f then
        host.makeDirectory directory
        host.writeText (Files.join directory name) t
    | .bytes => pure ()
    saveNew directory before r

/-- Gets text for resolving. -/
def fetch (p : Project) : Fetch m := fun r =>
  StateT.lift
    (match r.origin with
    | .repository => host.download r.location
    | .project => p.fetch host r.location)

/-- The entries for some texts, resolved. -/
def resolveTexts (s : Setup) (raws : List String) : m (List Entry) := do
  let store ← match s.directory with
    | none => pure none
    | some d => some <$> keptFiles host d (raws.map Reference.ofText)
  let keep : Retention := { success := s.settings.resolver.successTtl, failure := s.settings.resolver.failureTtl }
  let c : Cache := { now := ← host.now, store }
  let (es, c) ← (Resolution.resolveTexts keep (fetch host s.project) raws).run c
  match s.directory, store, c.store with
  | some d, some before, some after => saveNew host d before after.entries
  | _, _, _ => pure ()
  return es

/-! ### Commands -/

/-- Why a text is no reference. -/
def notAReference : String := "expected owner/repo[/path]@ref or ./.github/..."

/-- The failure for entries that could not be resolved. -/
def unresolved (es : List Entry) : Option Failure :=
  let failed := es.filter fun e => !e.available
  let others :=
    let names := String.intercalate ", " (failed.map fun e => e.reference.raw)
    some (Failure.other s!"{failed.length} of {es.length} references could not be resolved: {names}")
  match failed with
  | [] => none
  | [e] => if e.reference.isResolvable then others else some (.invalidReference e.reference.raw notAReference)
  | _ => others

/-- Resolves references and prints their interfaces. -/
def runResolve (color : Bool) (s : Setup) (raws : List String) (format : Format) : m Outcome := do
  let es ← resolveTexts host s raws
  let output := match format with
    | .json => [(JsonValue.list (es.map entryJson)).render 0]
    | .text => es.flatMap (entryLines color)
  return { output, failure := (unresolved es).map Report.ofFailure }

/-- Prints what a workflow file contains. -/
def runInspect (color : Bool) (s : Setup) (file : String) (resolve : Bool) (format : Format) : m Outcome := do
  match ← host.readText file with
  | .error fault =>
    return .ofReport { contexts := ["Failed to read " ++ file], cause := .io fault.ioKind fault.message }
  | .ok source =>
    match Tree.Document.ofText source with
    | .error f => return .ofReport (Report.ofFailure (.content file f.reason))
    | .ok d =>
      let o := Outline.ofDocument d
      let entries ← if resolve then resolveTexts host s o.references else pure []
      let i : Inspection :=
        { file, jobs := o.summaries, unknownNeeds := o.unknownNeeds, entries
          unknownArguments := o.unknownArguments (Entry.interfaceFor? entries) }
      return { output := match format with
        | .json => [(inspectionJson i).render 0]
        | .text => inspectionLines color i }

/-- The directory around the last control directory on the way to a file. -/
def projectRoot? (cwd file : String) : Option String :=
  let names := Files.components (Files.join cwd file)
  match names.reverse.dropWhile (· != Reference.controlDirectory) with
  | [] => none
  | _ :: around => some ("/" ++ String.intercalate "/" around.reverse)

/-- Removes the kept files of some names, and counts them. -/
def removeFiles (directory : String) : List String → m Nat
  | [] => return 0
  | n :: r => do
    let done ← if ContentStore.isPurged n then host.remove (Files.join directory n) else pure false
    return (← removeFiles directory r) + (if done then 1 else 0)

/-- Removes all kept content. -/
def runClean (color : Bool) (directory : String) : m Outcome := do
  let names ← if ← host.isThere directory then host.namesIn directory else pure (.ok [])
  match names with
  | .error fault =>
    return .ofReport { contexts := ["Failed to read cache directory " ++ directory], cause := .io fault.ioKind fault.message }
  | .ok names =>
    let n ← removeFiles host directory names
    return { output := [Style.green.paint color "✓" ++ s!" Removed {n} cached files from {directory}"] }

/-- Runs an invocation. -/
def run (color : Bool) (i : Invocation) : m Outcome := do
  match ← Settings.load host i.config with
  | .error r => return .ofReport r
  | .ok settings =>
    let cwd ← host.workingDirectory
    match i.command with
    | .resolve raws format =>
      match ← setup host settings (i.projectRoot.getD cwd) with
      | .error r => return .ofReport r
      | .ok s => runResolve host color s raws format
    | .inspect file resolve format =>
      match ← setup host settings (i.projectRoot.getD ((projectRoot? cwd file).getD cwd)) with
      | .error r => return .ofReport r
      | .ok s => runInspect host color s file resolve format
    | .cachePath =>
      return match ← settings.contentDirectory host with
        | .error r => .ofReport r
        | .ok d => { output := [d] }
    | .cacheClean =>
      match ← settings.contentDirectory host with
      | .error r => return .ofReport r
      | .ok d => runClean host color d

end CiWorkflow.Cli
