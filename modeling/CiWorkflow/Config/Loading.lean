import CiWorkflow.Advice
import CiWorkflow.Config.Expansion
import CiWorkflow.Config.Settings
import CiWorkflow.Files.Host

/-!
# Loading and saving settings

Settings are read from a file that the environment or the user names, else from one in the user's directory. Where there is
no file the defaults hold. What is saved is written with all of its keys.
-/

namespace CiWorkflow.Config

open Files (Host)

/-- The variable that names the file with the settings. -/
def pathVariable : String := "WFLENS_CONFIG_PATH"

/-- The variable that names the directory for fetched content. -/
def cacheVariable : String := "WFLENS_CACHE_DIR"

/-- The program's directory in the user's directory. -/
def homeDirectory : String := ".wflens"

/-- The report that the user's directory is not known. -/
def noHome : Report := { cause := .plain "Unable to determine home directory" }

variable {m : Type → Type} [Monad m] (host : Host m)

/-- The path of the file with the settings. -/
def defaultPath : m (Except Report String) := do
  match ← host.variableNamed pathVariable with
  | some p => return .ok p
  | none =>
    return match ← host.home? with
      | some h => .ok (Files.join (Files.join h homeDirectory) "config.toml")
      | none => .error noHome

/-- The directory for fetched content where none is configured. It is made where it is not there. -/
def defaultCacheDir : m (Except Report String) := do
  match ← host.variableNamed cacheVariable with
  | some d => return .ok d
  | none =>
    match ← host.home? with
    | none => return .error noHome
    | some h =>
      let d := Files.join (Files.join h homeDirectory) "cache"
      if !(← host.isThere d) then host.makeDirectory d
      return .ok d

namespace Settings

/-- Reads the text of a file with settings. -/
def ofFile (path text : String) : Except Report Settings :=
  match ofText text with
  | .error f => .error ((Report.ofFailure f).within ("Failed to parse global config from " ++ path))
  | .ok s =>
    match s.resolver.validate with
    | .error f => .error (Report.ofFailure f)
    | .ok () => .ok s

/-- Loads settings from a file. -/
def loadFile (path : String) : m (Except Report Settings) := do
  match ← host.readText path with
  | .error fault =>
    return .error { contexts := ["Failed to read global config from " ++ path], cause := .io fault.ioKind fault.message }
  | .ok text => return ofFile path text

/-- Loads settings from a file that may be missing: the one given, else the default one. -/
def load (path : Option String) : m (Except Report Settings) := do
  let path ← match path with
    | some p => pure (.ok p)
    | none => defaultPath host
  match path with
  | .error e => return .error e
  | .ok p => if ← host.isThere p then loadFile host p else return .ok {}

/-- Saves settings in a file. The directory around it is made first. -/
def save (s : Settings) (path : String) : m Unit := do
  host.makeAround path
  host.writeText path s.toText

/-- Why a configured directory cannot be used. -/
def undefinedVariable (dir name : String) : Failure :=
  .config s!"cannot expand cache_dir '{dir}': error looking key '{name}' up: environment variable not found"

/-- The directory for fetched content: the environment's, else the configured one, else the default one. -/
def contentDirectory (s : Settings) : m (Except Report String) := do
  match ← host.variableNamed cacheVariable, s.cacheDir with
  | none, some dir =>
    return match ← expand host dir with
      | .ok d => .ok d
      | .error name => .error (Report.ofFailure (undefinedVariable dir name))
  | _, _ => defaultCacheDir host

end Settings

end CiWorkflow.Config
