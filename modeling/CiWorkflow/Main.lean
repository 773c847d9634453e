import CiWorkflow.Cli.Session
import CiWorkflow.Cli.Usage
import Std.Time.DateTime.Timestamp

/-!
# The program

The machine that the program runs on as a host, and the command line. Nothing is downloaded: what is not kept already cannot
be fetched.
-/

namespace CiWorkflow

open Files (Host ReadFault)
open Time (Instant)

/-! ### The machine -/

/-- A path from the working directory. -/
def placed (path : String) := (· / path) <$> IO.currentDir

/-- Why reading failed. -/
def readFault : IO.Error → ReadFault
  | .noFileOrDirectory .. => .notFound
  | .permissionDenied .. => .denied
  | e => .other (toString e)

/-- Runs an action on a path, unless the path is empty or the action fails. -/
def attempt {α : Type} (path : String) (failed : α) (action : IO α) : IO α :=
  if path = "" then return failed else try action catch _ => return failed

def readText (path : String) : IO (Except ReadFault String) := do
  if path = "" then return .error .notFound
  try
    match String.fromUTF8? (← IO.FS.readBinFile path) with
    | some s => return .ok s
    | none => return .error .notText
  catch e => return .error (readFault e)

def namesIn (path : String) : IO (Except ReadFault (List String)) := do
  if path = "" then return .error .notFound
  try
    let entries ← (← placed path).readDir
    return .ok (entries.toList.map fun e => e.fileName)
  catch e => return .error (readFault e)

def currentInstant : IO Instant := do
  let t ← Std.Time.Timestamp.now
  return ⟨t.toNanosecondsSinceUnixEpoch.val⟩

/-- This machine. -/
def machine : Host IO where
  variableNamed name := IO.getEnv name
  workingDirectory := toString <$> IO.currentDir
  isThere path := attempt path false do (← placed path).pathExists
  isDirectory path := attempt path false do (← placed path).isDir
  isFile path := attempt path false do
    let p ← placed path
    return (← p.pathExists) && !(← p.isDir)
  readText := readText
  written? path := attempt path none do
    let t := (← (← placed path).metadata).modified
    return some (Instant.ofSeconds t.sec t.nsec.toNat)
  namesIn := namesIn
  writeText path text := attempt path () (IO.FS.writeFile path text)
  remove path := attempt path false do
    IO.FS.removeFile path
    return true
  makeDirectory path := attempt path () (IO.FS.createDirAll path)
  now := currentInstant
  download address := return .error (.fetchFailed address Files.FileTree.noNetwork)

/-! ### The command line -/

/-- The variables that can give options. -/
def optionVariables : IO (List (String × String)) := do
  return ((← IO.getEnv Config.pathVariable).map fun v => (Config.pathVariable, v)).toList

/-- Whether styles are to be used. -/
def colorWanted : IO Bool := do
  return Cli.Style.wanted (← IO.getEnv "CLICOLOR_FORCE") (← IO.getEnv "NO_COLOR") (← IO.getEnv "CLICOLOR")
    (← (← IO.getStdout).isTty)

end CiWorkflow

open CiWorkflow

/-- Runs the program. -/
def main (args : List String) : IO UInt32 := do
  match Cli.Invocation.ofArguments (← optionVariables) args with
  | .error u =>
    let out ← if u.isRequest then IO.getStdout else IO.getStderr
    out.putStr (Cli.unlines u.lines)
    return u.exitCode.toUInt32
  | .ok i =>
    let color ← colorWanted
    let o ← Cli.run machine color i
    (← IO.getStdout).putStr o.stdout
    (← IO.getStderr).putStr (o.stderr color)
    return o.exitCode.toUInt32
