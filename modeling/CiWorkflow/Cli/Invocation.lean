import CiWorkflow.Cli.Arguments
import CiWorkflow.Config.Loading

/-!
# Invocations

The commands of the program and their options.
-/

namespace CiWorkflow.Cli

/-- How results are printed. -/
inductive Format where
  | text
  | json
  deriving DecidableEq, Repr

inductive Command where
  | resolve (references : List String) (format : Format)
  | inspect (file : String) (resolve : Bool) (format : Format)
  | cachePath
  | cacheClean
  deriving DecidableEq, Repr

/-- A command with the global options. -/
structure Invocation where
  command : Command
  verbose : Bool := false
  quiet : Bool := false
  config : Option String := none
  projectRoot : Option String := none
  deriving DecidableEq, Repr

namespace Invocation

/-- How much is logged. -/
def logLevel (i : Invocation) : Option String :=
  if i.quiet then none else if i.verbose then some "debug" else some "info"

/-! ### The command line -/

/-- The options of every command. -/
def globalOptions : List OptionSpec :=
  [{ name := "verbose", short := some 'v' }, { name := "quiet", short := some 'q' },
    { name := "config", value := some .nonempty, variableName := some Config.pathVariable },
    { name := "project-root", value := some .nonempty }]

/-- The global options that exclude each other. -/
def excludes : List (String × String) := [("verbose", "quiet")]

def formatOption : OptionSpec := { name := "format", value := some (.oneOf ["text", "json"]) }

def commandLine : CommandSpec :=
  .mk "wflens" globalOptions .none true
    [.mk "resolve" (formatOption :: globalOptions) .many false [],
      .mk "inspect" ({ name := "resolve" } :: formatOption :: globalOptions) (.one .nonempty) false [],
      .mk "cache" globalOptions .none false
        [.mk "path" globalOptions .none false [], .mk "clean" globalOptions .none false []]]

def formatOf (l : Level) : Format := if l.options.lookup formatOption.name = some "json" then .json else .text

/-- The command that was named. -/
def commandOf : List Level → Except UsageFault Command
  | [_, l] =>
    match l.command, l.texts with
    | "resolve", ts => .ok (.resolve ts (formatOf l))
    | "inspect", [file] => .ok (.inspect file (l.has "resolve") (formatOf l))
    | _, _ => .error .missingCommand
  | [_, _, l] => .ok (if l.command = "clean" then .cacheClean else .cachePath)
  | _ => .error .missingCommand

/-- Reads a command line, with the values of variables. -/
def ofArguments (values : List (String × String)) (args : List String) : Except UsageFault Invocation := do
  let rs ← parse excludes values (args.length + 1) commandLine args
  let command ← commandOf (rs.map Reading.level)
  return {
    command
    verbose := rs.any fun r => r.level.has "verbose"
    quiet := rs.any fun r => r.level.has "quiet"
    config := globalValue? rs "config"
    projectRoot := globalValue? rs "project-root" }

end Invocation

end CiWorkflow.Cli
