import CiWorkflow.Cli.Invocation

/-!
# Usage

What is printed for a command line that runs no command.
-/

namespace CiWorkflow.Cli

/-- The lines that tell how the program is used. -/
def usageLines : List String :=
  ["wflens resolves `uses:` references of CI workflows into the inputs and outputs they declare, and summarizes workflow files.",
    "", "Usage: wflens [OPTIONS] <COMMAND>", "", "Commands:",
    "  resolve <REFERENCES>... [--format text|json]         Resolve references and print their interface",
    "  inspect <FILE> [--resolve] [--format text|json]      Summarize a workflow file",
    "  cache path                                           Print the cache directory",
    "  cache clean                                          Delete all cached content", "", "Options:",
    "  -v, --verbose              Enable debug logging",
    "  -q, --quiet                Disable logging",
    "      --config <CONFIG>      Path to the global configuration file [env: " ++ Config.pathVariable ++ "]",
    "      --project-root <DIR>   Directory that local references are resolved against",
    "  -h, --help                 Print help",
    "  -V, --version              Print version"]

/-- The line that tells the version. -/
def versionLine : String := "wflens 0.1.0"

namespace UsageFault

def message : UsageFault → String
  | missingCommand | nothingGiven => "a command is required"
  | unknownCommand => "there is no such command"
  | missingArgument => "a required argument was not provided"
  | unknownArgument => "unexpected argument found"
  | conflict => "an argument is given twice, or beside one that excludes it"
  | invalidValue => "invalid value for an argument"
  | unexpectedValue => "unexpected value for an argument"
  | helpAsked => "help is asked for"
  | versionAsked => "the version is asked for"

/-- Whether the command line asks for just what is printed. -/
def isRequest : UsageFault → Bool
  | helpAsked | versionAsked => true
  | _ => false

def exitCode (u : UsageFault) : Nat := if u.isRequest then 0 else 2

/-- The lines that are printed. -/
def lines : UsageFault → List String
  | helpAsked | nothingGiven => usageLines
  | versionAsked => [versionLine]
  | u => ["error: " ++ u.message, "", "For more information, try '--help'."]

end UsageFault

end CiWorkflow.Cli
