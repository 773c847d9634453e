/-!
# Failures

What can go wrong, and how it is worded.
-/

namespace CiWorkflow

/-- Why a text is no document. -/
inductive ContentFault where
  /-- the text is malformed -/
  | malformed
  /-- the text can be laid out but its values are contradictory -/
  | refused
  /-- the first document is no mapping -/
  | notMapping
  deriving DecidableEq, Repr

namespace ContentFault

def reason : ContentFault → String
  | malformed => "syntax error"
  | refused => "the document is not valid YAML"
  | notMapping => "top-level value is not a mapping"

end ContentFault

/-- The kinds of input and output failures that are told apart. -/
inductive IoKind where
  | notFound
  | permissionDenied
  | other
  deriving DecidableEq, Repr

/-- The failures of the program. -/
inductive Failure where
  | invalidReference (reference reason : String)
  | fetchFailed (location reason : String)
  | httpStatus (url : String) (status : Nat)
  | emptyContent (location : String)
  /-- a local reference leaves the project -/
  | outsideProject (path : String)
  /-- a text is no document -/
  | content (name reason : String)
  | config (message : String)
  | fileSystem (operation path : String)
  | io (kind : IoKind) (message : String)
  | toml (message : String)
  | other (message : String)
  deriving DecidableEq, Repr

namespace Failure

def message : Failure → String
  | invalidReference reference reason => s!"Invalid reference '{reference}': {reason}"
  | fetchFailed location reason => s!"Failed to fetch {location}: {reason}"
  | httpStatus url status => s!"HTTP {status} while fetching {url}"
  | emptyContent location => s!"Empty content at {location}"
  | outsideProject path => s!"Local reference '{path}' resolves outside the project directory"
  | content name reason => s!"Failed to parse {name}: {reason}"
  | config message => s!"Configuration error: {message}"
  | fileSystem operation path => s!"File system error during {operation}: {path}"
  | io _ message => s!"IO error: {message}"
  | toml message => s!"TOML parsing error: {message}"
  | other message => message

/-- Whether the failure arose while content was fetched. -/
def isFetchFailure : Failure → Bool
  | fetchFailed .. | httpStatus .. | emptyContent _ | outsideProject _ => true
  | _ => false

end Failure

end CiWorkflow
