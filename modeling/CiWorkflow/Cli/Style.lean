/-!
# Styles

Text for a terminal is set between a sequence that switches a style on and one that switches all styles off.
-/

namespace CiWorkflow.Cli

inductive Style where
  | bold
  | dimmed
  | red
  | green
  | yellow
  | cyan
  | boldRed
  deriving DecidableEq, Repr

namespace Style

/-- The codes of a style. -/
def codes : Style → String
  | bold => "1"
  | dimmed => "2"
  | red => "31"
  | green => "32"
  | yellow => "33"
  | cyan => "36"
  | boldRed => "1;31"

def on (s : Style) : String := "\x1b[" ++ s.codes ++ "m"

/-- Switches all styles off. -/
def off : String := "\x1b[0m"

/-- Puts a text behind every place where styles are switched off. -/
def resume (on : List Char) : List Char → List Char
  | [] => []
  | c :: r =>
    if off.toList.isPrefixOf (c :: r) then off.toList ++ on ++ resume on (r.drop (off.length - 1))
    else c :: resume on r
termination_by cs => cs.length
decreasing_by all_goals simp [List.length_drop]; try omega

/-- Sets a text in a style, unless it is to be plain. Where the text itself switches styles off, the style goes on. -/
def paint (color : Bool) (s : Style) (text : String) : String :=
  if color then s.on ++ String.ofList (resume s.on.toList text.toList) ++ off else text

/-- Whether styles are to be used, by what the environment says of forcing, forbidding and wishing for them; without a word
from it, a terminal gets them. -/
def wanted (force forbid wish : Option String) (isTerminal : Bool) : Bool :=
  if (force.map (· != "0")).getD false then true
  else if forbid.isSome then false
  else (wish.map (· != "0")).getD true && isTerminal

end Style

end CiWorkflow.Cli
