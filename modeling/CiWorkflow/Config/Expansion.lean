import CiWorkflow.Files.Host
import CiWorkflow.Text.Alphanumeric

/-!
# Expansion

In a configured path, `$NAME` and the form with the name in braces stand for the value of a variable, and a `~` at the start
stands for the user's directory. In braces, a text behind `:-` is taken where the variable is not set. Two dollar signs
stand for one.
-/

namespace CiWorkflow.Config

/-- Whether a character may be part of a variable's name outside braces. -/
def isNameChar (c : Char) : Bool := Text.isAlphanumeric c || c == '_'

/-- The place of a part in a text. -/
def indexOf? (part : List Char) : List Char → Option Nat
  | [] => if part.isEmpty then some 0 else none
  | c :: r => if part.isPrefixOf (c :: r) then some 0 else (indexOf? part r).map (· + 1)

/-- The name in braces, and the text to take where it is not set. A name is not empty where there is such a text. -/
def splitDefault (inside : List Char) : List Char × Option (List Char) :=
  match indexOf? [':', '-'] inside with
  | some (i + 1) => (inside.take (i + 1), some (inside.drop (i + 3)))
  | _ => (inside, none)

variable {m : Type → Type} [Monad m]

/-- A path with its variables replaced, or the name of one that is not set, in at most `fuel` steps. -/
def expandVariables (lookup : String → m (Option String)) : Nat → List Char → m (Except String (List Char))
  | 0, cs => return .ok cs
  | _ + 1, [] => return .ok []
  | fuel + 1, c :: r => do
    if c != '$' then return (← expandVariables lookup fuel r).map (c :: ·)
    match r with
    | '\x7b' :: inside =>
      match indexOf? ['\x7d'] inside with
      | none => return (← expandVariables lookup fuel inside).map fun s => '$' :: '\x7b' :: s
      | some n =>
        let (name, fallback) := splitDefault (inside.take n)
        match ((← lookup (String.ofList name)).map String.toList).orElse fun _ => fallback with
        | some value => return (← expandVariables lookup fuel (inside.drop (n + 1))).map (value ++ ·)
        | none => return .error (String.ofList name)
    | '$' :: r => return (← expandVariables lookup fuel r).map ('$' :: ·)
    | _ =>
      let name := r.takeWhile isNameChar
      if name.isEmpty then return (← expandVariables lookup fuel r).map ('$' :: ·)
      match ← lookup (String.ofList name) with
      | some value => return (← expandVariables lookup fuel (r.dropWhile isNameChar)).map (value.toList ++ ·)
      | none => return .error (String.ofList name)

/-- A path with the user's directory in place of a `~` at its start. -/
def expandHome (home : Option String) (cs : List Char) : List Char :=
  match cs with
  | '~' :: r => if r.isEmpty || r.head? == some '/' then ((home.map String.toList).getD ['~']) ++ r else cs
  | _ => cs

/-- Expands a path, or gives the name of a variable that is not set. A `~` that comes out of a variable stands for
itself. -/
def expand (host : Files.Host m) (path : String) : m (Except String String) := do
  let cs := path.toList
  let home ← host.home?
  return (← expandVariables host.variableNamed (cs.length + 1) cs).map fun s =>
    String.ofList (if cs.head? = some '~' then expandHome home s else s)

end CiWorkflow.Config
