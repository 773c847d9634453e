import CiWorkflow.Text.Ascii

/-!
# JSON values

Results are written as JSON, each item on a line of its own, with two blanks for each level.
-/

namespace CiWorkflow.Cli

inductive JsonValue where
  | null
  | boolean (b : Bool)
  | number (n : Nat)
  | text (s : String)
  | list (items : List JsonValue)
  | object (fields : List (String × JsonValue))
  deriving Repr, Inhabited

namespace JsonValue

def ofOption {α : Type} (f : α → JsonValue) : Option α → JsonValue
  | none => null
  | some a => f a

def ofStrings (l : List String) : JsonValue := list (l.map text)

/-- The characters that stand for a character in a text. -/
def escape (c : Char) : List Char :=
  if c = '\x22' then ['\\', '\x22']
  else if c = '\\' then ['\\', '\\']
  else if c = '\x08' then ['\\', 'b']
  else if c = '\x0c' then ['\\', 'f']
  else if c = '\n' then ['\\', 'n']
  else if c = '\r' then ['\\', 'r']
  else if c = '\t' then ['\\', 't']
  else if c < ' ' then ['\\', 'u', '0', '0', Text.hexDigit (c.toNat / 16), Text.hexDigit (c.toNat % 16)]
  else [c]

def quote (s : String) : String := "\"" ++ String.ofList (s.toList.flatMap escape) ++ "\""

/-- A line break and the blanks of a level. -/
def break_ (level : Nat) : String := "\n" ++ String.ofList (List.replicate (2 * level) ' ')

/-- Sets items between brackets; an empty list of items stays on its line. -/
def enclose (level : Nat) (left right : String) (items : List String) : String :=
  if items.isEmpty then left ++ right
  else left ++ break_ (level + 1) ++ String.intercalate ("," ++ break_ (level + 1)) items ++ break_ level ++ right

mutual

/-- Writes a value that starts on a line of a level. -/
def render (level : Nat) : JsonValue → String
  | null => "null"
  | boolean b => if b then "true" else "false"
  | number n => toString n
  | text s => quote s
  | list items => enclose level "[" "]" (renderItems (level + 1) items)
  | object fields => enclose level "\x7b" "\x7d" (renderFields (level + 1) fields)

def renderItems (level : Nat) : List JsonValue → List String
  | [] => []
  | v :: r => render level v :: renderItems level r

def renderFields (level : Nat) : List (String × JsonValue) → List String
  | [] => []
  | (k, v) :: r => (quote k ++ ": " ++ render level v) :: renderFields level r

end

end JsonValue

end CiWorkflow.Cli
