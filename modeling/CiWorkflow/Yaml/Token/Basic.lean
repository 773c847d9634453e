import CiWorkflow.Text.Ascii
import CiWorkflow.Yaml.Cursor

/-!
# Tokens

The strict reading of a text into values goes through tokens, in which indentation is told by starts and ends of blocks.
This module holds the tokens and the character classes of their scanner.
-/

namespace CiWorkflow.Yaml

/-- The tokens of a text. -/
inductive Token where
  | streamEnd
  | version (major minor : Nat)
  | tagDirective (handle lead : String)
  | documentStart
  | documentEnd
  | blockSequenceStart
  | blockMappingStart
  | blockEnd
  | flowSequenceStart
  | flowSequenceEnd
  | flowMappingStart
  | flowMappingEnd
  | blockEntry
  | flowEntry
  | key
  | value
  | aliasOf (name : String)
  | anchor (name : String)
  | tag (handle suffix : String)
  | scalar (plain : Bool) (text : String)
  deriving DecidableEq, Repr, Inhabited

/-- Line breaks in a text whose carriage returns and next-line characters are line feeds already. -/
def isLineEnd (c : Char) : Bool := c == '\n' || c == '\u2028' || c == '\u2029'

/-- Turns carriage returns, alone or with a line feed, and next-line characters into line feeds. -/
def unifyBreaks : List Char → List Char
  | [] => []
  | '\r' :: '\n' :: r => '\n' :: unifyBreaks r
  | c :: r => (if c = '\r' ∨ c = '\u0085' then '\n' else c) :: unifyBreaks r

/-- The characters that a text may hold. -/
def isAdmitted (c : Char) : Bool :=
  let n := c.toNat
  n == 9 || n == 10 || n == 13 || (32 ≤ n && n ≤ 126) || n == 0x85 || (0xA0 ≤ n && n ≤ 0xD7FF) ||
    (0xE000 ≤ n && n ≤ 0xFFFD) || 0x10000 ≤ n

/-- The characters of names. -/
def isNameChar (c : Char) : Bool := c.isAlphanum || c == '_' || c == '-'

/-- A place in a text and what follows it. `index` counts characters. -/
structure Input where
  rest : List Char
  index : Nat
  row : Nat
  column : Nat
  /-- the number of characters of the whole text, which bounds what can be read from any place -/
  size : Nat
  deriving Repr, Inhabited

namespace Input

/-- Moves past one character. -/
def next (i : Input) : Input :=
  match i.rest with
  | [] => i
  | c :: r =>
    if isLineEnd c then { i with rest := r, index := i.index + 1, row := i.row + 1, column := 0 }
    else { i with rest := r, index := i.index + 1, column := i.column + 1 }

/-- The place at the start of a text. -/
def ofText (s : List Char) : Input := ⟨s, 0, 0, 0, s.length⟩

def skip : Nat → Input → Input
  | 0, i => i
  | n + 1, i => skip n i.next

/-- The character `n` places ahead. -/
def peek (i : Input) (n : Nat) : Option Char := i.rest[n]?

/-- Whether the character `n` places ahead is a blank, a line break or the end. -/
def blankAt (i : Input) (n : Nat) : Bool :=
  match i.peek n with
  | none => true
  | some c => isSpace c || isLineEnd c

/-- Whether the line or the text ends here. -/
def atLineEnd (i : Input) : Bool :=
  match i.rest with
  | [] => true
  | c :: _ => isLineEnd c

/-- Whether a mark between documents starts here. -/
def atDocumentMark (i : Input) : Bool :=
  i.column == 0 && (['-', '-', '-'].isPrefixOf i.rest || ['.', '.', '.'].isPrefixOf i.rest) && i.blankAt 3

/-- Moves past the characters of a class, up to `n` of them, and answers them. -/
def takeWhile (f : Char → Bool) : Nat → Input → List Char × Input
  | 0, i => ([], i)
  | n + 1, i =>
    match i.rest with
    | [] => ([], i)
    | c :: _ =>
      if f c then
        let (cs, j) := takeWhile f n i.next
        (c :: cs, j)
      else ([], i)

/-- Moves past all characters of a class, and answers them. -/
def span (f : Char → Bool) (i : Input) : List Char × Input := i.takeWhile f i.size

/-- Moves past spaces and tabs. -/
def skipSpaces (i : Input) : Input := (i.span isSpace).2

/-- Moves to the end of the line. -/
def skipLine (i : Input) : Input := (i.span fun c => !isLineEnd c).2

end Input

end CiWorkflow.Yaml
