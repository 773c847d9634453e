import CiWorkflow.Text.Blank
import CiWorkflow.Text.Lines

/-!
# Block scalars

The value of a scalar written below a `|` or `>` header. Lines lose the indentation of the first line that is not
blank; literal scalars keep their line breaks, folded ones replace a single break between two lines of plain text
by a space; the chomping sign decides what remains of the breaks at the end.
-/

namespace CiWorkflow.Text

/-- What happens to the line breaks between lines. -/
inductive BlockStyle where
  | literal
  | folded
  deriving DecidableEq, Repr

/-- What happens to the line breaks at the end. -/
inductive Chomping where
  /-- all are dropped -/
  | strip
  /-- one is kept where there is any text -/
  | clip
  /-- all are kept -/
  | keep
  deriving DecidableEq, Repr

/-- A block scalar as written: its header's two settings and the lines below the header. -/
structure BlockScalar where
  style : BlockStyle
  chomping : Chomping
  lines : List (List Char)
  deriving DecidableEq, Repr

namespace BlockScalar

/-- The chomping sign is the first `-` or `+` before any blank. -/
def chompingOf (header : List Char) : Chomping :=
  match (header.takeWhile fun c => !isBlank c).find? fun c => c == '-' || c == '+' with
  | some '-' => .strip
  | some _ => .keep
  | none => .clip

/-- Reads header and lines; `none` where the text does not start with `|` or `>`. -/
def ofText? : List Char → Option BlockScalar
  | '>' :: r => some ⟨.folded, chompingOf (splitLine r).1, Text.lines (splitLine r).2⟩
  | '|' :: r => some ⟨.literal, chompingOf (splitLine r).1, Text.lines (splitLine r).2⟩
  | _ => none

/-- The number of spaces in front. -/
def leadingSpaces (line : List Char) : Nat :=
  (line.takeWhile (· == ' ')).length

/-- The indentation of the first line that is not blank. -/
def indentation (ls : List (List Char)) : Nat :=
  ((ls.find? fun l => !allBlank l).map leadingSpaces).getD 0

/-- A line without its indentation; a blank line is empty. -/
def dedent (indent : Nat) (line : List Char) : List Char :=
  if allBlank line then [] else line.drop (min (leadingSpaces line) indent)

/-- The lines without indentation. -/
def dedented (ls : List (List Char)) : List (List Char) :=
  ls.map (dedent (indentation ls))

/-- The lines up to the last one that is not empty. -/
def content (ls : List (List Char)) : List (List Char) :=
  (ls.reverse.dropWhile List.isEmpty).reverse

/-- Whether a line starts further right than the text does. -/
def moreIndented : List Char → Bool
  | c :: _ => c == ' ' || c == '\t'
  | [] => false

/-- What stands between two lines that have `blank` empty lines between them; `none` before the first line. -/
def separator (style : BlockStyle) (previous : Option (List Char)) (blank : Nat) (line : List Char) : List Char :=
  match previous with
  | none => List.replicate blank '\n'
  | some p =>
    if style = .folded ∧ moreIndented p = false ∧ moreIndented line = false then
      if blank = 0 then [' '] else List.replicate blank '\n'
    else List.replicate (blank + 1) '\n'

/-- Joins lines, after `previous` and `blank` empty lines. -/
def join (style : BlockStyle) : Option (List Char) → Nat → List (List Char) → List Char
  | _, _, [] => []
  | previous, blank, [] :: r => join style previous (blank + 1) r
  | previous, blank, (c :: l) :: r => separator style previous blank (c :: l) ++ (c :: l) ++ join style (some (c :: l)) 0 r

/-- The line breaks at the end, for a text with `trailing` empty lines behind it. -/
def ending (chomping : Chomping) (text : List Char) (trailing : Nat) : List Char :=
  match chomping with
  | .strip => []
  | .keep => List.replicate (trailing + 1) '\n'
  | .clip => if text.isEmpty then [] else ['\n']

/-- The value of the scalar. -/
def value (b : BlockScalar) : List Char :=
  let ls := dedented b.lines
  let body := content ls
  let text := join b.style none 0 body
  text ++ ending b.chomping text (ls.length - body.length)

end BlockScalar

/-- The value of a block scalar given with its header; `none` for any other text. -/
def foldBlockScalar (s : List Char) : Option (List Char) :=
  (BlockScalar.ofText? s).map BlockScalar.value

/-- `foldBlockScalar` on strings. -/
def foldBlockString (s : String) : Option String :=
  (foldBlockScalar s.toList).map String.ofList

end CiWorkflow.Text
