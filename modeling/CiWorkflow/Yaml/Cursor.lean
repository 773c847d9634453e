import CiWorkflow.Yaml.ConcreteTree

/-!
# Cursors and gaps

A cursor is what remains of a text together with its place. The gap behind a lexeme holds blanks, line breaks and
comments; what it ends at, and how far that line is indented, decides what may follow.
-/

namespace CiWorkflow.Yaml

/-- A place in a text: bytes before it, line breaks before it, characters before it on its line. -/
structure Position where
  offset : Nat
  row : Nat
  column : Nat
  deriving DecidableEq, Repr, Inhabited

def isBreak (c : Char) : Bool := c == '\n' || c == '\r'

def isSpace (c : Char) : Bool := c == ' ' || c == '\t'

/-- The place behind a character. -/
def Position.after (p : Position) (c : Char) : Position :=
  if isBreak c then ⟨p.offset + c.utf8Size, p.row + 1, 0⟩ else ⟨p.offset + c.utf8Size, p.row, p.column + 1⟩

/-- A place and the text from there on. -/
structure Cursor extends Position where
  rest : List Char
  deriving DecidableEq, Repr, Inhabited

namespace Cursor

/-- The place behind the next character. -/
def next (p : Cursor) : Cursor :=
  match p.rest with
  | [] => p
  | c :: r => ⟨p.toPosition.after c, r⟩

/-- The place behind the next `n` characters. -/
def skip : Nat → Cursor → Cursor
  | 0, p => p
  | n + 1, p => skip n p.next

/-- Whether a blank, a line break or the end of the text comes next after `n` characters. -/
def blankAt (p : Cursor) (n : Nat) : Bool :=
  match p.rest.drop n with
  | [] => true
  | c :: _ => isSpace c || isBreak c

/-- Whether the character `c` and then a blank come next. -/
def atIndicator (p : Cursor) (c : Char) : Bool :=
  p.rest.head? == some c && p.blankAt 1

/-- Whether a line starts here that separates documents: `---` or `...`, and then a blank. -/
def atDocumentMark (p : Cursor) : Bool :=
  p.column == 0 && (['-', '-', '-'].isPrefixOf p.rest || ['.', '.', '.'].isPrefixOf p.rest) && p.blankAt 3

end Cursor

/-- What lies behind a lexeme. -/
structure Gap where
  comments : List ConcreteTree
  /-- the end of the last comment, or of the lexeme where there is none -/
  mark : Cursor
  /-- the next lexeme -/
  ahead : Cursor
  /-- the spaces in front of it on its line, up to the first tab -/
  spaces : Nat
  /-- whether there are tabs in front of it on its line -/
  tab : Bool
  deriving Repr, Inhabited

namespace Gap

/-- Whether the next lexeme stands on a later line. -/
def newline (g : Gap) : Bool := g.mark.row < g.ahead.row

/-- Whether it stands on a later line, in a column from `margin` on. -/
def below (g : Gap) (margin : Nat) : Bool := g.newline && margin ≤ g.spaces

/-- Whether it stands on a later line, in the column before `margin`. -/
def level (g : Gap) (margin : Nat) : Bool := g.newline && g.spaces + 1 == margin && !g.tab

/-- Whether the text ends here. -/
def atEnd (g : Gap) : Bool := g.ahead.rest.isEmpty

/-- Where a collection that ends in this gap ends: behind the last comment, or at the end of the text. -/
def closing (g : Gap) : Cursor := if g.atEnd then g.ahead else g.mark

/-- Reads blanks, line breaks and comments. A `#` right behind a lexeme starts no comment; `opened` is where the comment
being read started. -/
def scan : List Char → Position → Cursor → Nat → Bool → Option Nat → List ConcreteTree → Gap
  | [], p, mark, spaces, tab, opened, comments =>
    match opened with
    | none => ⟨comments.reverse, mark, ⟨p, []⟩, spaces, tab⟩
    | some start => ⟨(ConcreteTree.leaf .comment start p.offset :: comments).reverse, ⟨p, []⟩, ⟨p, []⟩, spaces, tab⟩
  | c :: r, p, mark, spaces, tab, some start, comments =>
    if isBreak c then
      scan r (p.after c) ⟨p, c :: r⟩ 0 false none (ConcreteTree.leaf .comment start p.offset :: comments)
    else scan r (p.after c) mark spaces tab (some start) comments
  | c :: r, p, mark, spaces, tab, none, comments =>
    if isBreak c then scan r (p.after c) mark 0 false none comments
    else if c = ' ' then scan r (p.after c) mark (if tab then spaces else spaces + 1) tab none comments
    else if c = '\t' then scan r (p.after c) mark spaces true none comments
    else if c = '#' ∧ (p.column = 0 ∨ p.offset ≠ mark.offset) then scan r (p.after c) mark spaces tab (some p.offset) comments
    else ⟨comments.reverse, mark, ⟨p, c :: r⟩, spaces, tab⟩

end Gap

/-- The gap behind a cursor. -/
def Cursor.gap (p : Cursor) : Gap :=
  Gap.scan p.rest p.toPosition p 0 false none []

end CiWorkflow.Yaml
