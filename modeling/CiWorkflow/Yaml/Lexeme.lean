import CiWorkflow.Text.Ascii
import CiWorkflow.Yaml.Cursor

/-!
# Lexemes

Plain, quoted and block scalars, anchors, aliases and tags. Each reader starts at the first character of its lexeme and
answers the place behind the last one. A `margin` is the first column that the lines of a value may use.
-/

namespace CiWorkflow.Yaml

/-! ### Character classes -/

/-- Printable characters other than blanks, line breaks and the byte order mark. -/
def isVisible (c : Char) : Bool :=
  let n := c.toNat
  (33 ≤ n && n ≤ 126) || n == 0x85 || (0xA0 ≤ n && n ≤ 0xD7FF) || (0xE000 ≤ n && n ≤ 0xFEFE) ||
    (0xFF00 ≤ n && n ≤ 0xFFFD) || 0x10000 ≤ n

/-- The marks of flow collections. -/
def isFlowIndicator (c : Char) : Bool :=
  [',', '[', ']', '{', '}'].contains c

/-- The characters that start no plain scalar, at least not alone. -/
def isIndicator (c : Char) : Bool :=
  isFlowIndicator c ||
    ['-', '?', ':', '#', '&', '*', '!', '|', '>', '\'', '"', '%', '@', '\x60'].contains c

/-- The characters of a plain scalar. -/
def isPlainSafe (flow : Bool) (c : Char) : Bool :=
  isVisible c && !(flow && isFlowIndicator c)

/-- The characters that a quoted scalar holds as they are. -/
def isQuotable (c : Char) : Bool :=
  c == '\t' || 32 ≤ c.toNat

def isWordChar (c : Char) : Bool :=
  c.isAlphanum || c == '-'

/-- The characters of a tag written in full. -/
def isUriChar (c : Char) : Bool :=
  isWordChar c || "#;/?:@&=+$,_.!~*'()[]".toList.contains c

/-- The characters of a tag's suffix. -/
def isTagChar (c : Char) : Bool :=
  isUriChar c && c != '!' && !isFlowIndicator c

def isAnchorChar (c : Char) : Bool :=
  isVisible c && !isFlowIndicator c

def isHex (c : Char) : Bool :=
  (Text.hexValue? c).isSome

/-! ### Plain scalars -/

/-- The outcome of reading one line of a plain scalar: the end of its text, the place where reading stopped, and whether
the scalar ends on this line in any case. -/
structure PlainLine where
  stop : Cursor
  ahead : Cursor
  ended : Bool
  deriving Repr

/-- Reads one line; `afterSafe` tells whether the character before belongs to the scalar without a blank between. -/
def plainLine (flow : Bool) : List Char → Position → Bool → Cursor → PlainLine
  | [], p, _, stop => ⟨stop, ⟨p, []⟩, false⟩
  | c :: r, p, afterSafe, stop =>
    if c = ':' then
      if (r.head?.map (isPlainSafe flow)).getD false then
        plainLine flow r (p.after c) true ⟨p.after c, r⟩
      else ⟨stop, ⟨p.after c, r⟩, true⟩
    else if isPlainSafe flow c ∧ (c ≠ '#' ∨ afterSafe) then plainLine flow r (p.after c) true ⟨p.after c, r⟩
    else if isSpace c then plainLine flow r (p.after c) false stop
    else ⟨stop, ⟨p, c :: r⟩, false⟩

/-- Drops blanks and line breaks. -/
def skipBlank : List Char → Position → Cursor
  | [], p => ⟨p, []⟩
  | c :: r, p => if isSpace c ∨ isBreak c then skipBlank r (p.after c) else ⟨p, c :: r⟩

/-- Reads the lines of a plain scalar and answers the end of its text. -/
def plainLines (flow : Bool) (margin : Nat) : Nat → Cursor → Bool → Cursor → Cursor
  | 0, _, _, stop => stop
  | fuel + 1, p, afterSafe, stop =>
    let line := plainLine flow p.rest p.toPosition afterSafe stop
    if line.ended then line.stop
    else if (line.ahead.rest.head?.map isBreak).getD false then
      let q := skipBlank line.ahead.rest line.ahead.toPosition
      if q.rest.isEmpty || q.column < margin || q.atDocumentMark then line.stop
      else plainLines flow margin fuel q false line.stop
    else line.stop

/-- Reads a plain scalar. -/
def plainScalar (flow : Bool) (margin : Nat) (p : Cursor) : Option Cursor :=
  match p.rest with
  | [] => none
  | c :: r =>
    let opens := isVisible c && !isIndicator c ||
      ['-', '?', ':'].contains c && (r.head?.map (isPlainSafe flow)).getD false
    if opens then some (plainLines flow margin (r.length + 1) p.next true p.next) else none

/-! ### Quoted scalars -/

/-- What the next character of a double-quoted scalar is part of. -/
inductive Escape where
  | none
  | opened
  | digits (count : Nat)
  deriving DecidableEq, Repr

/-- The leading blanks of the line being read: how many spaces, and whether a tab ended them; `none` behind them. -/
abbrev Lead := Option (Nat × Bool)

/-- Whether text may start behind these leading blanks. -/
def Lead.allows (margin : Nat) : Lead → Bool
  | .none => true
  | .some (spaces, _) => margin ≤ spaces

/-- The leading blanks with one more character, which is no line break; `none` where that character is text. -/
def Lead.push (c : Char) : Lead → Lead
  | .none => .none
  | .some (spaces, tab) =>
    if c = ' ' then .some (if tab then spaces else spaces + 1, tab)
    else if c = '\t' then .some (spaces, true)
    else .none

/-- The number of hexadecimal digits that an escape asks for, `0` for an escape of one character. -/
def escapeDigits? (c : Char) : Option Nat :=
  if c = 'x' then some 2 else if c = 'u' then some 4 else if c = 'U' then some 8
  else if ['0', 'a', 'b', 't', '\t', 'n', 'v', 'f', 'r', 'e', ' ', '"', '/', '\\', 'N', '_', 'L', 'P'].contains c then some 0
  else none

/-- Reads a double-quoted scalar, from behind its opening quote. -/
def doubleQuoted (margin : Nat) : List Char → Position → Lead → Escape → Option Cursor
  | [], _, _, _ => none
  | c :: r, p, _, .opened =>
    if isBreak c then doubleQuoted margin r (p.after c) (some (0, false)) .none
    else match escapeDigits? c with
      | none => none
      | some 0 => doubleQuoted margin r (p.after c) none .none
      | some n => doubleQuoted margin r (p.after c) none (.digits n)
  | c :: r, p, lead, .digits n =>
    if isHex c then doubleQuoted margin r (p.after c) lead (if n ≤ 1 then .none else .digits (n - 1)) else none
  | c :: r, p, lead, .none =>
    if isBreak c then doubleQuoted margin r (p.after c) (some (0, false)) .none
    else if isSpace c then doubleQuoted margin r (p.after c) (lead.push c) .none
    else if !lead.allows margin || Cursor.atDocumentMark ⟨p, c :: r⟩ then none
    else if c = '"' then some ⟨p.after c, r⟩
    else if c = '\\' then doubleQuoted margin r (p.after c) none .opened
    else if isQuotable c then doubleQuoted margin r (p.after c) none .none
    else none

/-- Reads a single-quoted scalar, from behind its opening quote; a quote inside it is written twice. -/
def singleQuoted (margin : Nat) : List Char → Position → Lead → Option Cursor
  | [], _, _ => none
  | '\'' :: '\'' :: r, p, lead =>
    if lead.allows margin then singleQuoted margin r ((p.after '\'').after '\'') none else none
  | c :: r, p, lead =>
    if isBreak c then singleQuoted margin r (p.after c) (some (0, false))
    else if isSpace c then singleQuoted margin r (p.after c) (lead.push c)
    else if !lead.allows margin || Cursor.atDocumentMark ⟨p, c :: r⟩ then none
    else if c = '\'' then some ⟨p.after c, r⟩
    else if isQuotable c then singleQuoted margin r (p.after c) none
    else none

/-! ### Anchors, aliases and tags -/

/-- Drops the characters of a class. -/
def skipWhile (f : Char → Bool) : List Char → Position → Cursor
  | [], p => ⟨p, []⟩
  | c :: r, p => if f c then skipWhile f r (p.after c) else ⟨p, c :: r⟩

/-- Reads the name behind `&` or `*`, which stands on the same line. -/
def anchorName (p : Cursor) : Option Cursor :=
  let g := p.gap
  if !g.newline && (g.ahead.rest.head?.map isAnchorChar).getD false then
    some (skipWhile isAnchorChar g.ahead.rest g.ahead.toPosition)
  else none

/-- Reads characters of a class and escapes of the form `%` and two hexadecimal digits. -/
def uriRun (f : Char → Bool) : List Char → Position → Option Cursor
  | [], p => some ⟨p, []⟩
  | '%' :: a :: b :: r, p =>
    if isHex a ∧ isHex b then uriRun f r (((p.after '%').after a).after b) else none
  | c :: r, p => if c = '%' then none else if f c then uriRun f r (p.after c) else some ⟨p, c :: r⟩

/-- Reads a tag, from its `!` on. -/
def tagEnd (p : Cursor) : Option Cursor :=
  let q := p.next
  if q.blankAt 0 then some q
  else if q.rest.head? = some '<' then
    (uriRun isUriChar q.next.rest q.next.toPosition).bind fun e =>
      if e.rest.head? = some '>' ∧ q.next.offset < e.offset then some e.next else none
  else
    let word := skipWhile isWordChar q.rest q.toPosition
    let named := word.rest.head? == some '!'
    let start := if named then word.next else q
    if named && start.blankAt 0 then none else uriRun isTagChar start.rest start.toPosition

/-! ### Block scalars -/

/-- The indentation that a block scalar's first lines set, counted in columns; `limit` is the least one. Blank lines at
the start can only raise it. -/
def detectMargin : List Char → Nat → Nat → Nat
  | [], _, limit => limit
  | c :: r, column, limit =>
    if c = ' ' then detectMargin r (column + 1) limit
    else if isBreak c then if column < limit then limit else detectMargin r 0 column
    else max column limit

/-- The header of a block scalar, from its indicator on: its end, and the indentation of the text where it is told. -/
def blockHeader (p : Cursor) : Option (Cursor × Option Nat) :=
  let sign (q : Cursor) : Cursor := if q.rest.head? = some '+' ∨ q.rest.head? = some '-' then q.next else q
  let digit (q : Cursor) : Option Nat :=
    q.rest.head?.bind fun c => if '1' ≤ c ∧ c ≤ '9' then some (c.toNat - 48) else none
  let q := p.next
  let (e, told) :=
    match digit q with
    | some n => (sign q.next, some n)
    | none => match digit (sign q) with
      | some n => if (sign q).offset = q.offset then (q, none) else ((sign q).next, some n)
      | none => (sign q, none)
  if e.blankAt 0 then some (e, told) else none

/-- Reads the lines of a block scalar. The answer is where the scalar ends: behind its last visible character, or at the
end of the text. -/
def blockLines (margin : Nat) : List Char → Position → Cursor → Lead → Option Cursor
  | [], p, _, _ => some ⟨p, []⟩
  | c :: r, p, stop, lead =>
    if isBreak c then blockLines margin r (p.after c) stop (some (0, false))
    else if isSpace c then blockLines margin r (p.after c) stop (lead.push c)
    else match lead with
      | none => if isVisible c then blockLines margin r (p.after c) ⟨p.after c, r⟩ none else none
      | some (spaces, tab) =>
        if p.column < margin && (!tab || c == '#') || Cursor.atDocumentMark ⟨p, c :: r⟩ then some stop
        else if margin ≤ spaces && isVisible c then blockLines margin r (p.after c) ⟨p.after c, r⟩ none
        else none

/-- Reads a block scalar below `margin`, from its indicator on. Its header may end in a comment. -/
def blockScalar (margin : Nat) (p : Cursor) : Option Cursor :=
  (blockHeader p).bind fun (header, told) =>
    let tail := skipWhile isSpace header.rest header.toPosition
    let lineEnd := skipWhile (fun c => !isBreak c) header.rest header.toPosition
    let inner := (told.map (margin + · - 1)).getD (detectMargin lineEnd.next.rest 0 margin)
    if tail.offset = lineEnd.offset then blockLines inner lineEnd.rest lineEnd.toPosition header none
    else if tail.rest.head? = some '#' then blockLines inner lineEnd.rest lineEnd.toPosition lineEnd none
    else none

end CiWorkflow.Yaml
