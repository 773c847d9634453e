import CiWorkflow.Yaml.Token.Basic

/-!
# Scalar tokens

The texts of plain, quoted and block scalars. Each reader answers the text and the place behind the scalar, or `none` where
the scalar is malformed.
-/

namespace CiWorkflow.Yaml

/-- Blanks and line breaks that are read but not yet part of a scalar's text. -/
inductive Pending where
  | nothing
  | spaces (text : List Char)
  /-- a line break, and the further breaks behind it -/
  | breaks (first : Char) (more : List Char)
  deriving Repr

namespace Pending

def isBreaks : Pending → Bool
  | breaks .. => true
  | _ => false

/-- What blanks become between two parts of a text: a single line break becomes a space, and of several the first one is
dropped. -/
def join : Pending → List Char
  | nothing => []
  | spaces t => t
  | breaks first more => if first = '\n' then (if more.isEmpty then [' '] else more) else first :: more

/-- What blanks become, put behind a text that is given last character first. -/
def onto (p : Pending) (text : List Char) : List Char := p.join.reverse ++ text

/-- Adds a blank; behind a line break, blanks do not count. -/
def addSpace (c : Char) : Pending → Pending
  | nothing => spaces [c]
  | spaces t => spaces (t ++ [c])
  | b => b

/-- Adds a line break. -/
def addBreak (c : Char) : Pending → Pending
  | breaks first more => breaks first (more ++ [c])
  | _ => breaks c []

end Pending

/-! ### Plain scalars -/

/-- Reads a plain scalar from `i` on; lines outside of flow collections stay right of column `indent - 1`. `text` is what
has been read, last character first. The answer also tells whether line breaks were read behind the scalar. -/
def plainToken (flow : Bool) (indent : Nat) : Nat → Input → Pending → List Char → Option (List Char × Input × Bool)
  | 0, _, _, _ => none
  | fuel + 1, i, pending, text =>
    let done (_ : Unit) := some (text.reverse, i, pending.isBreaks)
    match i.rest with
    | [] => done ()
    | c :: _ =>
      if isLineEnd c then plainToken flow indent fuel i.next (pending.addBreak c) text
      else if isSpace c then
        if pending.isBreaks && i.column < indent && c == '\t' then none
        else plainToken flow indent fuel i.next (pending.addSpace c) text
      else
        let fresh := match pending with
          | .nothing => false
          | _ => true
        if fresh && (!flow && i.column < indent || i.atDocumentMark || c == '#') then done ()
        else if flow && c == ':' && ((i.peek 1).map [',', '?', '[', ']', '{', '}'].contains).getD false then none
        else if c == ':' && i.blankAt 1 || flow && [',', '[', ']', '{', '}'].contains c then done ()
        else plainToken flow indent fuel i.next .nothing (c :: pending.onto text)

/-! ### Quoted scalars -/

/-- The character that an escape of one letter stands for. -/
def escaped? (c : Char) : Option Char :=
  match c with
  | '0' => some '\x00'
  | 'a' => some '\x07'
  | 'b' => some '\x08'
  | 't' | '\t' => some '\t'
  | 'n' => some '\n'
  | 'v' => some '\x0b'
  | 'f' => some '\x0c'
  | 'r' => some '\r'
  | 'e' => some '\x1b'
  | ' ' => some ' '
  | '"' => some '"'
  | '\'' => some '\''
  | '/' => some '/'
  | '\\' => some '\\'
  | 'N' => some '\u0085'
  | '_' => some '\u00a0'
  | 'L' => some '\u2028'
  | 'P' => some '\u2029'
  | _ => none

/-- The number that hexadecimal digits write. -/
def hexNumber (l : List Char) : Nat :=
  l.foldl (fun n c => n * 16 + (Text.hexValue? c).getD 0) 0

/-- The character with a code, unless that is no code of a character. -/
def charOfCode? (n : Nat) : Option Char :=
  if n < 0xD800 ∨ (0xE000 ≤ n ∧ n ≤ 0x10FFFF) then some (Char.ofNat n) else none

/-- Reads an escape, from behind its backslash on. -/
def escapeToken (i : Input) : Option (Char × Input) :=
  let code (digits : Nat) : Option (Char × Input) :=
    let (ds, j) := i.next.takeWhile (fun c => (Text.hexValue? c).isSome) digits
    if ds.length = digits then (charOfCode? (hexNumber ds)).map (·, j) else none
  match i.rest with
  | 'x' :: _ => code 2
  | 'u' :: _ => code 4
  | 'U' :: _ => code 8
  | c :: _ => (escaped? c).map (·, i.next)
  | [] => none

/-- Reads a quoted scalar, from behind its opening quote on. `text` is what has been read, last character first. -/
def quotedToken (single : Bool) : Nat → Input → Pending → List Char → Option (List Char × Input)
  | 0, _, _, _ => none
  | fuel + 1, i, pending, text =>
    let quote := if single then '\'' else '"'
    match i.rest with
    | [] => none
    | c :: _ =>
      if i.atDocumentMark then none
      else if isLineEnd c then quotedToken single fuel i.next (pending.addBreak c) text
      else if isSpace c then quotedToken single fuel i.next (pending.addSpace c) text
      else
        let text := pending.onto text
        if single && c == '\'' && i.peek 1 == some '\'' then quotedToken single fuel (i.skip 2) .nothing ('\'' :: text)
        else if c = quote then some (text.reverse, i.next)
        else if !single && c == '\\' then
          match i.peek 1 with
          | none => none
          | some e =>
            if isLineEnd e then
              -- the escaped break leaves no trace, and the blanks of the next line are dropped
              let j := (i.skip 2).skipSpaces
              if j.atLineEnd then quotedToken single fuel j (.breaks '\n' []) text
              else quotedToken single fuel j .nothing text
            else
              match escapeToken i.next with
              | none => none
              | some (v, j) => quotedToken single fuel j .nothing (v :: text)
        else quotedToken single fuel i.next .nothing (c :: text)

/-! ### Block scalars -/

/-- Reads the blank lines in front of a line of text; `indent` is the indentation, `0` while that is not known. The answer
holds the breaks, and the greatest column reached. -/
def blankLines (indent : Nat) : Nat → Input → Nat → List Char → Option (List Char × Nat × Input)
  | 0, _, _, _ => none
  | fuel + 1, i, widest, breaks =>
    let free := indent - i.column
    let (_, j) := i.takeWhile (· == ' ') (if indent = 0 then i.size else free)
    let widest := max widest j.column
    match j.rest with
    | [] => some (breaks, widest, j)
    | c :: _ =>
      if (indent == 0 || j.column < indent) && c == '\t' then none
      else if isLineEnd c then blankLines indent fuel j.next widest (breaks ++ [c])
      else some (breaks, widest, j)

/-- Reads the lines of a block scalar. `lead` is the break in front of the next line, `trailing` the breaks of the blank
lines there, `wasBlank` tells whether the line before started with a blank, and `text` is what has been read, last character
first. -/
def blockTextLines (literal : Bool) (indent : Nat) : Nat → Input → List Char → List Char → Bool → List Char →
    Option (List Char × List Char × List Char × Input)
  | 0, _, _, _, _, _ => none
  | fuel + 1, i, lead, trailing, wasBlank, text =>
    if i.column ≠ indent ∨ i.rest.isEmpty then some (text.reverse, lead, trailing, i)
    else
      let isBlank := (i.rest.head?.map isSpace).getD false
      let lead :=
        if !literal && lead.head? == some '\n' && !wasBlank && !isBlank then (if trailing.isEmpty then [' '] else [])
        else lead
      let (line, j) := i.span fun c => !isLineEnd c
      let text := (lead ++ trailing ++ line).reverse ++ text
      let (lead, j) := match j.rest with
        | [] => ([], j)
        | c :: _ => ([c], j.next)
      match blankLines indent fuel j 0 [] with
      | none => none
      | some (trailing, _, k) => blockTextLines literal indent fuel k lead trailing isBlank text

/-- Reads a block scalar, from its indicator on; `outer` is the column of the block around it, or `-1`. -/
def blockToken (literal : Bool) (outer : Int) (i : Input) : Option (List Char × Input) :=
  let sign (j : Input) : Option Char × Input :=
    match j.rest with
    | '+' :: _ => (some '+', j.next)
    | '-' :: _ => (some '-', j.next)
    | _ => (none, j)
  let digit (j : Input) : Option (Nat × Input) :=
    match j.rest with
    | c :: _ => if c = '0' then none else if c.isDigit then some (c.toNat - 48, j.next) else some (0, j)
    | [] => some (0, j)
  let fuel := i.size + 1
  let before := sign i.next
  match digit before.2 with
  | none => none
  | some (increment, j) =>
    let after := if before.1.isNone then sign j else (before.1, j)
    let j := after.2.skipSpaces
    let j := if j.rest.head? = some '#' then j.skipLine else j
    if !j.atLineEnd then none
    else
      let told := if increment = 0 then 0 else (max outer 0).toNat + increment
      match blankLines told fuel j.next 0 [] with
      | none => none
      | some (trailing, widest, k) =>
        let indent := if told = 0 then max (max widest (outer + 1).toNat) 1 else told
        match blockTextLines literal indent fuel k [] trailing false [] with
        | none => none
        | some (text, lead, trailing, e) =>
          some (match after.1 with
            | some '-' => (text, e)
            | some _ => (text ++ lead ++ trailing, e)
            | none => (text ++ lead, e))

end CiWorkflow.Yaml
