import CiWorkflow.Text.Ascii

/-!
# TOML texts

A text stands between quotes of one of four kinds. Between double quotes a backslash starts an escape, between single quotes
it is an ordinary character, and three quotes on each side allow line breaks. A writer takes the plainest kind that can hold
a text without escapes.
-/

namespace CiWorkflow.Toml

/-- The quote of texts with escapes. -/
def doubleQuote : Char := '\x22'

/-- The quote of texts without escapes. -/
def singleQuote : Char := '\x27'

/-- Whether a character may stand for itself in a text or a comment. -/
def isPlain (c : Char) : Bool := c == '\t' || (' ' ≤ c && c != '\x7f')

def isBlank (c : Char) : Bool := c == ' ' || c == '\t'

/-! ### Reading -/

/-- The character that the first `n` characters give the code of. -/
def coded? (n : Nat) (cs : List Char) : Option (Char × List Char) := do
  let digits ← (cs.take n).mapM Text.hexValue?
  let code := digits.foldl (fun v d => 16 * v + d) 0
  if digits.length = n ∧ (Char.ofNat code).toNat = code then some (Char.ofNat code, cs.drop n) else none

/-- The character that an escape stands for, by what follows the backslash. -/
def escaped? : List Char → Option (Char × List Char)
  | [] => none
  | c :: r =>
    if c = 'b' then some ('\x08', r)
    else if c = 't' then some ('\t', r)
    else if c = 'n' then some ('\n', r)
    else if c = 'f' then some ('\x0c', r)
    else if c = 'r' then some ('\r', r)
    else if c = 'e' then some ('\x1b', r)
    else if c = doubleQuote then some (doubleQuote, r)
    else if c = '\\' then some ('\\', r)
    else if c = 'x' then coded? 2 r
    else if c = 'u' then coded? 4 r
    else if c = 'U' then coded? 8 r
    else none

/-- A text up to the closing quote, and what follows it, read in at most `fuel` steps. -/
def basic : Nat → List Char → Option (List Char × List Char)
  | 0, _ => none
  | _ + 1, [] => none
  | fuel + 1, c :: r =>
    if c = doubleQuote then some ([], r)
    else if c = '\\' then (escaped? r).bind fun (e, r) => (basic fuel r).map fun (s, r) => (e :: s, r)
    else if isPlain c then (basic fuel r).map fun (s, r) => (c :: s, r)
    else none

/-- A text without escapes up to the closing quote, and what follows it. -/
def literal : List Char → Option (List Char × List Char)
  | [] => none
  | c :: r =>
    if c = singleQuote then some ([], r)
    else if isPlain c then (literal r).map fun (s, r) => (c :: s, r)
    else none

/-- What follows three closing quotes, of which up to two more quotes before them belong to the text. -/
def closing (quote : Char) : List Char → List Char × List Char
  | a :: b :: r =>
    if a = quote ∧ b = quote then ([quote, quote], r) else if a = quote then ([quote], b :: r) else ([], a :: b :: r)
  | [a] => if a = quote then ([quote], []) else ([], [a])
  | [] => ([], [])

/-- Whether a text starts with three of the quotes. -/
def closes (quote : Char) (cs : List Char) : Bool := [quote, quote, quote].isPrefixOf cs

/-- Drops a line break at the start. -/
def dropBreak : List Char → List Char
  | '\n' :: r => r
  | '\r' :: '\n' :: r => r
  | r => r

/-- Whether a line break is next. -/
def atBreak : List Char → Bool
  | '\n' :: _ => true
  | '\r' :: '\n' :: _ => true
  | _ => false

/-- Drops blanks and line breaks. -/
def dropSpace : List Char → List Char
  | '\r' :: '\n' :: r => dropSpace r
  | c :: r => if isBlank c || c == '\n' then dropSpace r else c :: r
  | [] => []

/-- A text of several lines up to its three closing quotes. Escapes count where `escapes` says so, and a backslash at the
end of a line joins it to the next one. -/
def lines (quote : Char) (escapes : Bool) : Nat → List Char → Option (List Char × List Char)
  | 0, _ => none
  | _ + 1, [] => none
  | fuel + 1, c :: r =>
    if closes quote (c :: r) then some (closing quote (r.drop 2))
    else if escapes && c == '\\' then
      if atBreak (r.dropWhile isBlank) then lines quote escapes fuel (dropSpace r)
      else (escaped? r).bind fun (e, r) => (lines quote escapes fuel r).map fun (s, r) => (e :: s, r)
    else if atBreak (c :: r) then (lines quote escapes fuel (dropBreak (c :: r))).map fun (s, r) => ('\n' :: s, r)
    else if isPlain c then (lines quote escapes fuel r).map fun (s, r) => (c :: s, r)
    else none

/-- A text with its quotes, and what follows it. -/
def quoted? (fuel : Nat) (cs : List Char) : Option (List Char × List Char) :=
  if closes doubleQuote cs then lines doubleQuote true fuel (dropBreak (cs.drop 3))
  else if closes singleQuote cs then lines singleQuote false fuel (dropBreak (cs.drop 3))
  else
    match cs with
    | [] => none
    | c :: r => if c = doubleQuote then basic fuel r else if c = singleQuote then literal r else none

/-! ### Writing -/

/-- The length of the longest run of a character, where a run of `n` comes before. -/
def longestRun (q : Char) : Nat → List Char → Nat
  | n, [] => n
  | n, c :: r => if c = q then longestRun q (n + 1) r else max n (longestRun q 0 r)

/-- Whether a character can only be written as an escape. -/
def needsEscape (c : Char) : Bool := !isPlain c && c != '\n'

/-- The escape of a character. -/
def escape (c : Char) : List Char :=
  if c = '\x08' then ['\\', 'b']
  else if c = '\t' then ['\\', 't']
  else if c = '\n' then ['\\', 'n']
  else if c = '\x0c' then ['\\', 'f']
  else if c = '\r' then ['\\', 'r']
  else if c = doubleQuote ∨ c = '\\' then ['\\', c]
  else
    ['\\', 'u', '0', '0', (Text.hexDigit (c.toNat / 16)).toUpper, (Text.hexDigit (c.toNat % 16)).toUpper]

/-- The most double quotes that may stand in a row in a text of several lines. -/
def quotesInRow : Nat := 2

/-- Writes the inside of a text with escapes, where `n` double quotes come before. -/
def writeBasic (multiline : Bool) : Nat → List Char → List Char
  | _, [] => []
  | n, c :: r =>
    if c = doubleQuote then
      if (if multiline then quotesInRow else 0) ≤ n then escape c ++ writeBasic multiline 0 r
      else c :: writeBasic multiline (n + 1) r
    else if c = '\n' ∧ multiline then c :: writeBasic multiline 0 r
    else if c = '\t' ∨ c = '\\' ∨ !isPlain c then escape c ++ writeBasic multiline 0 r
    else c :: writeBasic multiline 0 r

/-- The kinds of quotes. -/
inductive Quoting where
  | basic
  | literal
  | basicLines
  | literalLines
  deriving DecidableEq, Repr

/-- The plainest kind of quotes for a text. -/
def quotingOf (s : List Char) : Quoting :=
  let control := s.any needsEscape
  let backslash := s.contains '\\'
  let breaks := s.contains '\n'
  let doubles := longestRun doubleQuote 0 s
  let singles := longestRun singleQuote 0 s
  if !control && !backslash && doubles == 0 && !breaks then .basic
  else if !control && singles == 0 && !breaks then .literal
  else if !control && !backslash && doubles ≤ quotesInRow then .basicLines
  else if !control && singles ≤ quotesInRow then .literalLines
  else if breaks then .basicLines
  else .basic

/-- Writes a text. A text of several lines starts on a line of its own. -/
def write (s : List Char) : List Char :=
  let start := if s.contains '\n' then ['\n'] else []
  match quotingOf s with
  | .basic => doubleQuote :: writeBasic false 0 s ++ [doubleQuote]
  | .literal => singleQuote :: s ++ [singleQuote]
  | .basicLines => List.replicate 3 doubleQuote ++ start ++ writeBasic true 0 s ++ List.replicate 3 doubleQuote
  | .literalLines => List.replicate 3 singleQuote ++ start ++ s ++ List.replicate 3 singleQuote

end CiWorkflow.Toml
