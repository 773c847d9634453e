import CiWorkflow.Yaml.Token.Mark

/-!
# Token queues

Tokens are read on demand. A value that may turn out to be a key is held back until that is known, since the key and the
start of its mapping are told by tokens in front of it.
-/

namespace CiWorkflow.Yaml

/-- A place where a key without a mark may start: whether it must be one, the number of the token there, and its place. -/
structure Candidate where
  required : Bool
  number : Nat
  index : Nat
  row : Nat
  column : Nat
  deriving Repr

/-- Where the reading of tokens stands. -/
structure Queue where
  input : Input
  /-- the columns of the open blocks, innermost first; below them all is `-1` -/
  blocks : List Nat := []
  /-- the candidates at each level of flow collections, innermost first -/
  candidates : List (Option Candidate) := [none]
  keyAllowed : Bool := true
  tokens : List Token := []
  /-- how many tokens were taken from the queue -/
  taken : Nat := 0
  deriving Repr

namespace Queue

def flow (q : Queue) : Bool := 1 < q.candidates.length

/-- The column of the innermost block, or `-1`. -/
def indent (q : Queue) : Int := (q.blocks.head?.map Int.ofNat).getD (-1)

def push (q : Queue) (t : Token) : Queue := { q with tokens := q.tokens ++ [t] }

/-- Puts a token in front of the one with this number. -/
def insertAt (q : Queue) (number : Nat) (t : Token) : Queue :=
  { q with tokens := q.tokens.take (number - q.taken) ++ t :: q.tokens.drop (number - q.taken) }

def withInput (q : Queue) (i : Input) : Queue := { q with input := i }

def allowKey (q : Queue) (b : Bool) : Queue := { q with keyAllowed := b }

/-- Drops the candidate at this level, unless it must be a key. -/
def dropCandidate (q : Queue) : Option Queue :=
  match q.candidates with
  | some c :: r => if c.required then none else some { q with candidates := none :: r }
  | _ => some q

/-- Notes that a key may start here. -/
def noteCandidate (q : Queue) : Option Queue :=
  if q.keyAllowed then
    q.dropCandidate.map fun p =>
      let c : Candidate := {
        required := !q.flow && q.indent == Int.ofNat q.input.column, number := q.taken + q.tokens.length,
        index := q.input.index, row := q.input.row, column := q.input.column }
      { p with candidates := some c :: p.candidates.drop 1 }
  else some q

/-- Drops the candidates that are too far back: on an earlier line, or more than 1024 characters away. -/
def dropStale (q : Queue) : Option Queue :=
  let stale (c : Candidate) : Bool := c.row < q.input.row || c.index + 1024 < q.input.index
  if q.candidates.any fun c => (c.map fun c => stale c && c.required).getD false then none
  else some { q with candidates := q.candidates.map fun c => if (c.map stale).getD false then none else c }

/-- Opens a block in column `col`, in front of the token with this number. -/
def openBlock (q : Queue) (col number : Nat) (t : Token) : Queue :=
  if !q.flow && q.indent < Int.ofNat col then { q.insertAt number t with blocks := col :: q.blocks } else q

/-- Closes the blocks right of column `col`. -/
def closeBlocks (q : Queue) (col : Int) : Queue :=
  if q.flow then q
  else
    let open_ := q.blocks.dropWhile fun b => col < Int.ofNat b
    { q with blocks := open_, tokens := q.tokens ++ List.replicate (q.blocks.length - open_.length) .blockEnd }

/-- The number that the next token read will have. -/
def nextNumber (q : Queue) : Nat := q.taken + q.tokens.length

/-- Moves to the next token, past blanks, comments and line breaks; a line break outside of flow collections allows a
key. -/
def skipGap : Nat → Queue → Queue
  | 0, q => q
  | fuel + 1, q =>
    let i := if q.input.index = 0 ∧ q.input.rest.head? = some '\uFEFF' then q.input.next else q.input
    let i := (i.span fun c => c == ' ' || ((q.flow || !q.keyAllowed) && c == '\t')).2
    let i := if i.rest.head? = some '#' then i.skipLine else i
    if i.rest.isEmpty || !i.atLineEnd then q.withInput i
    else skipGap fuel { q with input := i.next, keyAllowed := q.keyAllowed || !q.flow }

/-- Reads a token of one character. -/
def single (q : Queue) (t : Token) : Queue := { q.push t with input := q.input.next }

/-- Reads a scalar, an anchor or a tag: a candidate for a key. -/
def candidate (q : Queue) (read : Queue → Option (Token × Input)) : Option Queue :=
  q.noteCandidate.bind fun q => (read q).map fun (t, i) => { q.push t with input := i, keyAllowed := false }

/-- Reads a token that ends all blocks. -/
def topLevel (q : Queue) (read : Queue → Option (Token × Input)) : Option Queue :=
  (q.closeBlocks (-1)).dropCandidate.bind fun q =>
    (read q).map fun (t, i) => { q.push t with input := i, keyAllowed := false }

/-- Reads the indicator of an entry of a sequence or of an explicit key. -/
def indicator (q : Queue) (opening t : Token) : Option Queue :=
  if !q.flow && !q.keyAllowed then none
  else
    ((q.openBlock q.input.column q.nextNumber opening).dropCandidate).map fun p =>
      p.single t

/-- Reads the colon in front of a value. A candidate in front of it is a key. -/
def colon (q : Queue) : Option Queue :=
  match q.candidates with
  | some c :: r =>
    let q := (q.insertAt c.number .key).openBlock c.column c.number .blockMappingStart
    some { q.single .value with candidates := none :: r, keyAllowed := false }
  | _ =>
    if !q.flow && !q.keyAllowed then none
    else some ((q.openBlock q.input.column q.nextNumber .blockMappingStart).single .value |>.allowKey (!q.flow))

/-- The characters that no plain scalar starts with, some of them unless more follows. -/
def indicators : List Char :=
  ['-', '?', ':', ',', '[', ']', '{', '}', '#', '&', '*', '!', '|', '>', '\'', '"', '%', '@', '\x60']

/-- Whether a plain scalar may start here. -/
def startsPlain (q : Queue) : Bool :=
  match q.input.rest with
  | [] => false
  | c :: r =>
    let spaceNext := (r.head?.map isSpace).getD false
    (!isSpace c && !isLineEnd c && !indicators.contains c) ||
    (c == '-' && !spaceNext) || (!q.flow && (c == '?' || c == ':') && !q.input.blankAt 1)

/-- Reads one more token, with those that its place implies. -/
def fetch (q : Queue) : Option Queue :=
  (q.skipGap (q.input.size + 1)).dropStale.bind fun q =>
    let q := q.closeBlocks (Int.ofNat q.input.column)
    let fuel := q.input.size + 1
    match q.input.rest with
    | [] => (q.closeBlocks (-1)).dropCandidate.map fun q => (q.push .streamEnd).allowKey false
    | c :: _ =>
      if q.input.column = 0 ∧ c = '%' then q.topLevel fun q => directiveToken q.input
      else if q.input.atDocumentMark then
        q.topLevel fun q => some (if c = '-' then .documentStart else .documentEnd, q.input.skip 3)
      else if c = '[' ∨ c = '{' then
        q.noteCandidate.map fun q =>
          { q.single (if c = '[' then .flowSequenceStart else .flowMappingStart) with
            candidates := none :: q.candidates, keyAllowed := true }
      else if c = ']' ∨ c = '}' then
        q.dropCandidate.map fun q =>
          { q.single (if c = ']' then .flowSequenceEnd else .flowMappingEnd) with
            candidates := if q.flow then q.candidates.drop 1 else q.candidates, keyAllowed := false }
      else if c = ',' then q.dropCandidate.map fun q => (q.single .flowEntry).allowKey true
      else if c = '-' ∧ q.input.blankAt 1 then (q.indicator .blockSequenceStart .blockEntry).map (·.allowKey true)
      else if c = '?' ∧ (q.flow ∨ q.input.blankAt 1) then
        (q.indicator .blockMappingStart .key).map fun p => p.allowKey (!p.flow)
      else if c = ':' ∧ (q.flow ∨ q.input.blankAt 1) then q.colon
      else if c = '*' then q.candidate fun q => (nameToken q.input).map fun (n, i) => (.aliasOf n, i)
      else if c = '&' then q.candidate fun q => (nameToken q.input).map fun (n, i) => (.anchor n, i)
      else if c = '!' then q.candidate fun q => tagToken q.flow q.input
      else if (c = '|' ∨ c = '>') ∧ !q.flow then
        q.dropCandidate.bind fun q =>
          (blockToken (c == '|') q.indent q.input).map fun (t, i) =>
            { q.push (.scalar false (String.ofList t)) with input := i, keyAllowed := true }
      else if c = '\'' ∨ c = '"' then
        q.candidate fun q =>
          (quotedToken (c == '\'') fuel q.input.next .nothing []).map fun (t, i) => (.scalar false (String.ofList t), i)
      else if q.startsPlain then
        q.noteCandidate.bind fun q =>
          (plainToken q.flow (q.indent + 1).toNat fuel q.input .nothing []).map fun (t, i, breaks) =>
            { q.push (.scalar true (String.ofList t)) with input := i, keyAllowed := breaks }
      else none

/-- Whether the first token may still turn out to be a key. -/
def undecided (q : Queue) : Bool :=
  q.candidates.any fun c => (c.map (·.number == q.taken)).getD false

/-- Reads tokens until the first one is certain. -/
def settle : Nat → Queue → Option Queue
  | 0, _ => none
  | fuel + 1, q =>
    if q.tokens.isEmpty then q.fetch.bind (settle fuel)
    else
      match q.dropStale with
      | none => none
      | some p => if p.undecided then p.fetch.bind (settle fuel) else some p

/-- The first token, and the queue that starts with it. -/
def peek (q : Queue) : Option (Token × Queue) :=
  (q.settle (q.input.size + 3)).bind fun p => p.tokens.head?.map (·, p)

/-- Takes the first token. -/
def drop (q : Queue) : Queue := { q with tokens := q.tokens.drop 1, taken := q.taken + 1 }

/-- The queue of a text. -/
def ofText (s : List Char) : Queue := { input := .ofText (unifyBreaks s) }

end Queue

end CiWorkflow.Yaml
