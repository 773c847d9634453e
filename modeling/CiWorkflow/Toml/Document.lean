import CiWorkflow.Toml.Quoted
import CiWorkflow.Toml.Scalar
import CiWorkflow.Toml.Tree

/-!
# TOML documents

A document is a row of statements, each on a line of its own: a key bound to a value, or the header of a table under which
the bindings that follow belong.
-/

namespace CiWorkflow.Toml

/-- A line of a document that says something. -/
inductive Statement where
  | bind (key : List String) (v : Value)
  | table (path : List String)
  /-- another table of an array of tables -/
  | tables (path : List String)
  deriving Repr

/-! ### Space -/

/-- Drops a comment up to the line break behind it. -/
def dropComment : List Char → Option (List Char)
  | [] => some []
  | c :: r => if atBreak (c :: r) then some (c :: r) else if isPlain c then dropComment r else none

/-- Drops blanks and then a comment. -/
def dropTail (cs : List Char) : Option (List Char) :=
  match cs.dropWhile isBlank with
  | '#' :: r => dropComment r
  | r => some r

/-- Drops blanks, comments and line breaks, in at most `fuel` lines. -/
def dropGap : Nat → List Char → Option (List Char)
  | 0, _ => none
  | fuel + 1, cs => (dropTail cs).bind fun r => if atBreak r then dropGap fuel (dropBreak r) else some r

/-! ### Keys -/

def isBareKeyChar (c : Char) : Bool := c.isAlphanum || c == '_' || c == '-'

/-- A part of a key, and what follows it. -/
def keyPart? (fuel : Nat) (cs : List Char) : Option (String × List Char) :=
  match cs with
  | [] => none
  | c :: r =>
    if c = doubleQuote then (basic fuel r).map fun (s, r) => (String.ofList s, r)
    else if c = singleQuote then (literal r).map fun (s, r) => (String.ofList s, r)
    else
      let bare := cs.takeWhile isBareKeyChar
      if bare.isEmpty then none else some (String.ofList bare, cs.dropWhile isBareKeyChar)

/-- A dotted key without the blanks around it, and what follows it. -/
def key? : Nat → List Char → Option (List String × List Char)
  | 0, _ => none
  | fuel + 1, cs =>
    (keyPart? fuel (cs.dropWhile isBlank)).bind fun (k, r) =>
      match r.dropWhile isBlank with
      | '.' :: r => (key? fuel r).map fun (ks, r) => (k :: ks, r)
      | r => some ([k], r)

/-! ### Values -/

/-- Expects a character, and gives what follows it. -/
def expect (c : Char) : List Char → Option (List Char)
  | [] => none
  | d :: r => if d = c then some r else none

mutual

/-- A value, and what follows it. -/
def value? : Nat → List Char → Option (Value × List Char)
  | 0, _ => none
  | fuel + 1, cs =>
    match cs with
    | '[' :: r => (items? fuel r).map fun (vs, r) => (.list vs, r)
    | '\x7b' :: r => (inline? fuel [] r).map fun (ns, r) => (.table (toTable ns), r)
    | c :: _ =>
      if c = doubleQuote ∨ c = singleQuote then (quoted? fuel cs).map fun (s, r) => (.text (String.ofList s), r)
      else (scalar? (scalarText cs).1).map fun v => (v, (scalarText cs).2)
    | [] => none

/-- The values of a list up to its closing bracket. A comma stands behind each, but need not behind the last. -/
def items? : Nat → List Char → Option (List Value × List Char)
  | 0, _ => none
  | fuel + 1, cs => do
    let cs ← dropGap fuel cs
    match cs with
    | ']' :: r => some ([], r)
    | _ =>
      let (v, r) ← value? fuel cs
      match ← dropGap fuel r with
      | ',' :: r => (items? fuel r).map fun (vs, r) => (v :: vs, r)
      | ']' :: r => some ([v], r)
      | _ => none

/-- The bindings of a table in braces up to the closing one, added to those before. -/
def inline? : Nat → Nodes → List Char → Option (Nodes × List Char)
  | 0, _, _ => none
  | fuel + 1, ns, cs => do
    let cs ← dropGap fuel cs
    match cs with
    | '\x7d' :: r => some (ns, r)
    | _ =>
      let (k, r) ← key? fuel cs
      let r ← expect '=' r
      let (v, r) ← value? fuel (r.dropWhile isBlank)
      let ns ← Nodes.bind v k ns
      match ← dropGap fuel r with
      | ',' :: r => inline? fuel ns r
      | '\x7d' :: r => some (ns, r)
      | _ => none

end

/-! ### Statements -/

/-- The statement at the start of a line, and what follows it. -/
def statement? (fuel : Nat) (cs : List Char) : Option (Statement × List Char) :=
  match cs with
  | '[' :: '[' :: r => do
    let (path, r) ← key? fuel r
    some (.tables path, ← expect ']' (← expect ']' r))
  | '[' :: r => do
    let (path, r) ← key? fuel r
    some (.table path, ← expect ']' r)
  | _ => do
    let (k, r) ← key? fuel cs
    let (v, r) ← value? fuel ((← expect '=' r).dropWhile isBlank)
    some (.bind k v, r)

/-- The statements of a text. -/
def statements? : Nat → List Char → Option (List Statement)
  | 0, _ => none
  | fuel + 1, cs => do
    match ← dropTail cs with
    | [] => some []
    | c :: r =>
      if atBreak (c :: r) then statements? fuel (dropBreak (c :: r))
      else
        let (s, r) ← statement? fuel (c :: r)
        match ← dropTail r with
        | [] => some [s]
        | c :: r => if atBreak (c :: r) then (statements? fuel (dropBreak (c :: r))).map (s :: ·) else none

/-- Splits off the last part of a path. -/
def splitLast? (path : List String) : Option (List String × String) := path.getLast?.map fun k => (path.dropLast, k)

/-- The tables that statements build, under the header that is open. -/
def assemble : List String → Nodes → List Statement → Option Nodes
  | _, ns, [] => some ns
  | under, ns, .bind k v :: r => (Nodes.within (Nodes.bind v k) under ns).bind fun ns => assemble under ns r
  | _, ns, .table path :: r =>
    (splitLast? path).bind fun (up, k) => (Nodes.within (Nodes.openTable k) up ns).bind fun ns => assemble path ns r
  | _, ns, .tables path :: r =>
    (splitLast? path).bind fun (up, k) => (Nodes.within (Nodes.appendTable k) up ns).bind fun ns => assemble path ns r

/-- Drops the mark that a text may start with to tell how it is encoded. -/
def dropMark : List Char → List Char
  | '\ufeff' :: r => r
  | cs => cs

/-- Reads a document. -/
def ofText? (text : String) : Option Table :=
  let cs := dropMark text.toList
  ((statements? (2 * cs.length + 2) cs).bind (assemble [] [])).map toTable

end CiWorkflow.Toml
