import CiWorkflow.Yaml.Graph

/-!
# Values

What the first document of a text says, and when it says nothing: an alias may stand only behind its anchor, no mapping may
bind a key twice, a tag must fit its scalar, and collections may not be nested more than 128 deep.
-/

namespace CiWorkflow.Yaml

/-- The values of YAML documents. -/
inductive Value where
  | null
  | bool (b : Bool)
  | int (n : Int)
  | real (x : Float)
  | string (s : String)
  | sequence (items : List Value)
  | mapping (entries : List (Value × Value))
  | tagged (tag : String) (v : Value)
  deriving Inhabited

namespace Value

mutual

/-- Equality of values. The order of a mapping's entries does not count. -/
def same : Value → Value → Bool
  | .null, .null => true
  | .bool a, .bool b => a == b
  | .int a, .int b => a == b
  | .real a, .real b => a == b || (a.isNaN && b.isNaN)
  | .string a, .string b => a == b
  | .sequence l, .sequence m => sameItems l m
  | .mapping l, .mapping m => l.length == m.length && sameEntries l m
  | .tagged s a, .tagged t b => s == t && same a b
  | _, _ => false

def sameItems : List Value → List Value → Bool
  | [], [] => true
  | a :: l, b :: m => same a b && sameItems l m
  | _, _ => false

/-- Whether all entries of `l` are entries of `m`. -/
def sameEntries : List (Value × Value) → List (Value × Value) → Bool
  | [], _ => true
  | (k, v) :: l, m => (m.any fun e => same k e.1 && same v e.2) && sameEntries l m

end

/-- Whether a value is a mapping, apart from its tags. -/
def isMapping : Value → Bool
  | .mapping _ => true
  | .tagged _ v => v.isMapping
  | _ => false

/-! ### Plain scalars -/

/-- A number in a base, written in digits alone. -/
def digits? (base : Nat) (s : List Char) : Option Nat :=
  if s.isEmpty then none
  else
    s.foldl (fun acc c => acc.bind fun n =>
      (Text.hexValue? c).bind fun d => if d < base then some (n * base + d) else none) (some 0)

/-- The digits behind a base's lead, such as `0x`. -/
def basedDigits? : List Char → Option Nat
  | '0' :: 'x' :: r => digits? 16 r
  | '0' :: 'o' :: r => digits? 8 r
  | '0' :: 'b' :: r => digits? 2 r
  | _ => none

/-- Whether a scalar starts with a zero that makes it no number. -/
def isPadded (s : List Char) : Bool :=
  let r := match s with
    | '-' :: r => r
    | '+' :: r => r
    | r => r
  1 < r.length && r.head? == some '0' && r.all Char.isDigit

/-- The integer that a scalar writes. -/
def integer? (s : List Char) : Option Int :=
  let natural (r : List Char) : Option Nat :=
    (basedDigits? r).orElse fun _ => if isPadded s then none else digits? 10 r
  match s with
  | '-' :: r => (natural r).map fun n => -(n : Int)
  | '+' :: r => (natural r).map Int.ofNat
  | r => (natural r).map Int.ofNat

/-- The finite number with these decimal digits times a power of ten, rounded. -/
def decimal? (negative : Bool) (mantissa : Nat) (exponent : Int) (width : Nat) : Option Float :=
  let sign (x : Float) := if negative then -x else x
  if mantissa = 0 ∨ width + exponent < -400 then some (sign 0.0)
  else if 400 < width + exponent then none
  else
    let x := Float.ofScientific mantissa (exponent < 0) exponent.natAbs
    if x.isFinite then some (sign x) else none

/-- The floating-point number that a scalar writes: digits with a point and an exponent, or a special value. -/
def real? (s : List Char) : Option Float :=
  let text := String.ofList s
  let bare := match s with
    | '+' :: r => r
    | r => r
  if [".inf", ".Inf", ".INF", "+.inf", "+.Inf", "+.INF"].contains text then some (1.0 / 0.0)
  else if ["-.inf", "-.Inf", "-.INF"].contains text then some (-1.0 / 0.0)
  else if [".nan", ".NaN", ".NAN"].contains text then some (0.0 / 0.0)
  else
    let (negative, r) := match bare with
      | '-' :: r => (true, r)
      | r => (false, r)
    let signed := s.head? == some '+' && ['+', '-'].contains (bare.headD '0')
    let whole := r.takeWhile Char.isDigit
    let r := r.dropWhile Char.isDigit
    let (fraction, r) := match r with
      | '.' :: r => (r.takeWhile Char.isDigit, r.dropWhile Char.isDigit)
      | r => ([], r)
    let exponent : Option Int := match r with
      | [] => some 0
      | e :: r =>
        if e ≠ 'e' ∧ e ≠ 'E' then none
        else match r with
          | '-' :: r => (digits? 10 r).map fun n => -(n : Int)
          | '+' :: r => (digits? 10 r).map Int.ofNat
          | r => (digits? 10 r).map Int.ofNat
    let ds := whole ++ fraction
    if signed || ds.isEmpty then none
    else
      match exponent, digits? 10 ds with
      | some e, some m => decimal? negative m (e - fraction.length) ds.length
      | _, _ => none

def null? (s : List Char) : Bool := ["null", "Null", "NULL", "~"].contains (String.ofList s)

def bool? (s : List Char) : Option Bool :=
  if ["true", "True", "TRUE"].contains (String.ofList s) then some true
  else if ["false", "False", "FALSE"].contains (String.ofList s) then some false
  else none

/-- The integers that are values: those of 64 bits, with or without sign. -/
def isWord (n : Int) : Bool := -9223372036854775808 ≤ n && n < 18446744073709551616

/-- The integers that are refused: those of 128 bits that are no values. Greater ones are floating-point numbers. -/
def isDoubleWord (n : Int) : Bool :=
  -170141183460469231731687303715884105728 ≤ n && n < 340282366920938463463374607431768211456

/-- The value of a plain scalar. -/
def ofPlain? (s : List Char) : Option Value :=
  if s.isEmpty || null? s then some .null
  else
    match bool? s with
    | some b => some (.bool b)
    | none =>
      let other : Value :=
        if isPadded s then .string (String.ofList s)
        else ((real? s).map Value.real).getD (.string (String.ofList s))
      match integer? s with
      | some n => if isWord n then some (.int n) else if isDoubleWord n then none else some other
      | none => some other

/-- The value of a scalar with this tag, where the tag does not name a type of its own. -/
def ofScalar? (tag : Option String) (plain : Bool) (text : String) : Option Value :=
  let s := text.toList
  match tag with
  | some "tag:yaml.org,2002:bool" => (bool? s).map .bool
  | some "tag:yaml.org,2002:int" => (integer? s).bind fun n => if isWord n then some (.int n) else none
  | some "tag:yaml.org,2002:float" => (real? s).map .real
  | some "tag:yaml.org,2002:null" => if null? s then some .null else none
  | some _ => some (.string text)
  | none => if plain then ofPlain? s else some (.string text)

end Value

/-! ### Aliases -/

namespace Graph

variable {ν : Type}

mutual

/-- The number of events of a node: one for a scalar or an alias, and two for a collection besides its parts. -/
def events : Graph ν → Nat
  | .aliasOf _ => 1
  | .scalar .. => 1
  | .sequence _ _ items => eventsOf items + 2
  | .mapping _ _ entries => eventsOfPairs entries + 2

def eventsOf : List (Graph ν) → Nat
  | [] => 0
  | g :: gs => events g + eventsOf gs

def eventsOfPairs : List (Graph ν × Graph ν) → Nat
  | [] => 0
  | (k, v) :: es => events k + events v + eventsOfPairs es

end

/-- The numbers of the anchors so far, by name. -/
abbrev Numbers := List (String × Nat)

/-- The number of an anchor, and the numbers with it. A name that is used again takes the count of all names as its number,
be that taken or not. -/
def Numbers.add (m : Numbers) : Option String → Option Nat × Numbers
  | none => (none, m)
  | some n => (some m.length, (n, m.length) :: m.filter (·.1 != n))

mutual

/-- Gives anchors and aliases numbers, in the order of the document; `none` where an alias stands before its anchor. -/
def link : Graph String → Numbers → Option (Graph Nat × Numbers)
  | .aliasOf n, m => (m.lookup n).map fun i => (.aliasOf i, m)
  | .scalar anchor tag plain text, m =>
    let (i, m) := m.add anchor
    some (.scalar i tag plain text, m)
  | .sequence anchor tag items, m =>
    let (i, m) := m.add anchor
    (linkAll items m).map fun (gs, m) => (.sequence i tag gs, m)
  | .mapping anchor tag entries, m =>
    let (i, m) := m.add anchor
    (linkPairs entries m).map fun (es, m) => (.mapping i tag es, m)

def linkAll : List (Graph String) → Numbers → Option (List (Graph Nat) × Numbers)
  | [], m => some ([], m)
  | g :: gs, m =>
    match link g m with
    | none => none
    | some (g, m) => (linkAll gs m).map fun (gs, m) => (g :: gs, m)

def linkPairs : List (Graph String × Graph String) → Numbers → Option (List (Graph Nat × Graph Nat) × Numbers)
  | [], m => some ([], m)
  | (k, v) :: es, m =>
    match link k m with
    | none => none
    | some (k, m) =>
      match link v m with
      | none => none
      | some (v, m) => (linkPairs es m).map fun (es, m) => ((k, v) :: es, m)

end

mutual

/-- The anchored nodes by number, last ones first. -/
def anchored : Graph Nat → List (Nat × Graph Nat) → List (Nat × Graph Nat)
  | .aliasOf _, acc => acc
  | g@(.scalar anchor _ _ _), acc => (anchor.map fun i => (i, g)).toList ++ acc
  | g@(.sequence anchor _ items), acc => anchoredIn items ((anchor.map fun i => (i, g)).toList ++ acc)
  | g@(.mapping anchor _ entries), acc => anchoredInPairs entries ((anchor.map fun i => (i, g)).toList ++ acc)

def anchoredIn : List (Graph Nat) → List (Nat × Graph Nat) → List (Nat × Graph Nat)
  | [], acc => acc
  | g :: gs, acc => anchoredIn gs (anchored g acc)

def anchoredInPairs : List (Graph Nat × Graph Nat) → List (Nat × Graph Nat) → List (Nat × Graph Nat)
  | [], acc => acc
  | (k, v) :: es, acc => anchoredInPairs es (anchored v (anchored k acc))

end

end Graph

/-! ### Documents -/

namespace Value

/-- A document whose aliases are resolved by number, and how often they may be. -/
structure Linked where
  nodes : List (Nat × Graph Nat)
  limit : Nat

/-- The tag that makes a value a tagged one: a tag of the document itself, without its `!`. -/
def ownTag? (tag : Option String) : Option String :=
  tag.bind fun t =>
    match t.toList with
    | '!' :: r => some (if r.isEmpty then t else String.ofList r)
    | _ => none

mutual

/-- The value of a node, with the count of alias uses. `depth` is how many more collections may be nested; `stripped` tells
whether the node's own tag is taken off already. The first argument is fuel. -/
def ofNode (l : Linked) : Nat → Nat → Bool → Graph Nat → Nat → Option (Value × Nat)
  | 0, _, _, _, _ => none
  | fuel + 1, depth, stripped, g, uses =>
    let own (tag : Option String) : Option String := if stripped then none else ownTag? tag
    let wrap (t : String) : Option (Value × Nat) :=
      (ofNode l fuel depth true g uses).map fun (v, n) => (.tagged t v, n)
    match g with
    | .aliasOf i =>
      if l.limit < uses + 1 then none
      else
        match l.nodes.lookup i with
        | none => none
        | some target => ofNode l fuel depth false target (uses + 1)
    | .scalar _ tag plain text =>
      match own tag with
      | some t => wrap t
      | none => (ofScalar? (if stripped then none else tag) plain text).map (·, uses)
    | .sequence _ tag items =>
      match own tag with
      | some t => wrap t
      | none =>
        if depth = 0 then none
        else (ofItems l fuel (depth - 1) items uses).map fun (vs, n) => (.sequence vs, n)
    | .mapping _ tag entries =>
      match own tag with
      | some t => wrap t
      | none =>
        if depth = 0 then none
        else (ofEntries l fuel (depth - 1) entries [] uses).map fun (es, n) => (.mapping es, n)
termination_by fuel => (fuel, 0)

def ofItems (l : Linked) (fuel depth : Nat) : List (Graph Nat) → Nat → Option (List Value × Nat)
  | [], uses => some ([], uses)
  | g :: gs, uses =>
    match ofNode l fuel depth false g uses with
    | none => none
    | some (v, n) => (ofItems l fuel depth gs n).map fun (vs, n) => (v :: vs, n)
termination_by gs => (fuel, gs.length + 1)

def ofEntries (l : Linked) (fuel depth : Nat) : List (Graph Nat × Graph Nat) → List (Value × Value) → Nat →
    Option (List (Value × Value) × Nat)
  | [], acc, uses => some (acc.reverse, uses)
  | (k, v) :: es, acc, uses =>
    match ofNode l fuel depth false k uses with
    | none => none
    | some (key, n) =>
      if acc.any fun e => e.1.same key then none
      else
        match ofNode l fuel depth false v n with
        | none => none
        | some (value, n) => ofEntries l fuel depth es ((key, value) :: acc) n
termination_by es => (fuel, es.length + 1)

end

/-- The greatest depth of nested collections. -/
def depthLimit : Nat := 128

/-- The value of a document. -/
def ofGraph? (g : Graph String) : Option Value :=
  (g.link []).bind fun (g, _) =>
    (ofNode ⟨g.anchored [], g.events * 100⟩ (4 * depthLimit + 8) depthLimit false g 0).map Prod.fst

/-- The value of the first document of a text: `none` where the text is refused, and null where it has no document. -/
def ofText? (s : List Char) : Option Value :=
  match Graph.ofText? s with
  | none => none
  | some none => some .null
  | some (some g) => ofGraph? g

end Value

end CiWorkflow.Yaml
