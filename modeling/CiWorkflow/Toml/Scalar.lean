import CiWorkflow.Text.Ascii
import CiWorkflow.Toml.Value

/-!
# TOML scalars without quotes

Booleans, whole numbers, fractions and points of time are told apart by their form.
-/

namespace CiWorkflow.Toml

/-! ### Numbers -/

/-- Digits with underscores between them, without those; `none` where an underscore does not stand between two digits. -/
def digits? (isDigit : Char → Bool) : List Char → Option (List Char)
  | [] => none
  | [c] => if isDigit c then some [c] else none
  | c :: '_' :: r => if isDigit c then (digits? isDigit r).map (c :: ·) else none
  | c :: r => if isDigit c then (digits? isDigit r).map (c :: ·) else none

/-- The value of digits in a base. -/
def valueOf (base : Nat) (digits : List Char) : Nat :=
  digits.foldl (fun n c => base * n + (Text.hexValue? c).getD 0) 0

/-- Digits of which the first is no zero, unless it stands alone. -/
def decimal? (cs : List Char) : Option (List Char) :=
  (digits? Char.isDigit cs).bind fun ds => if ds.head? = some '0' ∧ 1 < ds.length then none else some ds

def isHexDigit (c : Char) : Bool := (Text.hexValue? c).isSome

def isOctalDigit (c : Char) : Bool := '0' ≤ c && c ≤ '7'

def isBinaryDigit (c : Char) : Bool := c == '0' || c == '1'

/-- Drops a sign. -/
def unsigned : List Char → List Char
  | '+' :: r => r
  | '-' :: r => r
  | cs => cs

/-- A whole number. Only decimal ones have a sign. -/
def integer? (cs : List Char) : Option Int :=
  match cs with
  | '0' :: 'x' :: r => (digits? isHexDigit r).map fun ds => (valueOf 16 ds : Int)
  | '0' :: 'o' :: r => (digits? isOctalDigit r).map fun ds => (valueOf 8 ds : Int)
  | '0' :: 'b' :: r => (digits? isBinaryDigit r).map fun ds => (valueOf 2 ds : Int)
  | _ => (decimal? (unsigned cs)).map fun ds => if cs.head? = some '-' then -(valueOf 10 ds : Int) else valueOf 10 ds

def isExponentMark (c : Char) : Bool := c == 'e' || c == 'E'

/-- Whether a text is a fraction: a decimal number with a fractional part, an exponent or both, or a special value. -/
def isFloat (cs : List Char) : Bool :=
  let cs := unsigned cs
  let whole := cs.takeWhile fun c => c != '.' && !isExponentMark c
  let rest := cs.dropWhile fun c => c != '.' && !isExponentMark c
  let exponent (r : List Char) : Bool := (digits? Char.isDigit (unsigned r)).isSome
  cs == "inf".toList || cs == "nan".toList ||
    ((decimal? whole).isSome &&
      match rest with
      | '.' :: r =>
        let part := r.takeWhile fun c => !isExponentMark c
        (digits? Char.isDigit part).isSome &&
          match r.dropWhile fun c => !isExponentMark c with
          | [] => true
          | _ :: e => exponent e
      | _ :: e => exponent e
      | [] => false)

/-! ### Points of time -/

def twoDigits? : List Char → Option Nat
  | [a, b] => if a.isDigit && b.isDigit then some (valueOf 10 [a, b]) else none
  | _ => none

def isLeapYear (y : Nat) : Bool := y % 4 == 0 && (y % 100 != 0 || y % 400 == 0)

def daysIn (year month : Nat) : Nat :=
  if month = 2 then (if isLeapYear year then 29 else 28)
  else if month = 4 ∨ month = 6 ∨ month = 9 ∨ month = 11 then 30
  else 31

/-- Whether ten characters are a day. -/
def isDate (cs : List Char) : Bool :=
  match cs with
  | [y1, y2, y3, y4, '-', m1, m2, '-', d1, d2] =>
    [y1, y2, y3, y4].all Char.isDigit &&
      match twoDigits? [m1, m2], twoDigits? [d1, d2] with
      | some m, some d => 1 ≤ m && m ≤ 12 && 1 ≤ d && d ≤ daysIn (valueOf 10 [y1, y2, y3, y4]) m
      | _, _ => false
  | _ => false

def isBelow (limit : Nat) (a b : Char) : Bool := (twoDigits? [a, b]).any (· < limit)

/-- What follows a time of day. The seconds may be left out. -/
def timeRest? : List Char → Option (List Char)
  | h1 :: h2 :: ':' :: m1 :: m2 :: r =>
    if isBelow 24 h1 h2 && isBelow 60 m1 m2 then
      match r with
      | ':' :: s1 :: s2 :: '.' :: f =>
        if isBelow 61 s1 s2 && f.head?.any Char.isDigit then some (f.dropWhile Char.isDigit) else none
      | ':' :: s1 :: s2 :: r => if isBelow 61 s1 s2 then some r else none
      | ':' :: _ => none
      | r => some r
    else none
  | _ => none

/-- Whether a text says how far a time of day lies from universal time. -/
def isZone : List Char → Bool
  | ['Z'] => true
  | ['z'] => true
  | [sign, h1, h2, ':', m1, m2] => (sign == '+' || sign == '-') && isBelow 24 h1 h2 && isBelow 60 m1 m2
  | _ => false

def isDateMark (c : Char) : Bool := c == 'T' || c == 't' || c == ' '

/-- Whether a text is a day, a time of day, or both, and then perhaps a zone. -/
def isMoment (cs : List Char) : Bool :=
  (timeRest? cs).any List.isEmpty ||
    (isDate (cs.take 10) &&
      match cs.drop 10 with
      | [] => true
      | mark :: r => isDateMark mark && (timeRest? r).any fun rest => rest.isEmpty || isZone rest)

/-! ### Scalars -/

def isScalarChar (c : Char) : Bool := c.isAlphanum || c == '+' || c == '-' || c == '_' || c == '.' || c == ':'

/-- The characters of a scalar, and what follows. A day takes a time of day behind a blank with it. -/
def scalarText (cs : List Char) : List Char × List Char :=
  let first := cs.takeWhile isScalarChar
  let rest := cs.dropWhile isScalarChar
  match rest with
  | ' ' :: d :: r =>
    if isDate first && d.isDigit then (first ++ ' ' :: (d :: r).takeWhile isScalarChar, (d :: r).dropWhile isScalarChar)
    else (first, rest)
  | _ => (first, rest)

/-- The value of a scalar. -/
def scalar? (cs : List Char) : Option Value :=
  if cs = "true".toList then some (.boolean true)
  else if cs = "false".toList then some (.boolean false)
  else
    match integer? cs with
    | some n => some (.integer n)
    | none =>
      if isFloat cs then some (.float (String.ofList cs))
      else if isMoment cs then some (.moment (String.ofList cs))
      else none

end CiWorkflow.Toml
