import CiWorkflow.Toml.Scalar

/-!
# Ranges of TOML numbers

A document may hold numbers of any size, but a value that is looked at must not: whole numbers have 128 bits, and fractions
lie below the bound at which a double-precision number is rounded to infinity.
-/

namespace CiWorkflow.Toml

/-- The least whole number. -/
def leastInteger : Int := -170141183460469231731687303715884105728

/-- The whole numbers lie below this. -/
def integerLimit : Int := 340282366920938463463374607431768211456

/-- The fractions lie below this: halfway from the greatest double-precision number to the power of two behind it. -/
def floatLimit : Nat := Nat.pow 2 1024 - Nat.pow 2 970

/-- The number of decimal digits of `floatLimit`. -/
def floatLimitDigits : Int := 309

/-- Whether `mantissa` times ten to the power of `exponent` lies below the bound for fractions. -/
def isBelowFloatLimit (mantissa : Nat) (exponent : Int) : Bool :=
  let places := (Nat.toDigits 10 mantissa).length + exponent
  mantissa == 0 || places < floatLimitDigits ||
    (places == floatLimitDigits &&
      if 0 ≤ exponent then mantissa * Nat.pow 10 exponent.toNat < floatLimit
      else mantissa < floatLimit * Nat.pow 10 (-exponent).toNat)

/-- The value of the decimal digits among some characters. -/
def digitsValue (cs : List Char) : Nat :=
  (cs.filter Char.isDigit).foldl (fun n c => 10 * n + (c.toNat - 48)) 0

/-- Whether a fraction, as it is written, is infinite, no number, or small enough. -/
def isFloatInRange (written : List Char) : Bool :=
  let number := written.takeWhile fun c => !isExponentMark c
  let power := (written.dropWhile fun c => !isExponentMark c).drop 1
  let exponent : Int := if power.head? = some '-' then -(digitsValue power : Int) else digitsValue power
  let places := ((number.dropWhile (· != '.')).filter Char.isDigit).length
  number.contains 'n' || isBelowFloatLimit (digitsValue number) (exponent - places)

mutual

/-- Whether all numbers of a value are small enough. -/
def Value.isInRange : Value → Bool
  | .integer n => leastInteger ≤ n && n < integerLimit
  | .float written => isFloatInRange written.toList
  | .list vs => areInRange vs
  | .table es => entriesAreInRange es
  | _ => true

def areInRange : List Value → Bool
  | [] => true
  | v :: r => v.isInRange && areInRange r

def entriesAreInRange : List (String × Value) → Bool
  | [] => true
  | (_, v) :: r => v.isInRange && entriesAreInRange r

end

end CiWorkflow.Toml
