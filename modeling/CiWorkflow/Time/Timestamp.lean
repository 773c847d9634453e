import CiWorkflow.Time.Instant

/-!
# Timestamps

The written form of instants: a date, a `T`, a time of day and a `Z`. Fractions of a second have three, six or nine
digits, as few as do, or are left out. Years outside the four digits have a sign.
-/

namespace CiWorkflow.Time

namespace Timestamp

/-- The digits of a number, with zeros in front to make up a width. -/
def padded (width n : Nat) : List Char :=
  let digits := Nat.toDigits 10 n
  List.replicate (width - digits.length) '0' ++ digits

def year (y : Int) : List Char :=
  if 0 ≤ y ∧ y ≤ 9999 then padded 4 y.toNat
  else (if y < 0 then '-' else '+') :: padded 4 y.natAbs

def fraction (nanos : Nat) : List Char :=
  if nanos = 0 then []
  else if nanos % 1000000 = 0 then '.' :: padded 3 (nanos / 1000000)
  else if nanos % 1000 = 0 then '.' :: padded 6 (nanos / 1000)
  else '.' :: padded 9 nanos

/-- Writes an instant. -/
def ofInstant (t : Instant) : String :=
  let seconds := t.nanos / Instant.nanosPerSecond
  let nanos := (t.nanos % Instant.nanosPerSecond).toNat
  let d := Date.ofDays (seconds / Instant.secondsPerDay)
  let s := (seconds % Instant.secondsPerDay).toNat
  String.ofList (year d.year ++ '-' :: padded 2 d.month.toNat ++ '-' :: padded 2 d.day.toNat ++ 'T' ::
    padded 2 (s / 3600) ++ ':' :: padded 2 (s / 60 % 60) ++ ':' :: padded 2 (s % 60) ++ fraction nanos ++ ['Z'])

/-! ### Reading -/

def number? (cs : List Char) : Option Nat :=
  if !cs.isEmpty && cs.all Char.isDigit then some (cs.foldl (fun n c => 10 * n + (c.toNat - 48)) 0) else none

/-- The nanoseconds that the digits behind a point stand for, and what follows the digits. -/
def fraction? : List Char → Option (Nat × List Char)
  | '.' :: r =>
    let digits := r.takeWhile Char.isDigit
    (number? ((digits ++ List.replicate 9 '0').take 9)).bind fun n =>
      if digits.isEmpty then none else some (n, r.dropWhile Char.isDigit)
  | r => some (0, r)

/-- The minutes that a zone lies ahead. -/
def zone? : List Char → Option Int
  | ['Z'] => some 0
  | ['z'] => some 0
  | [sign, a, b, ':', c, d] => do
    let h ← number? [a, b]
    let m ← number? [c, d]
    if sign = '+' then some (h * 60 + m : Nat) else if sign = '-' then some (-(h * 60 + m : Nat)) else none
  | _ => none

/-- Reads an instant of a year with four digits. -/
def toInstant? (text : String) : Option Instant := do
  match text.toList with
  | y1 :: y2 :: y3 :: y4 :: '-' :: o1 :: o2 :: '-' :: d1 :: d2 :: 'T' :: h1 :: h2 :: ':' :: m1 :: m2 :: ':' :: s1 :: s2 :: r =>
    let year ← number? [y1, y2, y3, y4]
    let month ← number? [o1, o2]
    let day ← number? [d1, d2]
    let hour ← number? [h1, h2]
    let minute ← number? [m1, m2]
    let second ← number? [s1, s2]
    let (nanos, r) ← fraction? r
    let ahead ← zone? r
    some ((Instant.ofDate ⟨year, month, day⟩ hour minute second nanos).addMillis (-60000 * ahead))
  | _ => none

end Timestamp

end CiWorkflow.Time
