/-!
# Calendar

Days of the Gregorian calendar, carried on in both directions, and their number counted from the first day of 1970. The
count goes by years that start in March, so that a leap day is the last day of its year, and by spans of 400 years, which
all have the same number of days.
-/

namespace CiWorkflow.Time

/-- A day of a year. -/
structure Date where
  year : Int
  month : Int
  day : Int
  deriving DecidableEq, Repr

namespace Date

/-- The days in 400 years. -/
def daysPerEra : Int := 146097

/-- The days from the first of March of the year zero to the first of January 1970. -/
def epochShift : Int := 719468

/-- The number of a day. -/
def toDays (d : Date) : Int :=
  let y := if d.month ≤ 2 then d.year - 1 else d.year
  let era := y / 400
  let yearOfEra := y % 400
  let month := (d.month + 9) % 12
  let dayOfYear := (153 * month + 2) / 5 + d.day - 1
  era * daysPerEra + yearOfEra * 365 + yearOfEra / 4 - yearOfEra / 100 + dayOfYear - epochShift

/-- The day with a number. -/
def ofDays (n : Int) : Date :=
  let z := n + epochShift
  let era := z / daysPerEra
  let dayOfEra := z % daysPerEra
  let yearOfEra := (dayOfEra - dayOfEra / 1460 + dayOfEra / 36524 - dayOfEra / 146096) / 365
  let dayOfYear := dayOfEra - (365 * yearOfEra + yearOfEra / 4 - yearOfEra / 100)
  let month := (5 * dayOfYear + 2) / 153
  { year := era * 400 + yearOfEra + (if month < 10 then 0 else 1)
    month := if month < 10 then month + 3 else month - 9
    day := dayOfYear - (153 * month + 2) / 5 + 1 }

end Date

end CiWorkflow.Time
