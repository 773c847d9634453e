import CiWorkflow.Time.Calendar

/-!
# Instants

Points of time, in nanoseconds from the start of 1970, up to a latest one. What would lie behind the latest one is cut off
there.
-/

namespace CiWorkflow.Time

/-- A point of time, in nanoseconds from the start of 1970. -/
structure Instant where
  nanos : Int
  deriving DecidableEq, Repr, Inhabited

namespace Instant

instance : LT Instant := ⟨fun a b => a.nanos < b.nanos⟩
instance : LE Instant := ⟨fun a b => a.nanos ≤ b.nanos⟩
instance (a b : Instant) : Decidable (a < b) := inferInstanceAs (Decidable (a.nanos < b.nanos))
instance (a b : Instant) : Decidable (a ≤ b) := inferInstanceAs (Decidable (a.nanos ≤ b.nanos))

def nanosPerSecond : Int := 1000000000
def nanosPerMilli : Int := 1000000
def secondsPerDay : Int := 86400

/-- An instant by day and time of day. -/
def ofDate (d : Date) (hour minute second nanos : Int) : Instant :=
  ⟨((d.toDays * secondsPerDay) + hour * 3600 + minute * 60 + second) * nanosPerSecond + nanos⟩

/-- An instant by seconds from the start of 1970, and nanoseconds behind them. -/
def ofSeconds (seconds nanos : Int) : Instant := ⟨seconds * nanosPerSecond + nanos⟩

/-- The latest instant: the last nanosecond of the year 262142. -/
def latest : Instant := ofDate ⟨262142, 12, 31⟩ 23 59 59 999999999

/-- The longest duration that can be added, in seconds: as many as make 63 bits of milliseconds. -/
def longestSeconds : Nat := 9223372036854775

/-- The instant some milliseconds later. -/
def addMillis (t : Instant) (ms : Int) : Instant := ⟨t.nanos + ms * nanosPerMilli⟩

/-- The instant some seconds later, or the latest one where the duration is too long or leads behind it. -/
def after (t : Instant) (seconds : Nat) : Instant :=
  let sum : Instant := ⟨t.nanos + seconds * nanosPerSecond⟩
  if seconds ≤ longestSeconds ∧ sum ≤ latest then sum else latest

/-- Whether `t` lies less than some seconds before `now`. No duration that is too long to be added counts. -/
def isYoungerThan (t now : Instant) (seconds : Nat) : Bool :=
  seconds ≤ longestSeconds && now.nanos - t.nanos < seconds * nanosPerSecond

theorem after_le_latest (t : Instant) (s : Nat) : t.after s ≤ latest := by
  simp only [after]
  split
  · rename_i h; exact h.2
  · exact Int.le_refl _

end Instant

end CiWorkflow.Time
