import TermShell.Calendar.Date

/-!
# Instants

An instant is a second, counted from the beginning of 1970 in universal time, and a
fraction of it in nanoseconds. A fraction of a whole second or more stands for a leap
second, which comes after the second it is counted with and before the next.

The world of the shell lives two hundred and fifty years ahead. Its clock is set forward by
calendar months, so that the month stays, the day stays where the month has it, and the
time of day stays. Where that leads beyond the last year that can be told, the clock is not
set forward.
-/

namespace TermShell.Calendar

/-- A point in time. -/
structure Instant where
  /-- Seconds since the beginning of 1970. -/
  seconds : Int
  /-- Nanoseconds into the second; those of a leap second begin at a whole second. -/
  nanos : Nat
  deriving DecidableEq

namespace Instant

/-- Not later than. -/
def le (s t : Instant) : Bool :=
  s.seconds < t.seconds || (s.seconds == t.seconds && s.nanos ≤ t.nanos)

instance : LE Instant := ⟨fun s t => s.le t = true⟩

instance (s t : Instant) : Decidable (s ≤ t) := inferInstanceAs (Decidable (s.le t = true))

/-- The number of seconds in a day. -/
def daySeconds : Int := 86400

/-- The number of the day. -/
def dayNumber (t : Instant) : Int := t.seconds / daySeconds

/-- The date. -/
def date (t : Instant) : Date := Date.ofDayNumber t.dayNumber

/-- The second of the day. -/
def secondOfDay (t : Instant) : Nat := (t.seconds % daySeconds).toNat

/-- The hour, from 0 to 23. -/
def hour (t : Instant) : Nat := t.secondOfDay / 3600

/-- The minute of the hour. -/
def minute (t : Instant) : Nat := t.secondOfDay / 60 % 60

/-- The second of the minute; a leap second is the sixtieth. -/
def second (t : Instant) : Nat := t.secondOfDay % 60 + t.nanos / 1000000000

/-- The fraction of the second, in nanoseconds. -/
def fraction (t : Instant) : Nat := t.nanos % 1000000000

/-- The same time of day on another date. -/
def onDate (t : Instant) (d : Date) : Instant :=
  ⟨d.dayNumber * daySeconds + t.secondOfDay, t.nanos⟩

/-- The last year that can be told. -/
def lastYear : Int := 262142

/-- How many years the world of the shell is ahead. -/
def yearsAhead : Nat := 250

/-- The date so many years later. -/
def dateAfter (t : Instant) (years : Nat) : Date := t.date.addMonths (12 * years)

/-- The time in the world of the shell. -/
def worldTime (t : Instant) : Instant :=
  let d := t.dateAfter yearsAhead
  if d.year ≤ lastYear then t.onDate d else t

end Instant

end TermShell.Calendar
