import TermShell.Calendar.Instant
import TermShell.Text.Number

/-!
# Dates and times in words

Three forms are in use: a date with the names of weekday and month, a time of day on the
twelve-hour clock, and the form of RFC 3339 for records.

A year from 0 to 9999 is written with four digits. Any other year has a sign, and four
digits at least.
-/

namespace TermShell.Calendar

/-- The names of the days of the week, from the day of the week of day number -4. -/
def weekdayNames : List String :=
  ["Sunday", "Monday", "Tuesday", "Wednesday", "Thursday", "Friday", "Saturday"]

/-- The names of the months. -/
def monthNames : List String :=
  ["January", "February", "March", "April", "May", "June", "July", "August", "September",
   "October", "November", "December"]

/-- The day of the week on which a day falls. -/
def weekdayName (dayNumber : Int) : String := weekdayNames.getD ((dayNumber + 4) % 7).toNat ""

/-- The name of a month. -/
def monthName (month : Nat) : String := monthNames.getD (month - 1) ""

/-- A year in digits. -/
def yearText (year : Int) : String :=
  if year < 0 then "-" ++ Text.padded 4 year.natAbs
  else if year ≤ 9999 then Text.padded 4 year.natAbs
  else "+" ++ Text.padded 4 year.natAbs

namespace Instant

/-- The date as in `Thursday, March 5, 2274`. -/
def dateText (t : Instant) : String :=
  let d := t.date
  weekdayName t.dayNumber ++ ", " ++ monthName d.month ++ " " ++ Text.decimal d.day ++ ", " ++
    yearText d.year

/-- The hour on the twelve-hour clock. -/
def clockHour (t : Instant) : Nat := (t.hour + 11) % 12 + 1

/-- The time of day as in `2:07:09 PM`. -/
def timeText (t : Instant) : String :=
  Text.decimal t.clockHour ++ ":" ++ Text.padded 2 t.minute ++ ":" ++ Text.padded 2 t.second ++
    (if t.hour < 12 then " AM" else " PM")

/-- The fraction of the second with the fewest of 0, 3, 6 and 9 digits that give it exactly. -/
def fractionText (t : Instant) : String :=
  if t.fraction = 0 then ""
  else if t.fraction % 1000000 = 0 then "." ++ Text.padded 3 (t.fraction / 1000000)
  else if t.fraction % 1000 = 0 then "." ++ Text.padded 6 (t.fraction / 1000)
  else "." ++ Text.padded 9 t.fraction

/-- The instant in the form of RFC 3339, as in `1970-01-01T00:00:00Z`. -/
def rfc3339 (t : Instant) : String :=
  let d := t.date
  yearText d.year ++ "-" ++ Text.padded 2 d.month ++ "-" ++ Text.padded 2 d.day ++ "T" ++
    Text.padded 2 t.hour ++ ":" ++ Text.padded 2 t.minute ++ ":" ++ Text.padded 2 t.second ++
    t.fractionText ++ "Z"

example : (Instant.mk 1709647629 0).worldTime.dateText = "Thursday, March 5, 2274" := by
  decide +kernel
example : (Instant.mk 1709647629 0).worldTime.timeText = "2:07:09 PM" := by decide +kernel

end Instant

end TermShell.Calendar
