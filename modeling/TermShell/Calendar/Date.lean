/-!
# Dates

Dates of the Gregorian calendar, carried back and forth without end, and their day numbers.
Day zero is the first of January 1970.

A day number is turned into a date in three steps. The year is estimated from the mean
length of a year, and the estimate, which is off by one at most, is put right. The days
that remain are then counted off month by month.
-/

namespace TermShell.Calendar

/-- A day by year, month and day of the month, the latter two counted from one. -/
structure Date where
  year : Int
  month : Nat
  day : Nat
  deriving DecidableEq

/-- Does the year have a twenty-ninth of February? -/
def isLeap (year : Int) : Bool := year % 4 = 0 && (year % 100 ≠ 0 || year % 400 = 0)

/-- The lengths of the months of a year. -/
def monthLengths (year : Int) : List Nat :=
  [31, if isLeap year then 29 else 28, 31, 30, 31, 30, 31, 31, 30, 31, 30, 31]

/-- The length of a month of a year. -/
def monthLength (year : Int) (month : Nat) : Nat := (monthLengths year).getD (month - 1) 0

/-- How many leap years there are from year one up to and including `year`; for earlier
years, how many lie between, counted negatively. -/
def leapsUpTo (year : Int) : Int := year / 4 - year / 100 + year / 400

/-- The number of the first day of a year. -/
def yearStart (year : Int) : Int :=
  365 * (year - 1970) + (leapsUpTo (year - 1) - leapsUpTo 1969)

/-- The year in which a day lies. -/
def yearOf (day : Int) : Int :=
  let guess := 1970 + day * 400 / 146097
  if day < yearStart guess then guess - 1
  else if yearStart (guess + 1) ≤ day then guess + 1
  else guess

/-- The month and the day of the month, if `rest` days have gone by and the months from
`month` on have the listed lengths. -/
def countOff (month rest : Nat) : List Nat → Nat × Nat
  | [] => (month, rest + 1)
  | length :: lengths => if rest < length then (month, rest + 1)
      else countOff (month + 1) (rest - length) lengths

namespace Date

/-- The month exists, and the day lies in it. -/
structure Valid (d : Date) : Prop where
  /-- The month is one of twelve. -/
  month_mem : 1 ≤ d.month ∧ d.month ≤ 12
  /-- The day is one of the month. -/
  day_mem : 1 ≤ d.day ∧ d.day ≤ monthLength d.year d.month

/-- The number of a date. -/
def dayNumber (d : Date) : Int :=
  let before := ((monthLengths d.year).take (d.month - 1)).foldr (· + ·) 0
  yearStart d.year + (before + (d.day - 1) : Nat)

/-- The date of a day number. -/
def ofDayNumber (day : Int) : Date :=
  let year := yearOf day
  let monthDay := countOff 1 (day - yearStart year).toNat (monthLengths year)
  ⟨year, monthDay.1, monthDay.2⟩

/-- The date so many months later. Where that month is too short for the day, it is the
last of the month. -/
def addMonths (d : Date) (months : Nat) : Date :=
  let month : Int := d.year * 12 + (d.month - 1 : Nat) + months
  let year := month / 12
  let month := (month % 12).toNat + 1
  ⟨year, month, min d.day (monthLength year month)⟩

example : (ofDayNumber 19787) = ⟨2024, 3, 5⟩ := by decide
example : (Date.mk 2024 3 5).dayNumber = 19787 := by decide
example : (ofDayNumber (-719529)) = ⟨-1, 12, 31⟩ := by decide
example : (Date.mk 2024 2 29).addMonths 3000 = ⟨2274, 2, 28⟩ := by decide

end Date

end TermShell.Calendar
