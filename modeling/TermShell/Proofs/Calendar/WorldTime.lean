import TermShell.Calendar.Instant
import TermShell.Proofs.Calendar.Date

/-!
# The clock of the world

The clock of the world is set forward by calendar years, and keeps the time of day. So it runs
forward from one day to the next as long as dates stay apart that are set forward. Two days fall
together in every leap year: two hundred and fifty years after a leap year there is none, and the
leap day and its eve both become the twenty-eighth of February. At midnight between the two the
clock of the world is set back by a day.

That is the only exception (`worldTime_le_iff`): of two instants the later one is told as an earlier
one exactly if it lies on the leap day, the other on the eve, and the other has the later time of
day.
-/

namespace TermShell.Calendar

/-- Two hundred and fifty years after a leap year there is none. -/
theorem not_isLeap_ahead {year : Int} (h : isLeap year = true) :
    isLeap (year + Instant.yearsAhead) = false := by
  rw [isLeap_iff] at h
  refine Bool.eq_false_iff.mpr fun hahead => ?_
  rw [isLeap_iff, Instant.yearsAhead] at hahead
  omega

namespace Instant

variable {s t : Instant}

/-! ## Days and times of day -/

theorem le_iff : s ≤ t ↔ s.seconds < t.seconds ∨ s.seconds = t.seconds ∧ s.nanos ≤ t.nanos := by
  show s.le t = true ↔ _
  simp [le]

theorem dayNumber_mono (h : s ≤ t) : s.dayNumber ≤ t.dayNumber := by
  rw [le_iff] at h
  simp only [dayNumber, daySeconds]
  omega

theorem secondOfDay_lt (t : Instant) : (t.secondOfDay : Int) < daySeconds := by
  simp only [secondOfDay, daySeconds]
  omega

theorem dayNumber_date (t : Instant) : t.date.dayNumber = t.dayNumber :=
  (Date.ofDayNumber_spec t.dayNumber).2

theorem valid_date (t : Instant) : t.date.Valid := (Date.ofDayNumber_spec t.dayNumber).1

/-- On its own date an instant is itself. -/
theorem onDate_date (t : Instant) : t.onDate t.date = t := by
  obtain ⟨seconds, nanos⟩ := t
  simp only [onDate, dayNumber_date, dayNumber, secondOfDay, daySeconds, Instant.mk.injEq, and_true]
  omega

/-- Whatever the times of day are, the earlier date comes first. -/
theorem onDate_le_of_lt {d e : Date} (h : d.dayNumber < e.dayNumber) (s t : Instant) :
    s.onDate d ≤ t.onDate e := by
  have hend := s.secondOfDay_lt
  rw [le_iff]
  simp only [onDate, daySeconds] at hend ⊢
  omega

/-- Which of two times of day is the later does not depend on the date. -/
theorem onDate_le_onDate_iff (s t : Instant) (d e : Date) :
    s.onDate d ≤ t.onDate d ↔ s.onDate e ≤ t.onDate e := by
  simp only [le_iff, onDate]
  omega

/-- **Instants in order have the same date, or dates in order.** -/
theorem date_cases (h : s ≤ t) : s.date = t.date ∨ s.date.Before t.date := by
  rcases (dayNumber_mono h).eq_or_lt with heq | hlt
  · exact .inl (congrArg Date.ofDayNumber heq)
  · exact .inr (Date.before_ofDayNumber hlt)

/-! ## Two hundred and fifty years ahead -/

theorem worldTime_of_le (h : (t.dateAfter yearsAhead).year ≤ lastYear) :
    t.worldTime = t.onDate (t.dateAfter yearsAhead) := if_pos h

/-- Where the later of two instants can be set forward, so can the earlier. -/
theorem year_dateAfter_le (h : s ≤ t) (years : Nat) :
    (s.dateAfter years).year ≤ (t.dateAfter years).year := by
  have hyears : s.date.year ≤ t.date.year := by
    rcases date_cases h with heq | hlt | ⟨heq, _⟩
    · rw [heq]
    · exact hlt.le
    · exact heq.le
  rw [dateAfter, dateAfter, Date.year_addMonths_years s.valid_date,
    Date.year_addMonths_years t.valid_date]
  exact Int.add_le_add_right hyears _

/-- `t` lies on a leap day and `s` on its eve, at a later time of day. -/
def LaterOnEve (s t : Instant) : Prop :=
  ∃ year, s.date = ⟨year, 2, 28⟩ ∧ t.date = ⟨year, 2, 29⟩ ∧ ¬ s.onDate t.date ≤ t

/-- In the world a leap day and its eve are one day. -/
theorem dateAfter_eq_of_eve {year : Int} (hs : s.date = ⟨year, 2, 28⟩)
    (ht : t.date = ⟨year, 2, 29⟩) :
    s.dateAfter yearsAhead = t.dateAfter yearsAhead := by
  have hvalid := t.valid_date
  rw [ht] at hvalid
  rw [dateAfter, dateAfter, hs, ht]
  exact Date.addMonths_leapDay hvalid (not_isLeap_ahead (Date.isLeap_of_leapDay hvalid))

/--
**The clock of the world runs backwards over the eve of a leap day, and nowhere else.**

Let one instant be no later than another, leap seconds included, and let the time of the world at
the later one be in the range of years that can be told. Then the clock of the world tells them in
this order, unless the later one lies on a leap day and the earlier one on the day before, at a
later time of day; and in that case it does not.
-/
theorem worldTime_le_iff (h : s ≤ t) (hrange : (t.dateAfter yearsAhead).year ≤ lastYear) :
    s.worldTime ≤ t.worldTime ↔ ¬ LaterOnEve s t := by
  rw [worldTime_of_le hrange, worldTime_of_le ((year_dateAfter_le h yearsAhead).trans hrange)]
  -- on the same day of the world the times of day decide, and they can be compared on any date
  have hsame : s.dateAfter yearsAhead = t.dateAfter yearsAhead →
      (s.onDate (s.dateAfter yearsAhead) ≤ t.onDate (t.dateAfter yearsAhead) ↔
        s.onDate t.date ≤ t) := by
    intro heq
    rw [heq, onDate_le_onDate_iff s t _ t.date, onDate_date]
  rcases date_cases h with heq | hbefore
  · refine iff_of_true ((hsame (by rw [dateAfter, dateAfter, heq])).mpr ?_) ?_
    · rwa [← heq, onDate_date]
    · rintro ⟨year, hs, ht, _⟩
      exact absurd (hs.symm.trans (heq.trans ht)) (by simp)
  rcases hbefore.addMonths_years s.valid_date t.valid_date yearsAhead with hahead | ⟨hahead, hdates⟩
  · refine iff_of_true (onDate_le_of_lt (hahead.dayNumber_lt ?_) s t) ?_
    · exact s.valid_date.addMonths_years yearsAhead
    · rintro ⟨year, hs, ht, _⟩
      exact hahead.ne (dateAfter_eq_of_eve hs ht)
  · obtain ⟨year, hs, ht⟩ := hdates
    rw [hsame hahead, LaterOnEve]
    exact ⟨fun hle hlater => hlater.choose_spec.2.2 hle,
      fun hnot => by_contra fun hle => hnot ⟨year, hs, ht, hle⟩⟩

/-- The last second of the eve of a leap day. -/
def lastOfEve : Instant := ⟨1709164799, 0⟩

/-- The midnight behind it. -/
def leapMidnight : Instant := ⟨1709164800, 0⟩

/-- The leap second with which the leap day might end. -/
def leapSecond : Instant := ⟨1709251199, 1500000000⟩

/-- At the end of the leap day, even in a leap second, the clock of the world is again where it was
at the end of the eve. -/
theorem worldTime_le_iff_at_leapSecond :
    lastOfEve ≤ leapSecond ∧ (leapSecond.dateAfter yearsAhead).year ≤ lastYear ∧
      lastOfEve.date = ⟨2024, 2, 28⟩ ∧ leapSecond.date = ⟨2024, 2, 29⟩ ∧
      ¬ LaterOnEve lastOfEve leapSecond ∧ lastOfEve.worldTime ≤ leapSecond.worldTime := by
  have hle : lastOfEve ≤ leapSecond := by decide
  have hrange : (leapSecond.dateAfter yearsAhead).year ≤ lastYear := by decide
  have hnot : ¬ LaterOnEve lastOfEve leapSecond := fun hlater =>
    hlater.choose_spec.2.2 (by decide)
  exact ⟨hle, hrange, by decide, by decide, hnot, (worldTime_le_iff hle hrange).mpr hnot⟩

/-- So it is not true that the clock of the world never runs backwards. -/
theorem worldTime_set_back :
    lastOfEve ≤ leapMidnight ∧ (lastOfEve.dateAfter yearsAhead).year ≤ lastYear ∧
      (leapMidnight.dateAfter yearsAhead).year ≤ lastYear ∧
      ¬ lastOfEve.worldTime ≤ leapMidnight.worldTime := by
  decide

end Instant

end TermShell.Calendar
