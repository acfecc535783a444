import Mathlib.Algebra.Order.BigOperators.Group.List
import Mathlib.Data.List.GetD
import Mathlib.Data.Int.Init
import Mathlib.Tactic.IntervalCases
import TermShell.Calendar.Date

/-!
# The order of dates

Dates come in the order of their day numbers (`Before.dayNumber_lt`), and every day number has a
date (`ofDayNumber_spec`). So whoever counts days may think of dates, and the other way round.

To set a date forward by calendar years keeps month and day where the month has the day. That is no
shift by a number of days, and it does not keep two dates apart: the leap day and the day before
it fall together if the year they are set to has no leap day. No other two dates do
(`Before.addMonths_years`).
-/

namespace TermShell.Calendar

/-! ## Years -/

theorem isLeap_iff {year : Int} :
    isLeap year = true ↔ year % 4 = 0 ∧ (year % 100 ≠ 0 ∨ year % 400 = 0) := by
  simp [isLeap]

theorem sum_monthLengths (year : Int) :
    (monthLengths year).sum = if isLeap year then 366 else 365 := by
  unfold monthLengths
  split <;> rfl

theorem leapsUpTo_succ (year : Int) :
    leapsUpTo (year + 1) = leapsUpTo year + if isLeap (year + 1) then 1 else 0 := by
  simp only [leapsUpTo, isLeap_iff]
  split <;> omega

/-- A year begins when the months of the one before have gone by. -/
theorem yearStart_succ (year : Int) :
    yearStart (year + 1) = yearStart year + (monthLengths year).sum := by
  obtain ⟨before, rfl⟩ : ∃ before, year = before + 1 := ⟨year - 1, by omega⟩
  simp only [yearStart, sum_monthLengths, Int.add_sub_cancel, leapsUpTo_succ]
  split <;> push_cast <;> omega

/-- Later years begin later. -/
theorem yearStart_mono {year year' : Int} (h : year ≤ year') :
    yearStart year ≤ yearStart year' := by
  induction year', h using Int.leInduction with
  | base => exact Int.le_refl _
  | succ later _ ih =>
    rw [yearStart_succ]
    omega

/-- The year estimated from the mean length of a year is off by one at most. -/
theorem yearStart_guess (day : Int) :
    yearStart (1970 + day * 400 / 146097 - 1) ≤ day ∧
      day < yearStart (1970 + day * 400 / 146097 + 2) := by
  simp only [yearStart, leapsUpTo]
  omega

/-- **A day lies in the year that is found for it.** -/
theorem yearStart_yearOf (day : Int) :
    yearStart (yearOf day) ≤ day ∧ day < yearStart (yearOf day + 1) := by
  obtain ⟨hlow, hhigh⟩ := yearStart_guess day
  unfold yearOf
  dsimp only
  split
  · rename_i hbefore
    exact ⟨hlow, by rwa [Int.sub_add_cancel]⟩
  · rename_i hbefore
    split
    · rename_i hafter
      exact ⟨hafter, by rwa [Int.add_assoc]⟩
    · rename_i hafter
      exact ⟨Int.not_lt.mp hbefore, Int.not_le.mp hafter⟩

/-! ## Months -/

theorem length_monthLengths (year : Int) : (monthLengths year).length = 12 := rfl

theorem monthLength_succ (year : Int) (k : Nat) :
    monthLength year (k + 1) = (monthLengths year).getD k 0 := rfl

theorem monthLength_two (year : Int) : monthLength year 2 = if isLeap year then 29 else 28 := rfl

/-- All months but the second have the same length in every year. -/
theorem monthLength_of_ne_two {month : Nat} (h : month ≠ 2) (year year' : Int) :
    monthLength year month = monthLength year' month := by
  match month with
  | 0 => rfl
  | 1 => rfl
  | 2 => exact absurd rfl h
  | _ + 3 => rfl

theorem monthLength_pos (year : Int) {month : Nat} (h : 1 ≤ month ∧ month ≤ 12) :
    1 ≤ monthLength year month := by
  by_cases htwo : month = 2
  · rw [htwo, monthLength_two]
    split <;> omega
  · rw [monthLength_of_ne_two htwo year 1]
    obtain ⟨hlow, hhigh⟩ := h
    interval_cases month <;> decide

/-- How many days of a year come before a month. -/
def daysBefore (year : Int) (month : Nat) : Nat := ((monthLengths year).take (month - 1)).sum

theorem daysBefore_succ (year : Int) {month : Nat} (h : 1 ≤ month ∧ month ≤ 12) :
    daysBefore year (month + 1) = daysBefore year month + monthLength year month := by
  obtain ⟨k, rfl⟩ : ∃ k, month = k + 1 := ⟨month - 1, by omega⟩
  have hk : k < (monthLengths year).length := by
    rw [length_monthLengths]
    omega
  simp only [daysBefore, Nat.add_sub_cancel, monthLength_succ]
  rw [List.sum_take_succ _ _ hk, List.getD_eq_getElem _ _ hk]

theorem daysBefore_mono (year : Int) {month month' : Nat} (h : month ≤ month') :
    daysBefore year month ≤ daysBefore year month' := by
  have hprefix := List.take_prefix_take_left (l := monthLengths year) (Nat.sub_le_sub_right h 1)
  exact hprefix.sublist.sum_le_sum fun _ _ => Nat.zero_le _

theorem daysBefore_le_sum (year : Int) (month : Nat) :
    daysBefore year month ≤ (monthLengths year).sum :=
  (List.take_sublist _ _).sum_le_sum fun _ _ => Nat.zero_le _

/-- **Counting off ends in a month that is long enough**, with the days that its predecessors
leave. -/
theorem countOff_eq {lengths : List Nat} {rest : Nat} (h : rest < lengths.sum) (month : Nat) :
    ∃ k r, countOff month rest lengths = (month + k, r + 1) ∧ k < lengths.length ∧
      r < lengths.getD k 0 ∧ (lengths.take k).sum + r = rest := by
  induction lengths generalizing rest month with
  | nil => exact absurd h (Nat.not_lt_zero _)
  | cons length lengths ih =>
    unfold countOff
    by_cases hhere : rest < length
    · exact ⟨0, rest, by rw [if_pos hhere]; rfl, by simp, hhere, by simp⟩
    · rw [List.sum_cons] at h
      have hrest : rest - length < lengths.sum := by omega
      obtain ⟨k, r, hcount, hk, hr, hsum⟩ := ih hrest (month + 1)
      refine ⟨k + 1, r, ?_, by simpa using hk, hr, ?_⟩
      · rw [if_neg hhere, hcount, Nat.add_assoc, Nat.add_comm 1 k]
      · rw [List.take_succ_cons, List.sum_cons]
        omega

namespace Date

variable {d e : Date}

/-! ## Dates and their numbers -/

/-- The one date is earlier than the other. -/
def Before (d e : Date) : Prop :=
  d.year < e.year ∨ d.year = e.year ∧ (d.month < e.month ∨ d.month = e.month ∧ d.day < e.day)

theorem Before.ne (h : d.Before e) : d ≠ e := by
  rintro rfl
  simp only [Before] at h
  omega

theorem before_trichotomy (d e : Date) : d.Before e ∨ d = e ∨ e.Before d := by
  obtain ⟨year, month, day⟩ := d
  obtain ⟨year', month', day'⟩ := e
  simp only [Before, Date.mk.injEq]
  omega

theorem dayNumber_eq (d : Date) :
    d.dayNumber = yearStart d.year + (daysBefore d.year d.month + (d.day - 1) : Nat) := rfl

/-- A date comes before the next month begins. -/
theorem Valid.lt_daysBefore (hd : d.Valid) :
    daysBefore d.year d.month + (d.day - 1) < daysBefore d.year (d.month + 1) := by
  obtain ⟨hmonth, hday⟩ := hd
  rw [daysBefore_succ _ hmonth]
  omega

/-- **An earlier date has a smaller number.** -/
theorem Before.dayNumber_lt (h : d.Before e) (hd : d.Valid) : d.dayNumber < e.dayNumber := by
  have hnext := hd.lt_daysBefore
  rw [dayNumber_eq, dayNumber_eq]
  rcases h with hyear | ⟨hyear, hmonth | ⟨hmonth, hday⟩⟩
  · -- the year of `d` is over before that of `e` begins
    have hlast := daysBefore_le_sum d.year (d.month + 1)
    have hstart : yearStart (d.year + 1) ≤ yearStart e.year := yearStart_mono hyear
    rw [yearStart_succ] at hstart
    omega
  · have hstart : daysBefore e.year (d.month + 1) ≤ daysBefore e.year e.month :=
      daysBefore_mono e.year hmonth
    rw [hyear] at hnext ⊢
    omega
  · have hfirst := hd.day_mem.1
    rw [hyear, hmonth]
    omega

/-- **A day number has a date**, and the date has that number. -/
theorem ofDayNumber_spec (day : Int) :
    (ofDayNumber day).Valid ∧ (ofDayNumber day).dayNumber = day := by
  obtain ⟨hstart, hend⟩ := yearStart_yearOf day
  rw [yearStart_succ] at hend
  have hrest : (day - yearStart (yearOf day)).toNat < (monthLengths (yearOf day)).sum := by omega
  obtain ⟨k, r, hcount, hk, hr, hsum⟩ := countOff_eq hrest 1
  have hdate : ofDayNumber day = ⟨yearOf day, k + 1, r + 1⟩ := by
    simp only [ofDayNumber, hcount, Nat.add_comm 1 k]
  rw [hdate]
  refine ⟨⟨⟨Nat.le_add_left 1 k, hk⟩, Nat.le_add_left 1 r, hr⟩, ?_⟩
  simp only [dayNumber_eq, daysBefore, Nat.add_sub_cancel, hsum]
  omega

/-- **Days that come later have later dates.** -/
theorem before_ofDayNumber {m n : Int} (h : m < n) : (ofDayNumber m).Before (ofDayNumber n) := by
  have hm := (ofDayNumber_spec m).2
  obtain ⟨hnvalid, hn⟩ := ofDayNumber_spec n
  rcases before_trichotomy (ofDayNumber m) (ofDayNumber n) with hbefore | heq | hafter
  · exact hbefore
  · rw [heq, hn] at hm
    omega
  · have hlt := hafter.dayNumber_lt hnvalid
    omega

/-! ## Setting a date forward -/

/-- By years, the month stays, and the day stays where the month has it. -/
theorem addMonths_years (hd : d.Valid) (years : Nat) :
    d.addMonths (12 * years) =
      ⟨d.year + years, d.month, min d.day (monthLength (d.year + years) d.month)⟩ := by
  have hmonth := hd.month_mem
  have hyear : (d.year * 12 + (d.month - 1 : Nat) + (12 * years : Nat)) / 12 = d.year + years := by
    omega
  have hrest :
      ((d.year * 12 + (d.month - 1 : Nat) + (12 * years : Nat)) % 12).toNat + 1 = d.month := by
    omega
  simp only [addMonths, hyear, hrest]

theorem year_addMonths_years (hd : d.Valid) (years : Nat) :
    (d.addMonths (12 * years)).year = d.year + years := by
  rw [addMonths_years hd]

theorem Valid.addMonths_years (hd : d.Valid) (years : Nat) :
    (d.addMonths (12 * years)).Valid := by
  rw [Date.addMonths_years hd]
  exact ⟨hd.month_mem, le_min hd.day_mem.1 (monthLength_pos _ hd.month_mem), Nat.min_le_right _ _⟩

/-- **Dates that are set forward stay in order**, and stay apart unless they are a leap day and the
day before it. -/
theorem Before.addMonths_years (h : d.Before e) (hd : d.Valid) (he : e.Valid) (years : Nat) :
    (d.addMonths (12 * years)).Before (e.addMonths (12 * years)) ∨
      d.addMonths (12 * years) = e.addMonths (12 * years) ∧
        ∃ year, d = ⟨year, 2, 28⟩ ∧ e = ⟨year, 2, 29⟩ := by
  rw [Date.addMonths_years hd, Date.addMonths_years he]
  obtain ⟨year, month, day⟩ := d
  obtain ⟨year', month', day'⟩ := e
  rcases h with hyear | ⟨rfl, hmonth | ⟨rfl, hday⟩⟩
  · exact .inl (.inl (Int.add_lt_add_right hyear _))
  · exact .inl (.inr ⟨rfl, .inl hmonth⟩)
  · have hlast : day' ≤ monthLength year month := he.day_mem.2
    dsimp only at hday ⊢
    by_cases hfits : day < monthLength (year + years) month
    · exact .inl (.inr ⟨rfl, .inr ⟨rfl, by simp only; omega⟩⟩)
    · -- the month is shorter in the later year, so it is the second one
      have htwo : month = 2 := by
        by_contra hne
        rw [monthLength_of_ne_two hne _ year] at hfits
        omega
      subst htwo
      rw [monthLength_two] at hlast hfits ⊢
      refine .inr ⟨by rw [min_eq_right (by omega), min_eq_right (by omega)], year, ?_⟩
      simp only [Date.mk.injEq, true_and]
      split at hlast <;> split at hfits <;> omega

theorem isLeap_of_leapDay {year : Int} (h : (Date.mk year 2 29).Valid) : isLeap year = true := by
  have hlast : 29 ≤ monthLength year 2 := h.day_mem.2
  rw [monthLength_two] at hlast
  by_contra hnot
  rw [if_neg hnot] at hlast
  omega

/-- A leap day that is set to a year without one falls on the day before. -/
theorem addMonths_leapDay {year : Int} (h : (Date.mk year 2 29).Valid) {years : Nat}
    (hyears : isLeap (year + years) = false) :
    (Date.mk year 2 28).addMonths (12 * years) = (Date.mk year 2 29).addMonths (12 * years) := by
  have heve : (Date.mk year 2 28).Valid :=
    ⟨h.month_mem, by simp only; omega, Nat.le_of_succ_le h.day_mem.2⟩
  rw [addMonths_years heve, addMonths_years h]
  simp only [monthLength_two, hyears]
  rfl

end Date

end TermShell.Calendar
