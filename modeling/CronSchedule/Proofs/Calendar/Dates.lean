import CronSchedule.Proofs.Calendar.Reading
import Mathlib.Tactic.IntervalCases

/-!
# From dates to days and back

The years cut the day numbers into consecutive stretches, and so do the months within a year.
A day is therefore found again from the numbers of its date: it lies in one stretch only.

* `Date.yearOfDay_eq`, `Date.monthOfDay_eq` — the year and the month of a day are those whose
  stretch it lies in;
* `Date.Exists` — the numbers of a date are those of a day;
* `Date.ofDayNumber_dayNumber` — the date of the day with the number of a date is that date;
* `WallTime.exists_at`, `WallTime.exists_date` — a clock shows every time of every day of the
  calendar.
-/

namespace CronSchedule

/-! ### Years -/

/-- Later years start later. -/
theorem daysBeforeYear_mono {y z : Int} (h : y ≤ z) : daysBeforeYear y ≤ daysBeforeYear z := by
  unfold daysBeforeYear
  omega

namespace Date

/-- The year of a day is the one whose stretch it lies in. -/
theorem yearOfDay_eq {y n : Int} (hstart : daysBeforeYear y ≤ n)
    (hend : n < daysBeforeYear (y + 1)) : yearOfDay n = y := by
  obtain ⟨hfound, hbehind⟩ := yearOfDay_bounds n
  rcases Int.lt_trichotomy (yearOfDay n) y with hlt | heq | hgt
  · have := daysBeforeYear_mono (show yearOfDay n + 1 ≤ y from hlt)
    omega
  · exact heq
  · have := daysBeforeYear_mono (show y + 1 ≤ yearOfDay n from hgt)
    omega

/-! ### Months -/

/-- Later months start later. -/
theorem daysBeforeMonth_mono {leap : Bool} {m n : Int} (h : m ≤ n) :
    daysBeforeMonth leap m ≤ daysBeforeMonth leap n := by
  unfold daysBeforeMonth
  cases leap <;> simp <;> omega

/-- The month of a day of the year is the one whose stretch it lies in. -/
theorem monthOfDay_eq {leap : Bool} {m k : Int} (hfirst : 1 ≤ m) (hlast : m ≤ 12)
    (hstart : daysBeforeMonth leap m ≤ k) (hend : k < daysBeforeMonth leap (m + 1)) :
    monthOfDay leap k = m := by
  unfold monthOfDay daysBeforeMonth at *
  cases leap <;> simp at * <;> omega

/-- A day of the year lies in the stretch of its month. -/
theorem daysBeforeMonth_monthOfDay {leap : Bool} {k : Int} (hstart : 0 ≤ k)
    (hend : k < if leap then 366 else 365) :
    daysBeforeMonth leap (monthOfDay leap k) ≤ k ∧
      k < daysBeforeMonth leap (monthOfDay leap k + 1) := by
  unfold monthOfDay daysBeforeMonth
  cases leap <;> simp at hend ⊢ <;> omega

end Date

/-- The stretch of a month is as long as the month. -/
theorem monthLength?_eq {y m : Int} (hfirst : 1 ≤ m) (hlast : m ≤ 12) : monthLength? y m =
    some (daysBeforeMonth (isLeap y) (m + 1) - daysBeforeMonth (isLeap y) m) := by
  unfold monthLength?
  generalize isLeap y = leap
  interval_cases m <;> cases leap <;> rfl

/-- A month has 28 to 31 days. -/
theorem monthLength?_bounds {y m length : Int} (h : monthLength? y m = some length) :
    28 ≤ length ∧ length ≤ 31 := by
  unfold monthLength? at h
  split at h
  · cases h
  · split at h
    · cases h
      split <;> omega
    · split at h <;> cases h <;> omega

/-- Months of different years have the same length, but for February. -/
theorem monthLength?_congr {y z m : Int} (h : m = 2 → isLeap y = isLeap z) :
    monthLength? y m = monthLength? z m := by
  unfold monthLength?
  split
  · rfl
  · split
    · rename_i hm
      rw [h hm]
    · rfl

/-- The numbers of a date are those of a day: there is such a month, and it is long enough. -/
structure Date.Exists (d : Date) : Prop where
  month : 1 ≤ d.month ∧ d.month ≤ 12
  day : 1 ≤ d.day
  le_length : ∀ length ∈ monthLength? d.year d.month, d.day ≤ length

namespace Date

variable {d : Date}

/-- A day lies in the stretch of its month. -/
theorem Exists.lt_next (h : d.Exists) :
    daysBeforeMonth (isLeap d.year) d.month + d.day ≤
      daysBeforeMonth (isLeap d.year) (d.month + 1) := by
  have := h.le_length _ (monthLength?_eq h.month.1 h.month.2)
  omega

/-- A day lies in the stretch of its year. -/
theorem Exists.dayNumber_bounds (h : d.Exists) :
    daysBeforeYear d.year ≤ d.dayNumber ∧ d.dayNumber < daysBeforeYear (d.year + 1) := by
  have hday := h.day
  have hnext := h.lt_next
  have hfirst : daysBeforeMonth (isLeap d.year) 1 ≤ daysBeforeMonth (isLeap d.year) d.month :=
    daysBeforeMonth_mono h.month.1
  have hlast : daysBeforeMonth (isLeap d.year) (d.month + 1) ≤ daysBeforeMonth (isLeap d.year) 13 :=
    daysBeforeMonth_mono (by have := h.month.2; omega)
  have hjanuary : daysBeforeMonth (isLeap d.year) 1 = 0 := by cases isLeap d.year <;> rfl
  have hdecember : daysBeforeMonth (isLeap d.year) 13 = if isLeap d.year then 366 else 365 := by
    cases isLeap d.year <;> rfl
  rw [daysBeforeYear_succ, dayNumber]
  constructor <;> omega

/-- The date of the day with the number of a date is that date. -/
theorem ofDayNumber_dayNumber (h : d.Exists) : ofDayNumber d.dayNumber = d := by
  have hday := h.day
  have hnext := h.lt_next
  have hyear : yearOfDay d.dayNumber = d.year :=
    yearOfDay_eq h.dayNumber_bounds.1 h.dayNumber_bounds.2
  -- the day lies in the stretch of its month as well
  have hmonth : monthOfDay (isLeap d.year) (d.dayNumber - daysBeforeYear d.year) = d.month := by
    refine monthOfDay_eq h.month.1 h.month.2 ?_ ?_
    · rw [dayNumber]
      omega
    · rw [dayNumber]
      omega
  have hlast : d.dayNumber - daysBeforeYear d.year - daysBeforeMonth (isLeap d.year) d.month + 1 =
      d.day := by
    rw [dayNumber]
    omega
  simp only [ofDayNumber, hyear, hmonth, hlast]

/-- The date of a day exists. -/
theorem exists_ofDayNumber (n : Int) : (ofDayNumber n).Exists := by
  obtain ⟨hfirst, hlast⟩ := month_ofDayNumber n
  obtain ⟨hstart, hend⟩ := dayOfYear_bounds n
  obtain ⟨hmonth, hnext⟩ := daysBeforeMonth_monthOfDay hstart hend
  refine ⟨⟨hfirst, hlast⟩, ?_, fun length hlength => ?_⟩
  · simp only [ofDayNumber]
    omega
  · rw [monthLength?_eq hfirst hlast] at hlength
    obtain rfl := Option.some.inj hlength
    simp only [ofDayNumber]
    omega

end Date

/-! ### Readings on a date -/

namespace WallTime

/-- At each time of a day of the calendar there is a reading. -/
theorem exists_at {n hour minute second : Int} (hstart : 0 ≤ n) (hend : n < calendarDays)
    (hhour : 0 ≤ hour ∧ hour ≤ 23) (hminute : 0 ≤ minute ∧ minute ≤ 59)
    (hsecond : 0 ≤ second ∧ second ≤ 59) :
    ∃ w : WallTime, w.day = n ∧ w.hour = hour ∧ w.minute = minute ∧ w.second = second := by
  let micros : Int := n * microsPerDay +
    ((hour * 60 + minute) * microsPerMinute + second * microsPerSecond)
  have hbounds : 0 ≤ micros ∧ micros < calendarEnd := by
    simp only [micros, calendarEnd, microsPerDay, microsPerMinute, microsPerSecond,
      calendarDays] at hend ⊢
    omega
  refine ⟨⟨micros, hbounds.1, hbounds.2⟩, ?_, ?_, ?_, ?_⟩
  all_goals
    simp only [WallTime.day, WallTime.hour, WallTime.minute, WallTime.second, microOfDay, micros,
      microsPerDay, microsPerMinute, microsPerSecond]
    omega

/-- On each date of the years 1 to 9999 there is a reading. -/
theorem exists_date {d : Date} (h : d.Exists) (hfirst : 1 ≤ d.year) (hlast : d.year ≤ 9999) :
    ∃ w : WallTime, w.date = d ∧ w.day = d.dayNumber := by
  obtain ⟨hstart, hend⟩ := h.dayNumber_bounds
  have hone := daysBeforeYear_mono hfirst
  have hcalendar := daysBeforeYear_mono (show d.year + 1 ≤ 10000 by omega)
  rw [show daysBeforeYear 1 = 0 from rfl] at hone
  rw [show daysBeforeYear 10000 = calendarDays from rfl] at hcalendar
  have hhour : (0 : Int) ≤ 0 ∧ (0 : Int) ≤ 23 := by decide
  have hminute : (0 : Int) ≤ 0 ∧ (0 : Int) ≤ 59 := by decide
  obtain ⟨w, hday, -⟩ := exists_at (n := d.dayNumber) (by omega) (by omega) hhour hminute hminute
  exact ⟨w, by rw [date, hday, Date.ofDayNumber_dayNumber h], hday⟩

end WallTime

end CronSchedule
