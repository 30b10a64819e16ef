import CronSchedule.Calendar.Reading

/-!
# What a clock can show

A clock never shows a month that does not exist, so a field test that asks for the
length of the month has an answer, and all it shows of a date is fixed by the number of
the day.

* `Date.month_ofDayNumber` — the month of a day is one of the twelve;
* `Date.ofDayNumber_inj` — different days have different dates;
* `WallTime.daysInMonth?_reading` — the month of a clock's reading has a length;
* `Reading.SameDate` — two readings that no field of the date tells apart.
-/

namespace CronSchedule

/-! ### Days and dates -/

namespace Date

/-- A day lies within the length of the year found for it. -/
theorem dayOfYear_bounds (n : Int) :
    0 ≤ n - daysBeforeYear (yearOfDay n) ∧
      n - daysBeforeYear (yearOfDay n) < if isLeap (yearOfDay n) then 366 else 365 := by
  obtain ⟨hstart, hend⟩ := yearOfDay_bounds n
  rw [daysBeforeYear_succ] at hend
  omega

theorem monthOfDay_bounds {leap : Bool} {n : Int} (hstart : 0 ≤ n)
    (hend : n < if leap then 366 else 365) :
    1 ≤ monthOfDay leap n ∧ monthOfDay leap n ≤ 12 := by
  unfold monthOfDay daysBeforeMonth
  cases leap <;> simp at hend ⊢ <;> split <;> omega

/-- The month of a day is one of the twelve. -/
theorem month_ofDayNumber (n : Int) :
    1 ≤ (ofDayNumber n).month ∧ (ofDayNumber n).month ≤ 12 := by
  obtain ⟨hstart, hend⟩ := dayOfYear_bounds n
  exact monthOfDay_bounds hstart hend

/-- Different days have different dates. -/
theorem ofDayNumber_inj {m n : Int} : ofDayNumber m = ofDayNumber n ↔ m = n := by
  constructor
  · intro h
    have := congrArg dayNumber h
    rwa [dayNumber_ofDayNumber, dayNumber_ofDayNumber] at this
  · rintro rfl
    rfl

end Date

/-! ### Readings -/

/-- The month that a clock shows has a length. -/
theorem WallTime.daysInMonth?_reading (w : WallTime) (withSeconds : Bool) :
    (w.reading withSeconds).daysInMonth?.isSome := by
  rw [Option.isSome_iff_ne_none]
  intro hnone
  have hmonth := Date.month_ofDayNumber w.day
  rcases monthLength?_eq_none_iff.mp hnone with h | h
  · exact absurd h (by simp only [reading, date]; omega)
  · exact absurd h (by simp only [reading, date]; omega)

/-- Two readings that no field of the date tells apart. -/
structure Reading.SameDate (r s : Reading) : Prop where
  day : r.day = s.day
  month : r.month = s.month
  weekday : r.weekday = s.weekday
  year : r.year = s.year

theorem Reading.SameDate.daysInMonth? {r s : Reading} (h : r.SameDate s) :
    r.daysInMonth? = s.daysInMonth? := by
  rw [Reading.daysInMonth?, Reading.daysInMonth?, h.year, h.month]

/-- Readings on the same day have the same date, whatever the time of day and whether or
not they hold a second. -/
theorem WallTime.sameDate_reading {v w : WallTime} (h : v.day = w.day) (b c : Bool) :
    (v.reading b).SameDate (w.reading c) := by
  constructor <;> simp [reading, date, h]

end CronSchedule
