/-!
# The Gregorian calendar

Dates of the proleptic Gregorian calendar and their day numbers, counted from
1 January of year 1, which has number 0.  All is closed arithmetic on integers, so
`omega` decides what depends on it.

* `isLeap`, `monthLength?` — the length of years and months;
* `daysBeforeYear`, `daysBeforeMonth` — the days before a year, and before a month in
  its year;
* `Date.dayNumber`, `Date.ofDayNumber` — the two directions;
* `weekdayOf` — the day of the week of a day number, Sunday being 0.

`Date.dayNumber_ofDayNumber` says that the reading of a day number as a date loses
nothing.
-/

namespace CronSchedule

/-! ### Years and months -/

/-- Every fourth year is a leap year, except the centuries that 400 does not divide. -/
def isLeap (year : Int) : Bool :=
  year % 4 = 0 && (year % 100 ≠ 0 || year % 400 = 0)

/-- The number of days of a month, none when there is no such month. -/
def monthLength? (year month : Int) : Option Int :=
  if month < 1 ∨ 12 < month then none
  else if month = 2 then some (if isLeap year then 29 else 28)
  else if month = 4 ∨ month = 6 ∨ month = 9 ∨ month = 11 then some 30
  else some 31

theorem monthLength?_eq_none_iff {year month : Int} :
    monthLength? year month = none ↔ month < 1 ∨ 12 < month := by
  unfold monthLength?
  repeat' split
  all_goals simp_all

/-- The days from 1 January of year 1 to 1 January of the year. -/
def daysBeforeYear (year : Int) : Int :=
  365 * (year - 1) + (year - 1) / 4 - (year - 1) / 100 + (year - 1) / 400

theorem daysBeforeYear_succ (year : Int) :
    daysBeforeYear (year + 1) = daysBeforeYear year + if isLeap year then 366 else 365 := by
  unfold daysBeforeYear isLeap
  split <;> simp at * <;> omega

/-- The days of the year before the first of the month. -/
def daysBeforeMonth (leap : Bool) (month : Int) : Int :=
  (367 * month - 362) / 12 - (if month ≤ 2 then 0 else if leap then 1 else 2)

/-! ### Dates -/

/-- A date by its three numbers. -/
structure Date where
  year : Int
  month : Int
  day : Int
deriving DecidableEq, Repr

namespace Date

/-- The number of the day, 1 January of year 1 being day 0. -/
def dayNumber (d : Date) : Int :=
  daysBeforeYear d.year + daysBeforeMonth (isLeap d.year) d.month + d.day - 1

/-- The year that holds the day of this number: an estimate by the mean length of a
year, which is off by one year at most. -/
def yearOfDay (n : Int) : Int :=
  let estimate := n * 400 / 146097 + 1
  if n < daysBeforeYear estimate then estimate - 1
  else if daysBeforeYear (estimate + 1) ≤ n then estimate + 1
  else estimate

/-- The month that holds the day of this number in its year. -/
def monthOfDay (leap : Bool) (n : Int) : Int :=
  let correction := if n < daysBeforeMonth leap 3 then 0 else if leap then 1 else 2
  (12 * (n + correction) + 373) / 367

/-- The date of the day of this number. -/
def ofDayNumber (n : Int) : Date :=
  let year := yearOfDay n
  let leap := isLeap year
  let dayOfYear := n - daysBeforeYear year
  let month := monthOfDay leap dayOfYear
  ⟨year, month, dayOfYear - daysBeforeMonth leap month + 1⟩

/-- Whether the three numbers are a date of the years 1 to 9999. -/
def isValid (d : Date) : Bool :=
  1 ≤ d.year && d.year ≤ 9999 && 1 ≤ d.day &&
    match monthLength? d.year d.month with
    | some length => d.day ≤ length
    | none => false

theorem dayNumber_ofDayNumber (n : Int) : (ofDayNumber n).dayNumber = n := by
  simp only [ofDayNumber, dayNumber]
  omega

/-- The day lies in the year found for it. -/
theorem yearOfDay_bounds (n : Int) :
    daysBeforeYear (yearOfDay n) ≤ n ∧ n < daysBeforeYear (yearOfDay n + 1) := by
  unfold yearOfDay
  simp only
  unfold daysBeforeYear
  split
  · omega
  · split <;> omega

end Date

/-- The day of the week of a day number, 0 for Sunday to 6 for Saturday. -/
def weekdayOf (dayNumber : Int) : Int := (dayNumber + 1) % 7

end CronSchedule
