import CronSchedule.Calendar.Date
import CronSchedule.Text.Numeral

/-!
# Readings of a wall clock

A `WallTime` is what a clock on the wall shows: a date of the years 1 to 9999 and a
time of day, to the microsecond.  It is kept as one number, the microseconds since
midnight of 1 January of year 1, together with the proof that it lies in the
calendar; an operation that could leave the calendar returns an `Option`.

* `WallTime.ofMicros?` — the reading at a number of microseconds;
* `WallTime.day`, `WallTime.microOfDay` — the number of its day and the time of day;
* `WallTime.date`, `hour`, `minute`, `second`, `microsecond` — its parts;
* `WallTime.ofParts?` — the reading with given parts;
* `WallTime.add?` — the reading a span later;
* `WallTime.text` — the written form, `YYYY-MM-DDTHH:MM:SS` with a fraction only when
  there is one.
-/

namespace CronSchedule

/-! ### Spans, in microseconds -/

/-- One second. -/
def microsPerSecond : Int := 1000000

/-- One minute. -/
def microsPerMinute : Int := 60 * microsPerSecond

/-- One day. -/
def microsPerDay : Int := 86400 * microsPerSecond

/-- The number of days of the years 1 to 9999. -/
def calendarDays : Int := 3652059

/-- The first number of microseconds behind the calendar, midnight of year 10000. -/
def calendarEnd : Int := calendarDays * microsPerDay

/-! ### Readings -/

/-- A wall-clock reading of the years 1 to 9999. -/
structure WallTime where
  micros : Int
  nonneg : 0 ≤ micros
  lt_end : micros < calendarEnd
deriving DecidableEq

namespace WallTime

@[ext] theorem ext {a b : WallTime} (h : a.micros = b.micros) : a = b := by
  cases a; cases b; simp_all

/-- The reading at a number of microseconds, none outside the calendar. -/
def ofMicros? (n : Int) : Option WallTime :=
  if h : 0 ≤ n ∧ n < calendarEnd then some ⟨n, h.1, h.2⟩ else none

@[simp] theorem ofMicros?_eq_some_iff {n : Int} {w : WallTime} :
    ofMicros? n = some w ↔ n = w.micros := by
  unfold ofMicros?
  split
  · constructor
    · intro h; injection h with h; rw [← h]
    · intro h; congr 1; exact WallTime.ext h
  · rename_i hn
    constructor
    · intro h; cases h
    · intro h; exact absurd ⟨h ▸ w.nonneg, h ▸ w.lt_end⟩ hn

theorem ofMicros?_eq_none_iff {n : Int} : ofMicros? n = none ↔ n < 0 ∨ calendarEnd ≤ n := by
  unfold ofMicros?
  split <;> simp <;> omega

@[simp] theorem ofMicros?_micros (w : WallTime) : ofMicros? w.micros = some w :=
  ofMicros?_eq_some_iff.mpr rfl

/-- The reading a span later, none outside the calendar. -/
def add? (w : WallTime) (span : Int) : Option WallTime := ofMicros? (w.micros + span)

theorem add?_eq_some_iff {w v : WallTime} {span : Int} :
    w.add? span = some v ↔ v.micros = w.micros + span := by
  rw [add?, ofMicros?_eq_some_iff, eq_comm]

/-! ### Parts -/

/-- The number of the day. -/
def day (w : WallTime) : Int := w.micros / microsPerDay

/-- The time since midnight. -/
def microOfDay (w : WallTime) : Int := w.micros % microsPerDay

def date (w : WallTime) : Date := Date.ofDayNumber w.day

def hour (w : WallTime) : Int := w.microOfDay / (60 * microsPerMinute)

def minute (w : WallTime) : Int := w.microOfDay / microsPerMinute % 60

def second (w : WallTime) : Int := w.microOfDay / microsPerSecond % 60

def microsecond (w : WallTime) : Int := w.micros % microsPerSecond

theorem day_nonneg (w : WallTime) : 0 ≤ w.day := by
  have := w.nonneg
  simp only [day, microsPerDay, microsPerSecond]
  omega

theorem day_lt (w : WallTime) : w.day < calendarDays := by
  have := w.lt_end
  simp only [day, calendarEnd, calendarDays, microsPerDay, microsPerSecond] at *
  omega

/-- The reading with these parts, none when they name no date or no time. -/
def ofParts? (d : Date) (hour minute second microsecond : Int) : Option WallTime :=
  if d.isValid && (0 ≤ hour && hour < 24) && (0 ≤ minute && minute < 60) &&
      (0 ≤ second && second < 60) && (0 ≤ microsecond && microsecond < 1000000) then
    ofMicros? (((d.dayNumber * 24 + hour) * 60 + minute) * microsPerMinute +
      second * microsPerSecond + microsecond)
  else none

/-- Midnight of the day with this number, none outside the calendar. -/
def midnight? (day : Int) : Option WallTime := ofMicros? (day * microsPerDay)

/-- The reading with the part below the second cleared. -/
def truncateSecond (w : WallTime) : WallTime where
  micros := w.micros - w.micros % microsPerSecond
  nonneg := by have := w.nonneg; unfold microsPerSecond; omega
  lt_end := by have := w.nonneg; have := w.lt_end; unfold microsPerSecond; omega

/-- The reading with the part below the minute cleared. -/
def truncateMinute (w : WallTime) : WallTime where
  micros := w.micros - w.micros % microsPerMinute
  nonneg := by have := w.nonneg; unfold microsPerMinute microsPerSecond; omega
  lt_end := by have := w.nonneg; have := w.lt_end; unfold microsPerMinute microsPerSecond; omega

/-! ### Written form -/

/-- The written form of a reading. -/
def text (w : WallTime) : List Char :=
  let d := w.date
  let two (n : Int) := Text.padded 10 2 n.toNat
  let fraction :=
    if w.microsecond = 0 then [] else '.' :: Text.padded 10 6 w.microsecond.toNat
  Text.padded 10 4 d.year.toNat ++ '-' :: two d.month ++ '-' :: two d.day ++
    'T' :: two w.hour ++ ':' :: two w.minute ++ ':' :: two w.second ++ fraction

end WallTime

end CronSchedule
