import CronSchedule.Calendar.WallTime

/-!
# Calendar readings

A `Reading` is what fields are compared with: an instant taken apart into the numbers
that an expression can name.  A reading is plain data and need not come from a clock;
`WallTime.reading` is the one that does.
-/

namespace CronSchedule

/-- An instant taken apart.  The weekday counts from Sunday, which is 0; the second is
absent when seconds are not compared. -/
structure Reading where
  second : Option Int
  minute : Int
  hour : Int
  day : Int
  month : Int
  weekday : Int
  year : Int
deriving DecidableEq, Repr

/-- The length of the reading's month, none when it names no month. -/
def Reading.daysInMonth? (r : Reading) : Option Int := monthLength? r.year r.month

/-- What a clock shows, taken apart. -/
def WallTime.reading (w : WallTime) (withSeconds : Bool) : Reading :=
  let d := w.date
  { second := if withSeconds then some w.second else none
    minute := w.minute
    hour := w.hour
    day := d.day
    month := d.month
    weekday := weekdayOf w.day
    year := d.year }

end CronSchedule
