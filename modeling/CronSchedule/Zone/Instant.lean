import CronSchedule.Decimal.Binary64
import CronSchedule.Fault
import CronSchedule.Zone.DateTime

/-!
# Instants

A call takes an instant as a date and time, as a number of seconds since 1970, whole
or fractional, or finds a value of another kind in its place.

* `Instant.kind` — the word messages use for the kind of value;
* `DateTime.ofTimestamp` — the reading at a number of seconds since 1970.
-/

namespace CronSchedule

open Decimal (Binary64)

/-- What a call is given for an instant. -/
inductive Instant where
  | dateTime (d : DateTime)
  | timestamp (seconds : Int)
  | fractional (seconds : Binary64)
  | other (kind : String)

/-- The word for the kind of value. -/
def Instant.kind : Instant → String
  | dateTime _ => "datetime"
  | timestamp _ => "int"
  | fractional _ => "float"
  | other kind => kind

namespace DateTime

/-- The end of the numbers of seconds that timestamps hold, on either side of zero. -/
def timestampEnd : Int := 9223372036854775808

/-- The first and the last number of seconds in a year that the clock can count.  It counts
years from 1900 on in 32 bits. -/
def clockRange : Int × Int := (-67768040609740800, 67768036191676799)

/-- The reading at a number of microseconds since 1970, on the clock of a zone, or on
the local clock, which shows UTC and gives a naive reading.  On the local clock the
reading one day earlier has to exist too, since it is looked at for a repeated hour. -/
def ofUnixMicros (zone : Option TimeZone) (micros : Int) : Except Fault DateTime :=
  let seconds := micros / microsPerSecond
  if seconds < -timestampEnd ∨ timestampEnd ≤ seconds then .error .beyondCalendar
  else if seconds < clockRange.1 ∨ clockRange.2 < seconds then .error .beyondClock
  else
    match WallTime.ofMicros? (micros + unixEpoch * microsPerSecond) with
    | none => .error .noSuchYear
    | some t =>
      match zone with
      | none => if t.micros < microsPerDay then .error .noSuchYear else .ok (naive t)
      | some z =>
        match ofUtc? z t with
        | none => .error .beyondCalendar
        | some d => .ok d

/-- The reading at a whole number of seconds since 1970. -/
def ofTimestamp (zone : Option TimeZone) (seconds : Int) : Except Fault DateTime :=
  ofUnixMicros zone (seconds * microsPerSecond)

/-- The reading at a fractional number of seconds since 1970. -/
def ofFractional (zone : Option TimeZone) (seconds : Binary64) : Except Fault DateTime :=
  if seconds.isNaN then .error .notANumber
  else if seconds.isInfinite then .error .beyondCalendar
  else ofUnixMicros zone seconds.microseconds

end DateTime

end CronSchedule
