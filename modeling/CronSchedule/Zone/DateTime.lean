import CronSchedule.Zone.TimeZone

/-!
# Dates and times with or without a zone

A `DateTime` is a wall-clock reading, the zone whose clock it was read from if one is
known, and, for readings that the clock shows twice, which of the two is meant.  One
without a zone is called naive, one with a zone aware.

* `utcMicros?` — the instant as a number, on which aware values are ordered;
* `toUtc?`, `ofUtc?`, `inZone?` — conversion, none when it leaves the calendar;
* `isBefore` — the order in which a window is checked: values of the same named zone,
  and naive values, by their readings, all others by their instants;
* `endOfYear?` — the first reading of the next year;
* `text` — the written form.
-/

namespace CronSchedule

/-- A wall-clock reading with its zone.  `late` marks the second of two equal
readings. -/
structure DateTime where
  wall : WallTime
  zone : Option TimeZone
  late : Bool
deriving DecidableEq

namespace DateTime

/-- A reading without a zone. -/
def naive (w : WallTime) : DateTime := ⟨w, none, false⟩

theorem zone_naive (w : WallTime) : (naive w).zone = none := rfl

def isNaive (d : DateTime) : Bool := d.zone.isNone

/-- The offset from UTC in force at the reading, in seconds. -/
def offset? (d : DateTime) : Option Int := d.zone.map fun z => z.offsetOfWall d.wall d.late

/-- The instant, in microseconds of the UTC clock since year 1, which may leave the
calendar. -/
def utcMicros? (d : DateTime) : Option Int :=
  d.offset?.map fun offset => d.wall.micros - offset * microsPerSecond

/-- The instant's UTC reading. -/
def toUtc? (d : DateTime) : Option WallTime := d.utcMicros?.bind WallTime.ofMicros?

/-- What the zone's clock shows at an instant given by its UTC reading. -/
def ofUtc? (z : TimeZone) (t : WallTime) : Option DateTime :=
  let (offset, late) := z.offsetAt t
  (t.add? (offset * microsPerSecond)).map fun w => ⟨w, some z, late⟩

/-- The same instant on another zone's clock.  On the clock it was read from nothing
changes. -/
def inZone? (d : DateTime) (z : TimeZone) : Option DateTime :=
  if d.zone.any (·.isSame z) then some d
  else d.toUtc?.bind (ofUtc? z)

/-- Whether the two readings are compared without regard to their offsets. -/
def sharesClock (a b : DateTime) : Bool :=
  match a.zone, b.zone with
  | none, none => true
  | some y, some z => y.isSame z
  | _, _ => false

/-- The order of the ends of a window. -/
def isBefore (a b : DateTime) : Bool :=
  if a.sharesClock b then a.wall.micros < b.wall.micros
  else a.utcMicros?.getD a.wall.micros < b.utcMicros?.getD b.wall.micros

/-- The first reading of the year after the reading's, none after year 9999. -/
def endOfYear? (d : DateTime) : Option DateTime :=
  (WallTime.ofParts? ⟨d.wall.date.year + 1, 1, 1⟩ 0 0 0 0).map fun w => ⟨w, d.zone, false⟩

/-- The reading, and the offset behind it when there is a zone. -/
def text (d : DateTime) : List Char :=
  d.wall.text ++ (d.offset?.map TimeZone.offsetText).getD []

end DateTime

end CronSchedule
