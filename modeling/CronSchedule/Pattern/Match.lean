import CronSchedule.Error
import CronSchedule.Zone.Instant

/-!
# Matching a date and time

* `Pattern.matchesWall` — whether a pattern accepts what a clock shows;
* `ZoneTable.resolve` — the zone of a reference, an unknown name being an error and so an
  offset of a day or more.

The readings of a clock always name a month, so a match of a clock's reading always
has an answer; `Verdict.settle` turns the answer into a result.
-/

namespace CronSchedule

/-- The answer of a test as a result. -/
def Verdict.settle (v : Verdict) : Except Error Bool :=
  match v with
  | some b => .ok b
  | none => .error (.fault .noSuchMonth)

/-- Whether the pattern accepts what the clock shows. -/
def Pattern.matchesWall (p : Pattern) (w : WallTime) (withSeconds : Bool) : Except Error Bool :=
  Verdict.settle (p.accepts (w.reading withSeconds))

/-- The zone of a reference.  A fixed offset is less than a day. -/
def ZoneTable.resolve (zones : ZoneTable) : ZoneRef → Except Error TimeZone
  | .offset seconds =>
    if seconds.natAbs < 86400 then .ok (.fixed seconds) else .error (.fault .noSuchReading)
  | .name name =>
    match zones.find? name with
    | some z => .ok z
    | none => .error (.argument (.unknownZone (Text.quoted name)))

end CronSchedule
