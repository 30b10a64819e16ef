import CronSchedule.Calendar.WallTime
import CronSchedule.Zone.Rules

/-!
# Time zones

A time zone is a fixed offset from UTC or a named zone with rules.  The UTC reading of
an instant is a `WallTime` like any other; the two functions of `ZoneRules` are read on
such readings here.

* `TimeZone.offsetAt`, `TimeZone.offsetOfWall` — the offset, from either side;
* `TimeZone.isSame` — whether two zones are one and the same named zone;
* `ZoneRef` — how a call names a zone, `ZoneTable.find?` — the zone of a name.
-/

namespace CronSchedule

/-- Seconds from 1 January of year 1 to 1 January 1970. -/
def unixEpoch : Int := 719162 * 86400

/-- A time zone. -/
inductive TimeZone where
  | fixed (offset : Int)
  | named (name : String) (rules : ZoneRules)
deriving DecidableEq, Repr

namespace TimeZone

/-- The zone at offset zero. -/
def utc : TimeZone := .fixed 0

/-- The whole seconds since 1970 of a reading taken as UTC. -/
def unixSeconds (w : WallTime) : Int := w.micros / microsPerSecond - unixEpoch

/-- The offset at an instant given by its UTC reading, and whether the zone's clock
shows its reading for the second time. -/
def offsetAt : TimeZone → WallTime → Int × Bool
  | fixed offset, _ => (offset, false)
  | named _ rules, t => rules.offsetAt (unixSeconds t)

/-- The offset for a reading of the zone's own clock. -/
def offsetOfWall : TimeZone → WallTime → Bool → Int
  | fixed offset, _, _ => offset
  | named _ rules, w, late => rules.offsetOfWall (unixSeconds w) late

/-- Whether both are the same named zone. -/
def isSame : TimeZone → TimeZone → Bool
  | named a _, named b _ => a == b
  | _, _ => false

/-- The written form of an offset: sign, hours and minutes, and seconds if there are
any. -/
def offsetText (offset : Int) : List Char :=
  let n := offset.natAbs
  let two (k : Nat) := Text.padded 10 2 k
  let seconds := if n % 60 = 0 then [] else ':' :: two (n % 60)
  (if offset < 0 then '-' else '+') :: two (n / 3600) ++ ':' :: two (n / 60 % 60) ++ seconds

/-- The name of a zone; an offset is named after UTC. -/
def name : TimeZone → String
  | fixed offset =>
    if offset = 0 then "UTC" else String.ofList ("UTC".toList ++ offsetText offset)
  | named name _ => name

end TimeZone

/-! ### References -/

/-- How a call names a zone. -/
inductive ZoneRef where
  | name (name : String)
  | offset (seconds : Int)
deriving DecidableEq, Repr

/-- The zones that names can refer to. -/
abbrev ZoneTable := List (String × ZoneRules)

/-- The zone of this name, none when the table has none. -/
def ZoneTable.find? (table : ZoneTable) (name : String) : Option TimeZone :=
  (table.lookup name).map (.named name)

end CronSchedule
