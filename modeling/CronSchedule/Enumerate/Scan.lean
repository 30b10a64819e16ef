import CronSchedule.Pattern.Match

/-!
# Scanning a window for matches

A scan tests ticks, one second or one minute apart, from a start up to a stop.  Ticks
are readings of the UTC clock, or of the only clock there is when no zone is known; a
tick is tested by what the clock of the scan's zone shows at it.

A tick whose date cannot match is not followed by the next tick but by the first tick
of the next day, as far as whole steps lead there, and at least one step.

* `Scan.read` — what is tested at a tick;
* `Scan.skipDay?` — the tick after one whose date cannot match;
* `Scan.run` — the scan, by recursion on a budget of ticks.  It ends when the stop is
  reached, when enough matches are found, or when the budget is spent, and only the
  last is recorded as a cut.

`Scan.gridSize` is the number of ticks in the window, so a scan with that budget is
never cut.
-/

namespace CronSchedule

/-- A scan: what is looked for, and up to where. -/
structure Scan where
  pattern : Pattern
  /-- the zone on whose clock ticks are tested; none when no zone is known -/
  clock : Option TimeZone
  /-- whether ticks are seconds and the second is compared -/
  withSeconds : Bool
  /-- the first tick that is not tested -/
  stop : WallTime

/-- What a scan finds: the matching ticks in ascending order, and the tick at which it
was cut short. -/
structure Found where
  ticks : List WallTime
  cut : Option WallTime

namespace Scan

/-- The distance of two ticks. -/
def step (s : Scan) : Int := if s.withSeconds then microsPerSecond else microsPerMinute

theorem step_pos (s : Scan) : 0 < s.step := by
  unfold step microsPerMinute microsPerSecond
  split <;> decide

/-- What the scan's clock shows at a tick. -/
def read (s : Scan) (tick : WallTime) : Option DateTime :=
  match s.clock with
  | none => some (.naive tick)
  | some z => DateTime.ofUtc? z tick

/-- The tick scale's reading of a midnight of the scan's clock. -/
def ofClock? (s : Scan) (midnight : WallTime) : Option WallTime :=
  match s.clock with
  | none => some midnight
  | some z => DateTime.toUtc? ⟨midnight, some z, false⟩

/-- The number of steps from a tick to the first tick at or behind a target. -/
def stepsTo (s : Scan) (tick target : WallTime) : Int :=
  -((tick.micros - target.micros) / s.step)

/-- The tick that follows one at which the clock shows `wall` and no match is possible
on that date. -/
def skipDay? (s : Scan) (tick wall : WallTime) : Option WallTime := do
  let midnight ← WallTime.midnight? (wall.day + 1)
  let target ← s.ofClock? midnight
  tick.add? (s.step * max (s.stepsTo tick target) 1)

/-- The ticks in the window from `tick` on. -/
def gridSize (s : Scan) (tick : WallTime) : Nat := (s.stepsTo tick s.stop).toNat

/-- The scan from a tick on, with a budget of ticks, for `wanted` more matches behind
those found, which stand in reverse. -/
def run (s : Scan) : Nat → Nat → WallTime → List WallTime → Except Fault Found
  | budget, wanted, tick, found =>
    if s.stop.micros ≤ tick.micros then .ok ⟨found.reverse, none⟩
    else
      match budget with
      | 0 => .ok ⟨found.reverse, some tick⟩
      | budget + 1 =>
        match s.read tick with
        | none => .error .beyondCalendar
        | some shown =>
          let reading := shown.wall.reading s.withSeconds
          match s.pattern.acceptsDate reading with
          | none => .error .noSuchMonth
          | some false =>
            match s.skipDay? tick shown.wall with
            | none => .error .beyondCalendar
            | some next => run s budget wanted next found
          | some true =>
            match s.pattern.accepts reading with
            | none => .error .noSuchMonth
            | some hit =>
              if hit && wanted ≤ 1 then .ok ⟨(tick :: found).reverse, none⟩
              else
                match tick.add? s.step with
                | none => .error .beyondCalendar
                | some next =>
                  if hit then run s budget (wanted - 1) next (tick :: found)
                  else run s budget wanted next found

end Scan

end CronSchedule
