import CronSchedule.Pattern.Match
import CronSchedule.Session.Basic

/-!
# Matching and enumerating in a session

The calls that fill in what their arguments leave out from the settings in force.

* `Call.zone` — the zone of a call, or else what the settings choose, `Call.clock` — the
  clock that is read then;
* `Call.wallClock` — what a clock shows at an instant;
* `Call.accepts`, `Call.acceptsOwn` — whether a pattern accepts an instant;
* `Call.dates`, `Call.firstOfYear`, `Call.next` — the matches of a window, the first up to
  the end of a year, and the first behind an instant.

Settings are looked at only by the calls that need them, and there only after the
arguments have been checked, except that `Call.accepts` asks whether seconds are
compared before it looks at the instant.
-/

namespace CronSchedule

/-! ### Clocks -/

/-- What is chosen for the zone of a call. -/
inductive ZoneChoice where
  | localClock
  | zone (z : TimeZone)
  /-- a value of settings put together by hand that names no zone -/
  | noZone (v : Value)

namespace Call

/-- What the value of the default zone chooses.  A text has to be the name of a zone. -/
def chosenZone (zones : ZoneTable) : Value → Except Error ZoneChoice
  | .null => .ok .localClock
  | .text name => (zones.resolve (.name name)).map .zone
  | .ragged name => .error (.argument (.unknownZone (Text.quotedSymbols name)))
  | v => .ok (.noZone v)

/-- The zone of a reference, or else that of the settings. -/
def zone : Option ZoneRef → Call ZoneChoice
  | some ref => do
    let z ← ofResult ((← read).zones.resolve ref)
    return .zone z
  | none => do
    let settings ← settings
    ofResult (chosenZone (← read).zones settings.defaultTimezone)

/-- The zone on whose clock a timestamp is read. -/
def clock (ref : Option ZoneRef) : Call (Option TimeZone) := do
  match ← zone ref with
  | .localClock => return none
  | .zone z => return some z
  | .noZone _ => throw (.fault .wrongKind)

/-- A date and time on the clock of another zone.  Without a zone it stays as it is, and
so does a naive one, but the zone has to exist. -/
def dateTimeIn (d : DateTime) : Option ZoneRef → Call DateTime
  | none => return d
  | some ref => do
    let z ← ofResult ((← read).zones.resolve ref)
    if d.isNaive then return d else ofResult (withinCalendar (d.inZone? z))

/-- What a clock shows at an instant. -/
def wallClock (instant : Instant) (ref : Option ZoneRef) : Call DateTime :=
  match instant with
  | .dateTime d => dateTimeIn d ref
  | .timestamp seconds => do
    let z ← clock ref
    ofResult (liftFault (DateTime.ofTimestamp z seconds))
  | .fractional seconds => do
    let z ← clock ref
    ofResult (liftFault (DateTime.ofFractional z seconds))
  | .other kind => throw (.argument (.notAnInstant kind))

/-! ### Matching -/

/-- Whether seconds are compared: as asked for, or else as the settings say. -/
def comparesSeconds : Option Bool → Call Bool
  | some b => return b
  | none => return (← settings).comparesSeconds

/-- Whether a pattern accepts an instant. -/
def accepts (p : Pattern) (instant : Instant) (ref : Option ZoneRef)
    (matchSeconds : Option Bool) : Call Bool := do
  let withSeconds ← comparesSeconds matchSeconds
  let d ← wallClock instant ref
  ofResult (p.matchesWall d.wall withSeconds)

/-- Whether a pattern accepts an instant, the second compared exactly when the pattern
names it. -/
def acceptsOwn (p : Pattern) (instant : Instant) : Call Bool :=
  accepts p instant none (some p.hasSeconds)

/-! ### Enumerating -/

/-- The matches of a pattern from `start` up to `stop`, at most `count` of them. -/
def dates (p : Pattern) (start : Instant) (stop : Option Instant) (count : Int)
    (matchSeconds : Option Bool) (ref : Option ZoneRef) : Call (List DateTime) := do
  let window ← ofResult (Window.check start stop count)
  let settings ← settings
  let found ← ofResult (window.enumerate (← read).zones settings p matchSeconds ref)
  warn found.warning
  return found.dates

/-- The first match from `start` up to the end of its year. -/
def firstOfYear (p : Pattern) (start : Instant) (matchSeconds : Option Bool) :
    Call (Option DateTime) := do
  let found ← dates p start none 1 matchSeconds none
  return found.head?

/-- The next match behind an instant. -/
def next (p : Pattern) (after : DateTime) (matchSeconds : Option Bool) :
    Call (Option DateTime) := do
  let withSeconds := p.searchesSeconds matchSeconds
  let start ← ofResult (withinCalendar (after.firstTickAfter? withSeconds))
  let settings ← settings
  let found ← ofResult (p.nextFrom (← read).zones settings start withSeconds)
  warn found.warning
  return found.date

/-! ### With settings in force

Once settings are in force, the calls that enumerate are the functions of a pattern
under those settings, and a warning is kept for collection. -/

section InForce

variable {inForce : Settings} {s : Session}

theorem outcome_dates (h : s.settings = some inForce) (host : Host) (p : Pattern)
    (start : Instant) (stop : Option Instant) (count : Int) (matchSeconds : Option Bool)
    (ref : Option ZoneRef) :
    outcome (dates p start stop count matchSeconds ref) host s =
      match p.matchedDates host.zones inForce start stop count matchSeconds ref with
      | .ok found => (.ok found.dates, { s with warnings := s.warnings ++ found.warning.toList })
      | .error e => (.error e, s) := by
  unfold dates Pattern.matchedDates
  simp only [outcome_bind, outcome_ofResult]
  cases Window.check start stop count with
  | error e => rfl
  | ok window =>
    simp only [outcome_settings_of_some h, outcome_read]
    change _ = match window.enumerate host.zones inForce p matchSeconds ref with
      | .ok found => _
      | .error e => _
    cases window.enumerate host.zones inForce p matchSeconds ref <;> simp

theorem outcome_next (h : s.settings = some inForce) (host : Host) (p : Pattern)
    (after : DateTime) (matchSeconds : Option Bool) :
    outcome (next p after matchSeconds) host s =
      match p.next host.zones inForce after matchSeconds with
      | .ok found => (.ok found.date, { s with warnings := s.warnings ++ found.warning.toList })
      | .error e => (.error e, s) := by
  unfold next Pattern.next
  simp only [outcome_bind, outcome_ofResult]
  cases withinCalendar (after.firstTickAfter? (p.searchesSeconds matchSeconds)) with
  | error e => rfl
  | ok start =>
    simp only [outcome_settings_of_some h, outcome_read]
    change _ = match p.nextFrom host.zones inForce start (p.searchesSeconds matchSeconds) with
      | .ok found => _
      | .error e => _
    cases p.nextFrom host.zones inForce start (p.searchesSeconds matchSeconds) <;> simp

end InForce

end Call

end CronSchedule
