import CronSchedule.Enumerate.Scan
import CronSchedule.Settings.Basic

/-!
# Enumerating the matches of a window

* `Window.check` — the window that arguments describe, or the first complaint;
* `Window.enumerate` — the matches in a window under given settings;
* `Pattern.matchedDates` — both together;
* `CapWarning` — what is said when the limit on ticks ends a scan.

A window without an end ends with its start's year.  Matches carry the zone of the
window's start, whatever the zone on whose clock they are looked for.
-/

namespace CronSchedule

/-! ### Windows -/

/-- A start before a stop, both with or both without a zone, and how many matches are
wanted. -/
structure Window where
  start : DateTime
  stop : DateTime
  count : Nat

namespace Window

/-- The end of a window: the one given, or the end of the start's year. -/
def endOf (start : DateTime) (stop : Option Instant) : Except Error DateTime :=
  match stop with
  | none =>
    match start.endOfYear? with
    | some d => .ok d
    | none => .error (.fault .noSuchYear)
  | some (.dateTime d) => .ok d
  | some other => .error (.argument (.endNotDateTime other.kind))

/-- The window that arguments describe. -/
def check (start : Instant) (stop : Option Instant) (count : Int) : Except Error Window :=
  match start with
  | .dateTime start =>
    match endOf start stop with
    | .error e => .error e
    | .ok stop =>
      if start.isNaive != stop.isNaive then .error (.argument .naiveAndAware)
      else if count ≤ 0 then .error (.argument (.countNotPositive count))
      else if start.isBefore stop then .ok ⟨start, stop, count.toNat⟩
      else .error (.argument .emptyWindow)
  | other => .error (.argument (.startNotDateTime other.kind))

end Window

/-! ### Warnings -/

/-- The limit on ticks ended a scan. -/
structure CapWarning where
  expression : String
  /-- how many ticks were tested -/
  ticks : Nat
  /-- the first tick that was not tested -/
  next : DateTime

def CapWarning.message (w : CapWarning) : String :=
  "Scan for " ++ Text.quoted w.expression ++ s!" stopped after {w.ticks} ticks at " ++
    String.ofList w.next.text

/-- The matches of a window, and the warning if the limit on ticks ended the scan. -/
structure Enumeration where
  dates : List DateTime
  warning : Option CapWarning

/-! ### Enumeration -/

/-- A failure of the library as an error. -/
def liftFault {α : Type} : Except Fault α → Except Error α
  | .ok a => .ok a
  | .error f => .error (.fault f)

/-- A value that is missing only where the calendar ends. -/
def withinCalendar {α : Type} : Option α → Except Error α
  | some a => .ok a
  | none => .error (.fault .beyondCalendar)

namespace Window

/-- The matches of a window without zones. -/
def enumerateNaive (w : Window) (p : Pattern) (withSeconds : Bool) (cap : Option Nat) :
    Except Error Enumeration := do
  let scan : Scan := ⟨p, none, withSeconds, w.stop.wall⟩
  let budget := cap.getD (scan.gridSize w.start.wall)
  let found ← liftFault (scan.run budget w.count w.start.wall [])
  return {
    dates := found.ticks.map DateTime.naive
    warning := found.cut.map fun tick => ⟨p.expression, budget, .naive tick⟩ }

/-- The matches of a window with zones, looked for on the clock of `clock`. -/
def enumerateAware (w : Window) (home clock : TimeZone) (p : Pattern) (withSeconds : Bool)
    (cap : Option Nat) : Except Error Enumeration := do
  let start ← withinCalendar w.start.toUtc?
  let stop ← withinCalendar w.stop.toUtc?
  let scan : Scan := ⟨p, some clock, withSeconds, stop⟩
  let budget := cap.getD (scan.gridSize start)
  let found ← liftFault (scan.run budget w.count start [])
  let dates ← found.ticks.mapM fun tick => withinCalendar (DateTime.ofUtc? home tick)
  return {
    dates
    warning := found.cut.map fun tick => ⟨p.expression, budget, ⟨tick, some .utc, false⟩⟩ }

/-- The matches of a window under given settings.  Seconds are compared when asked for,
or else when the settings say so; the clock is that of the zone given, or else that of
the start. -/
def enumerate (w : Window) (zones : ZoneTable) (settings : Settings) (p : Pattern)
    (matchSeconds : Option Bool) (timezone : Option ZoneRef) : Except Error Enumeration := do
  let withSeconds := matchSeconds.getD settings.comparesSeconds
  match w.start.zone with
  | none => w.enumerateNaive p withSeconds settings.tickLimit
  | some home =>
    let clock ← match timezone with
      | none => pure home
      | some ref => zones.resolve ref
    w.enumerateAware home clock p withSeconds settings.tickLimit

end Window

/-- The matches of a pattern from `start` up to `stop`, at most `count` of them. -/
def Pattern.matchedDates (p : Pattern) (zones : ZoneTable) (settings : Settings)
    (start : Instant) (stop : Option Instant) (count : Int) (matchSeconds : Option Bool)
    (timezone : Option ZoneRef) : Except Error Enumeration := do
  let w ← Window.check start stop count
  w.enumerate zones settings p matchSeconds timezone

end CronSchedule
