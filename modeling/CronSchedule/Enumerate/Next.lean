import CronSchedule.Enumerate.Window

/-!
# The next match

The next match behind an instant is looked for from the first whole second behind it,
or the first whole minute when seconds are not compared, and as far ahead as the horizon
of the settings.

* `DateTime.firstTickAfter?` — where the search starts;
* `DateTime.later?` — where it ends;
* `Pattern.next` — the search;
* `Cursor` — a sequence of searches, each from the match before, with an optional limit
  on their number.
-/

namespace CronSchedule

/-! ### The window of a search -/

/-- The first whole second, or whole minute, of the clock behind the reading. -/
def DateTime.firstTickAfter? (d : DateTime) (withSeconds : Bool) : Option DateTime :=
  let next :=
    if withSeconds then d.wall.truncateSecond.add? microsPerSecond
    else d.wall.truncateMinute.add? microsPerMinute
  next.map fun w => ⟨w, d.zone, false⟩

/-- The reading a span of microseconds later on the same clock. -/
def DateTime.later? (d : DateTime) (span : Int) : Option DateTime :=
  (d.wall.add? span).map fun w => ⟨w, d.zone, false⟩

/-- The result of a search: the match if there is one, and a warning if the limit on
ticks ended the search. -/
structure NextMatch where
  date : Option DateTime
  warning : Option CapWarning

/-- Whether a search compares seconds: as asked for, or else when the pattern names
them. -/
def Pattern.searchesSeconds (p : Pattern) (matchSeconds : Option Bool) : Bool :=
  matchSeconds.getD p.hasSeconds

/-- The search from a start, under given settings. -/
def Pattern.nextFrom (p : Pattern) (zones : ZoneTable) (settings : Settings) (start : DateTime)
    (withSeconds : Bool) : Except Error NextMatch := do
  let span ← liftFault settings.horizon
  let stop ← withinCalendar (start.later? span)
  let found ← p.matchedDates zones settings (.dateTime start) (some (.dateTime stop)) 1
    (some withSeconds) none
  return ⟨found.dates.head?, found.warning⟩

/-- The next match behind an instant. -/
def Pattern.next (p : Pattern) (zones : ZoneTable) (settings : Settings) (after : DateTime)
    (matchSeconds : Option Bool) : Except Error NextMatch := do
  let withSeconds := p.searchesSeconds matchSeconds
  let start ← withinCalendar (after.firstTickAfter? withSeconds)
  p.nextFrom zones settings start withSeconds

/-! ### Cursors -/

/-- The state of a sequence of searches. -/
structure Cursor where
  pattern : Pattern
  /-- the next search starts behind this -/
  position : DateTime
  /-- how many more matches may be taken; none is no limit -/
  remaining : Option Nat
  matchSeconds : Option Bool
  /-- whether a search has found nothing -/
  exhausted : Bool

namespace Cursor

/-- A cursor behind an instant. -/
def start (p : Pattern) (after : DateTime) (limit : Option Int) (matchSeconds : Option Bool) :
    Except Error Cursor :=
  match limit with
  | none => .ok ⟨p, after, none, matchSeconds, false⟩
  | some n =>
    if n < 0 then .error (.argument (.negativeLimit n))
    else .ok ⟨p, after, some n.toNat, matchSeconds, false⟩

/-- Whether no further search is made. -/
def isDone (c : Cursor) : Bool := c.exhausted || c.remaining == some 0

/-- The cursor behind the result of its search. -/
def advance (c : Cursor) : Option DateTime → Cursor
  | none => { c with exhausted := true }
  | some d => { c with position := d, remaining := c.remaining.map (· - 1) }

end Cursor

end CronSchedule
