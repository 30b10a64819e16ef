import CronSchedule.Proofs.Enumerate.Scan
import CronSchedule.Session.Matching

/-!
# From a window to its scan

Enumeration checks its window, runs one scan and writes the ticks found as dates.  The
equations here open these steps one at a time; none of them looks into the scan.

* `Window.check_eq`, `Pattern.matchedDates_eq` — the check, and a window that passes it;
* `Window.enumerateNaive_of_run`, `Window.enumerateAware_of_run` — the dates of a scan;
* `tickStep` — the distance of two ticks;
* `Call.outcome_accepts_dateTime` — what matching a single date and time answers.
-/

namespace CronSchedule

/-! ### Ticks -/

/-- The distance of two ticks: a second where seconds are compared, else a minute. -/
def tickStep (withSeconds : Bool) : Int := if withSeconds then microsPerSecond else microsPerMinute

theorem tickStep_bounds (withSeconds : Bool) :
    0 < tickStep withSeconds ∧ tickStep withSeconds ≤ microsPerMinute := by
  cases withSeconds <;> decide

theorem Scan.step_eq (s : Scan) : s.step = tickStep s.withSeconds := rfl

/-! ### Results in sequence -/

theorem ok_bind {α β : Type} (a : α) (f : α → Except Error β) : (Except.ok a >>= f) = f a := rfl

/-- A sequence of results succeeds where each does. -/
theorem bind_eq_ok_iff {α β : Type} {x : Except Error α} {f : α → Except Error β} {b : β} :
    (x >>= f) = .ok b ↔ ∃ a, x = .ok a ∧ f a = .ok b := by
  cases x with
  | error e =>
    constructor
    · intro h
      cases h
    · rintro ⟨a, ha, -⟩
      cases ha
  | ok a =>
    rw [ok_bind]
    constructor
    · exact fun h => ⟨a, rfl, h⟩
    · rintro ⟨_, ⟨⟩, h⟩
      exact h

theorem withinCalendar_eq_ok_iff {α : Type} {x : Option α} {a : α} :
    withinCalendar x = .ok a ↔ x = some a := by
  cases x <;> simp [withinCalendar]

theorem liftFault_eq_ok_iff {α : Type} {x : Except Fault α} {a : α} :
    liftFault x = .ok a ↔ x = .ok a := by
  cases x <;> simp [liftFault]

/-- Values that are all there are those that are found within the calendar. -/
theorem mapM_withinCalendar_iff {α β : Type} {f : α → Option β} {xs : List α} {ys : List β} :
    xs.mapM (fun x => withinCalendar (f x)) = .ok ys ↔ xs.mapM f = some ys := by
  induction xs generalizing ys with
  | nil =>
    rw [List.mapM_nil, List.mapM_nil]
    exact ⟨fun h => congrArg some (Except.ok.inj h), fun h => congrArg Except.ok (Option.some.inj h)⟩
  | cons x xs ih =>
    rw [List.mapM_cons, List.mapM_cons, bind_eq_ok_iff, Option.bind_eq_bind,
      Option.bind_eq_some_iff]
    refine exists_congr fun y => and_congr withinCalendar_eq_ok_iff ?_
    rw [bind_eq_ok_iff, Option.bind_eq_bind, Option.bind_eq_some_iff]
    refine exists_congr fun zs => and_congr ih ?_
    exact ⟨fun h => congrArg some (Except.ok.inj h), fun h => congrArg Except.ok (Option.some.inj h)⟩

/-- A call whose result is a value leaves its session behind. -/
theorem Call.outcome_eq_of_toOption {α : Type} {c : Call α} (host : Host) {s : Session} {a : α}
    (h : (outcome c host s).1.toOption = some a) :
    outcome c host s = (.ok a, (outcome c host s).2) := by
  cases houtcome : outcome c host s with
  | mk result behind =>
    rw [houtcome] at h
    cases result with
    | error e => cases h
    | ok b =>
      cases h
      rfl

/-! ### Windows -/

namespace Window

/-- What is checked of two ends of one kind, and in which order. -/
theorem check_eq {start stop : DateTime} (hkind : start.isNaive = stop.isNaive) (count : Int) :
    check (.dateTime start) (some (.dateTime stop)) count =
      if count ≤ 0 then .error (.argument (.countNotPositive count))
      else if start.isBefore stop then .ok ⟨start, stop, count.toNat⟩
      else .error (.argument .emptyWindow) := by
  unfold check
  dsimp only [endOf]
  rw [if_neg (by simp [hkind])]

/-- Two ends of one kind, the first before the second, are a window. -/
theorem check_eq_ok {start stop : DateTime} {count : Int} (hkind : start.isNaive = stop.isNaive)
    (hcount : 1 ≤ count) (hbefore : start.isBefore stop = true) :
    check (.dateTime start) (some (.dateTime stop)) count = .ok ⟨start, stop, count.toNat⟩ := by
  have hpositive : ¬ count ≤ 0 := by omega
  rw [check_eq hkind, if_neg hpositive, if_pos hbefore]

/-- A window that does not end behind its start is refused. -/
theorem check_eq_error {start stop : DateTime} {count : Int} (hkind : start.isNaive = stop.isNaive)
    (hcount : 1 ≤ count) (hbefore : start.isBefore stop = false) :
    check (.dateTime start) (some (.dateTime stop)) count =
      .error (.argument .emptyWindow) := by
  have hpositive : ¬ count ≤ 0 := by omega
  rw [check_eq hkind, if_neg hpositive, if_neg (by simp [hbefore])]

section

variable {w : Window} {p : Pattern} {withSeconds : Bool} {cap : Option Nat} {found : Found}

/-- Without zones the ticks that a scan finds are the dates, and a warning names the tick at
which it was cut. -/
theorem enumerateNaive_of_run (scan : Scan) (hscan : scan = ⟨p, none, withSeconds, w.stop.wall⟩)
    {budget : Nat} (hbudget : budget = cap.getD (scan.gridSize w.start.wall))
    (hrun : scan.run budget w.count w.start.wall [] = .ok found) :
    w.enumerateNaive p withSeconds cap = .ok {
      dates := found.ticks.map .naive
      warning := found.cut.map fun tick => ⟨p.expression, budget, .naive tick⟩ } := by
  subst hscan hbudget
  unfold enumerateNaive
  dsimp only
  rw [hrun]
  rfl

/-- Without zones a scan that fails is an enumeration that does. -/
theorem enumerateNaive_of_run_error (scan : Scan)
    (hscan : scan = ⟨p, none, withSeconds, w.stop.wall⟩) {fault : Fault}
    (hrun : scan.run (cap.getD (scan.gridSize w.start.wall)) w.count w.start.wall [] =
      .error fault) : w.enumerateNaive p withSeconds cap = .error (.fault fault) := by
  subst hscan
  unfold enumerateNaive
  dsimp only
  rw [hrun]
  rfl

/-- With zones the dates are these ticks on the clock of the window's start, and a warning names
the tick on the clock of UTC. -/
theorem enumerateAware_of_run {home clock : TimeZone} {start stop : WallTime}
    {dates : List DateTime} (hstart : w.start.toUtc? = some start)
    (hstop : w.stop.toUtc? = some stop) (scan : Scan)
    (hscan : scan = ⟨p, some clock, withSeconds, stop⟩) {budget : Nat}
    (hbudget : budget = cap.getD (scan.gridSize start))
    (hrun : scan.run budget w.count start [] = .ok found)
    (hdates : found.ticks.mapM (DateTime.ofUtc? home) = some dates) :
    w.enumerateAware home clock p withSeconds cap = .ok {
      dates
      warning := found.cut.map fun tick => ⟨p.expression, budget, ⟨tick, some .utc, false⟩⟩ } := by
  subst hscan hbudget
  unfold enumerateAware
  rw [hstart, hstop]
  simp only [withinCalendar.eq_1, ok_bind, hrun, liftFault.eq_1, mapM_withinCalendar_iff.mpr hdates]
  rfl

end

/-- A scan that no limit cuts gives its dates and no warning. -/
theorem enumerateNaive_eq_ok {w : Window} {p : Pattern} {withSeconds : Bool}
    {ticks : List WallTime} (scan : Scan) (hscan : scan = ⟨p, none, withSeconds, w.stop.wall⟩)
    (hrun : scan.run (scan.gridSize w.start.wall) w.count w.start.wall [] = .ok ⟨ticks, none⟩) :
    w.enumerateNaive p withSeconds none = .ok ⟨ticks.map .naive, none⟩ :=
  enumerateNaive_of_run scan hscan Option.getD_none.symm hrun

theorem enumerateAware_eq_ok {w : Window} {home clock : TimeZone} {p : Pattern}
    {withSeconds : Bool} {start stop : WallTime} {ticks : List WallTime} {dates : List DateTime}
    (hstart : w.start.toUtc? = some start) (hstop : w.stop.toUtc? = some stop)
    (scan : Scan) (hscan : scan = ⟨p, some clock, withSeconds, stop⟩)
    (hrun : scan.run (scan.gridSize start) w.count start [] = .ok ⟨ticks, none⟩)
    (hdates : ticks.mapM (DateTime.ofUtc? home) = some dates) :
    w.enumerateAware home clock p withSeconds none = .ok ⟨dates, none⟩ :=
  enumerateAware_of_run hstart hstop scan hscan Option.getD_none.symm hrun hdates

end Window

/-- Enumeration in a window that passes its check. -/
theorem Pattern.matchedDates_eq {start stop : Instant} {count : Int} {w : Window} (p : Pattern)
    (zones : ZoneTable) (settings : Settings)
    (hwindow : Window.check start (some stop) count = .ok w) (matchSeconds : Option Bool)
    (timezone : Option ZoneRef) :
    p.matchedDates zones settings start (some stop) count matchSeconds timezone =
      w.enumerate zones settings p matchSeconds timezone := by
  unfold matchedDates
  rw [hwindow]
  rfl

/-! ### Single dates -/

/-- Matching a date and time as it is written asks no settings and always answers. -/
theorem Call.outcome_accepts_dateTime (p : Pattern) (withSeconds : Bool) (d : DateTime)
    (host : Host) (session : Session) :
    Call.outcome (Call.accepts p (.dateTime d) none (some withSeconds)) host session =
      (.ok (p.admits withSeconds d.wall), session) := by
  simp [Call.accepts, Call.comparesSeconds, Call.wallClock, Call.dateTimeIn, p.matchesWall_eq]

end CronSchedule
