import CronSchedule.Proofs.Enumerate.Window

/-!
# Enumerating without zones

Without zones there is one clock, and it runs from midnight to midnight without a jump:
between a tick and the midnight that ends its day the date does not change.  So a scan
that skips days is faithful as long as that midnight exists, which the last day of the
calendar alone denies.

* `lastMidnight` — midnight of the last day of the calendar;
* `Scan.exists_skip_of_naive` — before it a skip leads to the midnight behind a tick;
* `Scan.faithful_of_naive` — up to there a scan without a clock of its own is faithful;
* `matchedDates_naive` — enumeration returns the first matches among all ticks.
-/

namespace CronSchedule

/-- Midnight of 31 December of year 9999. -/
def lastMidnight : Int := (calendarDays - 1) * microsPerDay

/-! ### Days of the one clock -/

namespace WallTime

/-- A reading lies on a day exactly when it lies between its two midnights. -/
theorem day_eq_iff {w : WallTime} {n : Int} :
    w.day = n ↔ n * microsPerDay ≤ w.micros ∧ w.micros < (n + 1) * microsPerDay := by
  simp only [day, microsPerDay, microsPerSecond]
  omega

end WallTime

/-! ### The scan -/

namespace Scan

variable {s : Scan}

theorem read_of_naive (hclock : s.clock = none) (t : WallTime) : s.read t = some (.naive t) := by
  rw [read, hclock]

theorem hits_of_naive (hclock : s.clock = none) : s.hits = s.pattern.admits s.withSeconds :=
  funext fun t => hits_eq_of_read (read_of_naive hclock t)

/-- Before the last midnight a skip leads to the midnight behind the tick, and all readings before
that are of the tick's day. -/
theorem exists_skip_of_naive (hclock : s.clock = none) {t : WallTime}
    (ht : t.micros < lastMidnight) :
    ∃ midnight next, WallTime.midnight? (t.day + 1) = some midnight ∧
      s.ofClock? midnight = some midnight ∧
      t.add? (s.step * max (s.stepsTo t midnight) 1) = some next ∧
      midnight.micros ≤ lastMidnight ∧
      ∀ u : WallTime, t.micros ≤ u.micros → u.micros < midnight.micros → u.day = t.day := by
  obtain ⟨hpos, hminute⟩ := tickStep_bounds s.withSeconds
  rw [← s.step_eq] at hpos hminute
  -- a minute behind the last midnight is still in the calendar
  have hroom : lastMidnight + microsPerMinute < calendarEnd := by decide
  obtain ⟨hmorning, hnight⟩ := WallTime.day_eq_iff.mp (rfl : t.day = t.day)
  have hbound : (t.day + 1) * microsPerDay ≤ lastMidnight := by
    simp only [lastMidnight, calendarDays, microsPerDay, microsPerSecond] at ht hmorning ⊢
    omega
  have hnonneg := t.nonneg
  let midnight : WallTime := ⟨(t.day + 1) * microsPerDay, by omega, by omega⟩
  have htarget : midnight.micros + s.step ≤ calendarEnd := by
    change (t.day + 1) * microsPerDay + s.step ≤ calendarEnd
    omega
  have hlast : t.micros + s.step < calendarEnd := by omega
  obtain ⟨next, hnext⟩ := s.exists_add?_skip hlast htarget
  exact ⟨midnight, next, WallTime.ofMicros?_eq_some_iff.mpr rfl, by rw [ofClock?, hclock], hnext,
    hbound, fun u htu hu => WallTime.day_eq_iff.mpr ⟨by omega, hu⟩⟩

/-- Before the last midnight a scan without a clock of its own is faithful. -/
theorem faithful_of_naive (hclock : s.clock = none) (hstop : s.stop.micros ≤ lastMidnight)
    (first : WallTime) : s.Faithful first := by
  have hread := read_of_naive hclock
  obtain ⟨hpos, hminute⟩ := tickStep_bounds s.withSeconds
  rw [← s.step_eq] at hpos hminute
  have hroom : lastMidnight + microsPerMinute < calendarEnd := by decide
  refine ⟨fun t _ _ => ⟨_, hread t⟩, ?_, ?_⟩
  · intro t _ ht
    have := t.nonneg
    exact ⟨⟨t.micros + s.step, by omega, by omega⟩, WallTime.add?_eq_some_iff.mpr rfl⟩
  · intro t shown _ ht hshown hrefused
    rw [hread] at hshown
    obtain rfl := Option.some.inj hshown
    obtain ⟨midnight, next, hmidnight, htarget, hnext, -, hday⟩ :=
      exists_skip_of_naive hclock (Int.lt_of_lt_of_le ht hstop)
    refine ⟨midnight, midnight, next, hmidnight, htarget, hnext, fun u htu hu _ => ?_⟩
    rw [hits_of_naive hclock]
    exact Pattern.admits_eq_false_of_sameDay hrefused (hday u htu hu)

end Scan

/-! ### Enumeration -/

namespace Pattern

variable {settings : Settings} {start stop : DateTime} {count : Int}

/-- In a window without zones, matches are looked for on the only clock that there is. -/
theorem matchedDates_eq_enumerateNaive (p : Pattern) (zones : ZoneTable) (settings : Settings)
    (hstart : start.zone = none) (hstop : stop.zone = none)
    (hlt : start.wall.micros < stop.wall.micros) (hcount : 1 ≤ count) (matchSeconds : Option Bool)
    (timezone : Option ZoneRef) :
    p.matchedDates zones settings (.dateTime start) (some (.dateTime stop)) count matchSeconds
        timezone =
      Window.enumerateNaive ⟨start, stop, count.toNat⟩ p
        (matchSeconds.getD settings.comparesSeconds) settings.tickLimit := by
  have hbefore : start.isBefore stop = true := by
    simp [DateTime.isBefore, DateTime.sharesClock, hstart, hstop, hlt]
  have hwindow := Window.check_eq_ok (by simp [DateTime.isNaive, hstart, hstop]) hcount hbefore
  rw [matchedDates_eq p zones settings hwindow]
  simp only [Window.enumerate, hstart]

/-- The enumeration of a window without zones that ends by the last midnight. -/
theorem matchedDates_of_naive (p : Pattern) (zones : ZoneTable)
    (hcap : settings.tickLimit = none) (hstart : start.zone = none) (hstop : stop.zone = none)
    (hlt : start.wall.micros < stop.wall.micros) (hend : stop.wall.micros ≤ lastMidnight)
    (hcount : 1 ≤ count) (matchSeconds : Option Bool) (timezone : Option ZoneRef) :
    p.matchedDates zones settings (.dateTime start) (some (.dateTime stop)) count matchSeconds
        timezone =
      let withSeconds := matchSeconds.getD settings.comparesSeconds
      .ok {
        dates := (((start.wall.ticksUntil stop.wall (tickStep withSeconds)).filter
          (p.admits withSeconds)).take count.toNat).map .naive
        warning := none } := by
  let withSeconds := matchSeconds.getD settings.comparesSeconds
  let scan : Scan := ⟨p, none, withSeconds, stop.wall⟩
  have hfaithful : scan.Faithful start.wall := Scan.faithful_of_naive rfl hend start.wall
  have hrun := Scan.run_eq_of_faithful hfaithful (scan.gridSize start.wall) count.toNat
    start.wall [] (Int.le_refl _) (Nat.le_refl _) (by omega)
  rw [Scan.hits_of_naive rfl] at hrun
  rw [p.matchedDates_eq_enumerateNaive zones settings hstart hstop hlt hcount, hcap]
  exact Window.enumerateNaive_eq_ok scan rfl hrun

/-- Enumeration in a window without zones returns the first matches, in ascending order,
among all ticks of the window: `matching` is what matching a date and time by itself
answers. -/
theorem matchedDates_naive (p : Pattern) (zones : ZoneTable)
    (hcap : settings.tickLimit = none) (hstart : start.zone = none) (hstop : stop.zone = none)
    (hlt : start.wall.micros < stop.wall.micros) (hend : stop.wall.micros ≤ lastMidnight)
    (hcount : 1 ≤ count) (withSeconds : Bool) (timezone : Option ZoneRef) :
    ∃ matching : DateTime → Bool,
      (∀ d host session,
        Call.outcome (Call.accepts p (.dateTime d) none (some withSeconds)) host session =
          (.ok (matching d), session)) ∧
      p.matchedDates zones settings (.dateTime start) (some (.dateTime stop)) count
          (some withSeconds) timezone =
        .ok {
          dates := (((start.wall.ticksUntil stop.wall (tickStep withSeconds)).map
            .naive).filter matching).take count.toNat
          warning := none } := by
  refine ⟨fun d => p.admits withSeconds d.wall, Call.outcome_accepts_dateTime p withSeconds, ?_⟩
  rw [matchedDates_of_naive p zones hcap hstart hstop hlt hend hcount, List.filter_map,
    ← List.map_take]
  rfl

/-- Noon of 29 February. -/
def leapDayNoon : Pattern where
  expression := "0 12 29 2 *"
  alternatives := [{
    layout := .standard
    minute := .values (.ofList [0])
    hour := .values (.ofList [12])
    dayOfMonth := .values (.ofList [29])
    month := .values (.ofList [2]) }]

/-- From half past 23:59 on 28 February 2024 to 12:05 on the next day: the first tick is
followed by a skip over midnight. -/
theorem matchedDates_naive_leapDayNoon :
    ∃ matching : DateTime → Bool,
      (∀ d host session,
        Call.outcome (Call.accepts leapDayNoon (.dateTime d) none (some false)) host session =
          (.ok (matching d), session)) ∧
      leapDayNoon.matchedDates [] {}
          (.dateTime (.naive ⟨63844761570500000, by decide, by decide⟩))
          (some (.dateTime (.naive ⟨63844805100000000, by decide, by decide⟩))) 3
          (some false) none =
        .ok {
          dates := ((((⟨63844761570500000, by decide, by decide⟩ : WallTime).ticksUntil
            ⟨63844805100000000, by decide, by decide⟩ (tickStep false)).map
              .naive).filter matching).take 3
          warning := none } :=
  matchedDates_naive leapDayNoon [] rfl rfl rfl (by decide) (by decide) (by decide) false none

end Pattern

end CronSchedule
