import CronSchedule.Proofs.Enumerate.Lockstep
import CronSchedule.Proofs.Enumerate.Naive
import CronSchedule.Proofs.Enumerate.Sound

/-!
# Enumerating on a clock at a fixed offset

A clock at a fixed offset runs as the only clock there is does when no zone is known: its
readings are as far apart as the instants.  So an enumeration on such a clock is one without
zones between the two readings that the clock shows at the ends of the window, with the
results carried over to the clock of the start, and this is so for every offset below a day
and whatever the offsets of the two ends are.

What is load-bearing is that both scans skip to the same midnight.  The date is that of the
clock and not that of UTC, and the instant of the midnight is found again from the clock, so
neither offsets with seconds nor a change of the date between the two clocks matter.  The inner
years keep every reading on the way in the calendar.

* `DateTime.shownOn?`, `DateTime.carriedOver?` — readings taken from a clock, and given to one;
* `ClockShows` — a tick and the reading of the clock at it;
* `Scan.lockstep_fixed` — the two scans go side by side;
* `OutcomeCarriesOver` — how the outcomes of the two enumerations belong together;
* `FixedWindow` — a window with fixed offsets in the inner years;
* `Pattern.matchedDates_fixedOffset` — the two enumerations.
-/

namespace CronSchedule

/-! ### Clocks at a fixed offset -/

theorem TimeZone.withinDay_fixed {offset : Int} (h : offset.natAbs < 86400) :
    (TimeZone.fixed offset).rules.WithinDay := by
  refine ⟨?_, fun _ hmem => by cases hmem⟩
  simp only [rules, secondsPerDay]
  omega

namespace DateTime

/-- What the clock of a zone shows at the instant, without the zone. -/
def shownOn? (d : DateTime) (z : TimeZone) : Option DateTime :=
  (d.inZone? z).map fun shown => naive shown.wall

/-- A reading of the clock of one zone, as the clock of another shows it. -/
def carriedOver? (d : DateTime) (z home : TimeZone) : Option DateTime :=
  (⟨d.wall, some z, false⟩ : DateTime).inZone? home

variable {offset : Int} {t w : WallTime} {late : Bool} {d : DateTime}

/-- A clock at a fixed offset has no name by which it could be told from others. -/
theorem inZone?_fixed (offset : Int) (w : WallTime) (late : Bool) (z : TimeZone) :
    (⟨w, some (.fixed offset), late⟩ : DateTime).inZone? z =
      (toUtc? ⟨w, some (.fixed offset), late⟩).bind (ofUtc? z) := by
  cases z <;> rfl

theorem toUtc?_fixed_eq_some_iff :
    toUtc? ⟨w, some (.fixed offset), late⟩ = some t ↔
      w.micros = t.micros + offset * microsPerSecond := by
  have hoffset : (TimeZone.fixed offset).rules.offsetOfWall (TimeZone.unixSeconds w) late =
      offset := rfl
  rw [toUtc?_eq_some_iff, hoffset]
  omega

theorem ofUtc?_fixed_eq_some_iff :
    ofUtc? (.fixed offset) t = some d ↔
      d.wall.micros = t.micros + offset * microsPerSecond ∧
        d = ⟨d.wall, some (.fixed offset), false⟩ := by
  constructor
  · exact ofUtc?_eq_some
  · rintro ⟨hwall, hd⟩
    rw [hd]
    exact congrArg (Option.map _) (WallTime.add?_eq_some_iff.mpr hwall)

end DateTime

/-- The clock at the offset shows the reading at a tick, which is not before the inner years. -/
structure ClockShows (offset : Int) (t w : WallTime) : Prop where
  early : innerStart - microsPerDay < t.micros
  micros_eq : w.micros = t.micros + offset * microsPerSecond

namespace ClockShows

variable {offset : Int} {t w : WallTime}

theorem ofUtc?_eq (h : ClockShows offset t w) :
    DateTime.ofUtc? (.fixed offset) t = some ⟨w, some (.fixed offset), false⟩ :=
  DateTime.ofUtc?_fixed_eq_some_iff.mpr ⟨h.micros_eq, rfl⟩

/-- A span later the clock shows the reading that is a span later. -/
theorem of_add? (h : ClockShows offset t w) {span : Int} (hspan : 0 ≤ span)
    {next shownNext : WallTime} (hnext : t.add? span = some next)
    (hshown : w.add? span = some shownNext) : ClockShows offset next shownNext := by
  have hmicros := WallTime.add?_eq_some_iff.mp hnext
  have hmicros' := WallTime.add?_eq_some_iff.mp hshown
  have hearly := h.early
  have heq := h.micros_eq
  exact ⟨by omega, by omega⟩

/-- Carrying the reading over to another clock shows what that clock does at the tick. -/
theorem carriedOver?_eq (h : ClockShows offset t w) (home : TimeZone) :
    (DateTime.naive w).carriedOver? (.fixed offset) home = DateTime.ofUtc? home t := by
  have hback : DateTime.toUtc? ⟨w, some (.fixed offset), false⟩ = some t :=
    DateTime.toUtc?_fixed_eq_some_iff.mpr h.micros_eq
  rw [DateTime.carriedOver?, DateTime.inZone?_fixed, show (DateTime.naive w).wall = w from rfl,
    hback, Option.bind_some]

/-- The ends of a window are in the order of what the clock shows at them. -/
theorem isBefore_eq {start stop : DateTime} {home other : Int}
    (hstart : start.zone = some (.fixed home)) (hstop : stop.zone = some (.fixed other))
    {first last shownFirst shownLast : WallTime} (hfirst : start.toUtc? = some first)
    (hlast : stop.toUtc? = some last) (h : ClockShows offset first shownFirst)
    (h' : ClockShows offset last shownLast) :
    start.isBefore stop =
      (DateTime.naive shownFirst).isBefore (DateTime.naive shownLast) := by
  have hmicros {d : DateTime} {t : WallTime} (ht : d.toUtc? = some t) :
      d.utcMicros? = some t.micros := by
    obtain ⟨n, hn, hmicros⟩ := Option.bind_eq_some_iff.mp ht
    rw [hn, WallTime.ofMicros?_eq_some_iff.mp hmicros]
  have hshared : start.sharesClock stop = false := by
    rw [DateTime.sharesClock, hstart, hstop]
    rfl
  have hnaive : (DateTime.naive shownFirst).isBefore (DateTime.naive shownLast) =
      decide (shownFirst.micros < shownLast.micros) := rfl
  rw [DateTime.isBefore, hshared, if_neg Bool.false_ne_true, hmicros hfirst, hmicros hlast,
    hnaive, h.micros_eq, h'.micros_eq]
  simp

end ClockShows

/-- In the inner years a date and time at a fixed offset is shown on the clock at another. -/
theorem DateTime.exists_shownOn? {d : DateTime} {other offset : Int}
    (hzone : d.zone = some (.fixed other)) (hother : other.natAbs < 86400)
    (hoffset : offset.natAbs < 86400)
    (hinner : innerStart ≤ d.wall.micros ∧ d.wall.micros ≤ innerEnd) :
    ∃ t w, d.toUtc? = some t ∧ d.shownOn? (.fixed offset) = some (naive w) ∧ t.Inner ∧
      ClockShows offset t w := by
  obtain ⟨wall, zone, late⟩ := d
  obtain rfl : zone = some (.fixed other) := hzone
  obtain ⟨t, ht, htInner⟩ :=
    exists_toUtc? (TimeZone.withinDay_fixed hother) hinner.1 hinner.2 late
  obtain ⟨shown, hshown⟩ := exists_ofUtc? (TimeZone.withinDay_fixed hoffset) htInner
  refine ⟨t, shown.wall, ht, ?_, htInner, htInner.1, (ofUtc?_fixed_eq_some_iff.mp hshown).1⟩
  rw [shownOn?, inZone?_fixed, ht, Option.bind_some, hshown, Option.map_some]

/-! ### The two scans -/

namespace Scan

variable {s s' : Scan} {offset : Int} {t w : WallTime}

/-- Both scans skip to the tick behind the same midnight. -/
theorem exists_skipDay?_fixed (hclock : s.clock = some (.fixed offset))
    (hclock' : s'.clock = none) (hseconds : s'.withSeconds = s.withSeconds)
    (hoffset : offset.natAbs < 86400) (ht : t.Inner) (h : ClockShows offset t w) :
    ∃ next next', s.skipDay? t w = some next ∧ s'.skipDay? w w = some next' ∧
      ClockShows offset next next' := by
  obtain ⟨midnight, target, hmidnight, htarget, -, hbefore⟩ :=
    DateTime.toUtc?_midnight (TimeZone.withinDay_fixed hoffset) ht h.ofUtc?_eq
  have hmicros := DateTime.toUtc?_fixed_eq_some_iff.mp htarget
  have hstep : s'.step = s.step := by rw [s'.step_eq, s.step_eq, hseconds]
  obtain ⟨hpos, hminute⟩ := tickStep_bounds s.withSeconds
  rw [← s.step_eq] at hpos hminute
  -- a day behind the inner years is still far from the end of the calendar
  have hroom : t.micros + s.step < calendarEnd ∧ w.micros + s.step < calendarEnd ∧
      midnight.micros + s.step ≤ calendarEnd := by
    have hlate := ht.bounds.2
    have hday := WallTime.ofMicros?_eq_some_iff.mp hmidnight
    have hmorning := (WallTime.day_eq_iff.mp (rfl : w.day = w.day)).1
    have heq := h.micros_eq
    simp only [calendarEnd, calendarDays, microsPerDay, microsPerMinute, microsPerSecond]
      at hlate hday hmorning heq hminute ⊢
    omega
  obtain ⟨next, hnext⟩ := s.exists_add?_skip hroom.1 (show target.micros + s.step ≤ _ by omega)
  obtain ⟨next', hnext'⟩ := s'.exists_add?_skip (hstep ▸ hroom.2.1) (hstep ▸ hroom.2.2)
  have hcount : s'.stepsTo w midnight = s.stepsTo t target := by
    have hdistance : w.micros - midnight.micros = t.micros - target.micros := by
      rw [h.micros_eq, hmicros]
      omega
    rw [stepsTo, stepsTo, hdistance, hstep]
  refine ⟨next, next', ?_, ?_, ?_⟩
  · simp [skipDay?, hmidnight, ofClock?, hclock, htarget, hnext]
  · simp [skipDay?, hmidnight, ofClock?, hclock', hnext']
  · rw [hcount, hstep] at hnext'
    exact h.of_add? (Int.mul_nonneg (Int.le_of_lt hpos) (by omega)) hnext hnext'

/-- A scan on a clock at a fixed offset goes side by side with one of what the clock shows. -/
theorem lockstep_fixed (hclock : s.clock = some (.fixed offset)) (hclock' : s'.clock = none)
    (hpattern : s'.pattern = s.pattern) (hseconds : s'.withSeconds = s.withSeconds)
    (hoffset : offset.natAbs < 86400) (hinner : s.stop.Inner)
    (hstop : ClockShows offset s.stop s'.stop) : Lockstep s s' (ClockShows offset) where
  pattern_eq := hpattern
  withSeconds_eq := hseconds
  stops_iff h := by
    rw [hstop.micros_eq, h.micros_eq]
    omega
  reads {t w} h _ := by
    refine ⟨⟨w, some (.fixed offset), false⟩, .naive w, ?_, ?_, rfl⟩
    · rw [read_of_clock hclock, h.ofUtc?_eq]
    · rw [read, hclock']
  skips {t w shown} h hlt hread := by
    rw [read_of_clock hclock, h.ofUtc?_eq] at hread
    obtain rfl := Option.some.inj hread
    exact exists_skipDay?_fixed hclock hclock' hseconds hoffset
      ⟨h.early, Int.lt_trans hlt hinner.2⟩ h
  steps {t w} h hlt := by
    obtain ⟨hpos, hminute⟩ := tickStep_bounds s.withSeconds
    rw [← s.step_eq] at hpos hminute
    have hstep : s'.step = s.step := by rw [s'.step_eq, s.step_eq, hseconds]
    have hroom : t.micros + s.step < calendarEnd ∧ w.micros + s.step < calendarEnd := by
      have hlate := WallTime.Inner.bounds ⟨h.early, Int.lt_trans hlt hinner.2⟩
      have heq := h.micros_eq
      simp only [calendarEnd, calendarDays, microsPerDay, microsPerMinute, microsPerSecond]
        at hlate heq hminute ⊢
      omega
    have hnonneg := t.nonneg
    have hnonneg' := w.nonneg
    have hnext : t.add? s.step = some ⟨t.micros + s.step, by omega, hroom.1⟩ :=
      WallTime.add?_eq_some_iff.mpr rfl
    have hnext' : w.add? s.step = some ⟨w.micros + s.step, by omega, hroom.2⟩ :=
      WallTime.add?_eq_some_iff.mpr rfl
    rw [hstep]
    exact ⟨_, _, hnext, hnext', h.of_add? (Int.le_of_lt hpos) hnext hnext'⟩

end Scan

/-! ### The two enumerations -/

/-- Readings without a zone, taken as those of the clock of `z`, are carried over to the clock
of `home`: the dates of an enumeration, and on the clock of UTC the tick that a warning names. -/
structure Enumeration.CarriesOver (z home : TimeZone) (plain found : Enumeration) : Prop where
  dates : plain.dates.mapM (·.carriedOver? z home) = some found.dates
  warning : Option.Rel (fun v w => w.expression = v.expression ∧ w.ticks = v.ticks ∧
    v.next.carriedOver? z .utc = some w.next) plain.warning found.warning

/-- An enumeration without zones and one with zones are refused for the same arguments, or both
succeed and the results are carried over. -/
inductive OutcomeCarriesOver (z home : TimeZone) :
    Except Error Enumeration → Except Error Enumeration → Prop
  | refused (e : ArgumentError) : OutcomeCarriesOver z home (.error (.argument e))
      (.error (.argument e))
  | ok {plain found : Enumeration} : plain.CarriesOver z home found →
      OutcomeCarriesOver z home (.ok plain) (.ok found)

/-- A window between two dates and times at fixed offsets, in the years 2 to 9998, whose
matches are looked for on a clock at a fixed offset. -/
structure FixedWindow (zones : ZoneTable) (timezone : Option ZoneRef) (home offset : Int)
    (start stop : DateTime) : Prop where
  start_zone : start.zone = some (.fixed home)
  home_lt : home.natAbs < 86400
  stop_zone : ∃ other : Int, stop.zone = some (.fixed other) ∧ other.natAbs < 86400
  clock_eq : zones.evaluationZone (.fixed home) timezone = .ok (.fixed offset)
  start_inner : innerStart ≤ start.wall.micros ∧ start.wall.micros ≤ innerEnd
  stop_inner : innerStart ≤ stop.wall.micros ∧ stop.wall.micros ≤ innerEnd

/-- Related values are looked up alike. -/
theorem mapM_eq_of_forall₂ {α β γ : Type} {R : α → β → Prop} {f : α → Option γ}
    {g : β → Option γ} (hfg : ∀ {x y}, R x y → f x = g y) {xs : List α} {ys : List β}
    (h : List.Forall₂ R xs ys) : xs.mapM f = ys.mapM g := by
  induction h with
  | nil => rfl
  | cons hxy _ ih => rw [List.mapM_cons, List.mapM_cons, hfg hxy, ih]

/-- Values that are there for both or for neither stay so. -/
theorem rel_map_of_rel {α β γ δ : Type} {R : α → β → Prop} {S : δ → γ → Prop} {f : α → γ}
    {g : β → δ} (hfg : ∀ {x y}, R x y → S (g y) (f x)) {x : Option α} {y : Option β}
    (h : Option.Rel R x y) : Option.Rel S (y.map g) (x.map f) := by
  cases h with
  | none => exact .none
  | some hxy => exact .some (hfg hxy)

namespace FixedWindow

variable {zones : ZoneTable} {timezone : Option ZoneRef} {home offset : Int}
  {start stop : DateTime}

/-- The offset of the clock is less than a day too. -/
theorem offset_lt (h : FixedWindow zones timezone home offset start stop) :
    offset.natAbs < 86400 := by
  have hclock := h.clock_eq
  cases timezone with
  | none =>
    obtain rfl : home = offset := TimeZone.fixed.inj (Except.ok.inj hclock)
    exact h.home_lt
  | some ref =>
    rw [ZoneTable.evaluationZone] at hclock
    cases ref with
    | offset seconds =>
      rw [ZoneTable.resolve] at hclock
      split at hclock
      · rename_i hlt
        obtain rfl : seconds = offset := TimeZone.fixed.inj (Except.ok.inj hclock)
        exact hlt
      · cases hclock
    | name name =>
      -- a name stands for a zone with rules
      rw [ZoneTable.resolve, ZoneTable.find?] at hclock
      cases hlookup : zones.lookup name with
      | none =>
        rw [hlookup] at hclock
        cases hclock
      | some rules =>
        rw [hlookup] at hclock
        cases hclock

/-- The two scans of such a window succeed and find the same. -/
theorem exists_enumerations (h : FixedWindow zones timezone home offset start stop)
    {first last shownFirst shownLast : WallTime} (hfirst : start.toUtc? = some first)
    (hlast : stop.toUtc? = some last) (hfirstInner : first.Inner) (hlastInner : last.Inner)
    (hshowsFirst : ClockShows offset first shownFirst)
    (hshowsLast : ClockShows offset last shownLast) (p : Pattern) (withSeconds : Bool)
    (cap : Option Nat) {count : Nat} (hcount : 1 ≤ count) :
    ∃ plain found,
      Window.enumerateNaive ⟨.naive shownFirst, .naive shownLast, count⟩ p withSeconds cap =
        .ok plain ∧
      Window.enumerateAware ⟨start, stop, count⟩ (.fixed home) (.fixed offset) p withSeconds cap =
        .ok found ∧
      plain.CarriesOver (.fixed offset) (.fixed home) found := by
  let s : Scan := ⟨p, some (.fixed offset), withSeconds, last⟩
  let s' : Scan := ⟨p, none, withSeconds, shownLast⟩
  have hlockstep : Scan.Lockstep s s' (ClockShows offset) :=
    Scan.lockstep_fixed rfl rfl rfl rfl h.offset_lt hlastInner hshowsLast
  have hgrid : s'.gridSize shownFirst = s.gridSize first := by
    have hdistance : shownFirst.micros - shownLast.micros = first.micros - last.micros := by
      rw [hshowsFirst.micros_eq, hshowsLast.micros_eq]
      omega
    rw [Scan.gridSize, Scan.stepsTo, hdistance]
    rfl
  obtain ⟨result, result', hrun, hrun', hticks, hcut⟩ :=
    hlockstep.run (cap.getD (s.gridSize first)) count hshowsFirst .nil
  -- all ticks found lie in the window, so the clock of the start shows them
  obtain ⟨more, hmore, -, hsub⟩ := Scan.run_sublist _ _ _ _ hrun hcount
  obtain ⟨dates, hdates⟩ : ∃ dates, result.ticks.mapM (DateTime.ofUtc? (.fixed home)) =
      some dates := by
    refine exists_mapM fun t ht => ?_
    rw [hmore, List.reverse_nil, List.nil_append] at ht
    obtain ⟨hle, hlt⟩ :=
      WallTime.bounds_of_mem_ticksUntil s.step_pos (List.mem_filter.mp (hsub.mem ht)).1
    exact DateTime.exists_ofUtc? (TimeZone.withinDay_fixed h.home_lt)
      ⟨Int.lt_of_lt_of_le hfirstInner.1 hle, Int.lt_trans hlt hlastInner.2⟩
  refine ⟨_, _,
    Window.enumerateNaive_of_run s' rfl (congrArg cap.getD hgrid.symm) hrun',
    Window.enumerateAware_of_run hfirst hlast s rfl rfl hrun hdates, ?_, ?_⟩
  · rw [List.mapM_map, ← hdates]
    refine (mapM_eq_of_forall₂ (R := ClockShows offset) (fun hshows => ?_) hticks).symm
    exact (hshows.carriedOver?_eq _).symm
  · refine rel_map_of_rel (fun hshows => ⟨rfl, rfl, ?_⟩) hcut
    rw [hshows.carriedOver?_eq]
    exact DateTime.ofUtc?_fixed_eq_some_iff.mpr ⟨by simp, rfl⟩

end FixedWindow

namespace Pattern

/-- Enumeration on a clock at a fixed offset returns what enumeration without zones returns
between the readings of that clock, carried over to the clock of the start.  The same arguments
are refused, and a limit on ticks ends both scans or neither. -/
theorem matchedDates_fixedOffset {zones : ZoneTable} {timezone : Option ZoneRef}
    {home offset : Int} {start stop : DateTime}
    (h : FixedWindow zones timezone home offset start stop) (p : Pattern) (settings : Settings)
    (count : Int) (matchSeconds : Option Bool) :
    ∃ shownStart shownStop, start.shownOn? (.fixed offset) = some shownStart ∧
      stop.shownOn? (.fixed offset) = some shownStop ∧
      OutcomeCarriesOver (.fixed offset) (.fixed home)
        (p.matchedDates zones settings (.dateTime shownStart) (some (.dateTime shownStop)) count
          matchSeconds none)
        (p.matchedDates zones settings (.dateTime start) (some (.dateTime stop)) count matchSeconds
          timezone) := by
  obtain ⟨other, hother, hotherLt⟩ := h.stop_zone
  obtain ⟨first, shownFirst, hfirst, hshownStart, hfirstInner, hshowsFirst⟩ :=
    DateTime.exists_shownOn? h.start_zone h.home_lt h.offset_lt h.start_inner
  obtain ⟨last, shownLast, hlast, hshownStop, hlastInner, hshowsLast⟩ :=
    DateTime.exists_shownOn? hother hotherLt h.offset_lt h.stop_inner
  refine ⟨.naive shownFirst, .naive shownLast, hshownStart, hshownStop, ?_⟩
  have hkind : start.isNaive = stop.isNaive := by
    simp [DateTime.isNaive, h.start_zone, hother]
  have hkind' : (DateTime.naive shownFirst).isNaive = (DateTime.naive shownLast).isNaive := rfl
  rw [matchedDates, matchedDates, Window.check_eq hkind, Window.check_eq hkind',
    hshowsFirst.isBefore_eq h.start_zone hother hfirst hlast hshowsLast]
  split
  · exact .refused _
  · rename_i hcount
    split
    · obtain ⟨plain, found, hplain, hfound, hcarries⟩ :=
        h.exists_enumerations hfirst hlast hfirstInner hlastInner hshowsFirst hshowsLast p
          (matchSeconds.getD settings.comparesSeconds) settings.tickLimit
          (show 1 ≤ count.toNat by omega)
      rw [ok_bind, ok_bind, Window.enumerate_of_zone h.start_zone h.clock_eq, hfound]
      simp only [Window.enumerate, DateTime.zone_naive, hplain]
      exact .ok hcarries
    · exact .refused _

/-- From midnight of 28 February 2024 eleven hours west of UTC to midnight of 1 March in UTC, on
a clock that is more than twelve hours east of UTC and not by whole minutes, with a limit of
five hundred ticks: the clock shows 29 February almost a day before the start's does. -/
theorem matchedDates_fixedOffset_dateLine :
    ∃ shownStart shownStop,
      DateTime.shownOn? ⟨⟨63844675200000000, by decide, by decide⟩, some (.fixed (-39600)), false⟩
        (.fixed 44434) = some shownStart ∧
      DateTime.shownOn? ⟨⟨63844848000000000, by decide, by decide⟩, some .utc, false⟩
        (.fixed 44434) = some shownStop ∧
      OutcomeCarriesOver (.fixed 44434) (.fixed (-39600))
        (leapDayNoon.matchedDates [] { maxScanTicks := .int 500, ticks_pos := .inr rfl }
          (.dateTime shownStart) (some (.dateTime shownStop)) 2 none none)
        (leapDayNoon.matchedDates [] { maxScanTicks := .int 500, ticks_pos := .inr rfl }
          (.dateTime
            ⟨⟨63844675200000000, by decide, by decide⟩, some (.fixed (-39600)), false⟩)
          (some (.dateTime ⟨⟨63844848000000000, by decide, by decide⟩, some .utc, false⟩)) 2 none
          (some (.offset 44434))) :=
  matchedDates_fixedOffset
    ⟨rfl, by decide, ⟨0, rfl, by decide⟩, rfl, ⟨by decide, by decide⟩, ⟨by decide, by decide⟩⟩
    leapDayNoon _ 2 none

end Pattern

end CronSchedule
