import CronSchedule.Proofs.Calendar.Reading
import CronSchedule.Proofs.Enumerate.Aware
import CronSchedule.Proofs.Enumerate.Naive
import CronSchedule.Proofs.Zone.Midnights
import Mathlib.Order.Bounds.Defs

/-!
# The first tick of another date

A skip does not look at the ticks that it passes over.  It counts whole steps to the instant that
is looked up for the next midnight of the clock, and takes one step at least.  On an orderly clock
that is the first tick on which the clock shows another date: the instant is the one at which the
date is over, so it lies behind the tick, and the quotient rounded up counts the steps to the first
tick that is not before it.

A scan without zones is read here as one on the clock of UTC, which shows the same, so that nothing
is argued twice.  Only the end of the calendar tells them apart: behind the last date there is no
other, and a clock that drops a whole day may drop the last.

* `Scan.zone`, `Scan.map_wall_read`, `Scan.ofClock?_eq` — the clock of a scan;
* `Scan.dateEnd`, `Scan.dayAt_eq_iff_lt_dateEnd` — when the date at a tick is over;
* `Scan.skipDay?_eq` — a skip takes the steps to that instant;
* `Scan.stepsToOtherDate`, `Scan.mem_stepsToOtherDate_iff` — the steps that lead to another date;
* `Scan.skipDay?_isLeast` — a skip takes the least number of these.
-/

namespace CronSchedule.Scan

variable {s : Scan} {t u : WallTime} {shown shown' : DateTime} {k : Int}

/-! ### The clock of a scan -/

/-- The zone on whose clock ticks are read.  Without a zone that of UTC shows the same. -/
def zone (s : Scan) : TimeZone := s.clock.getD .utc

theorem orderly_zone (h : ∀ z ∈ s.clock, z.rules.Orderly) : s.zone.rules.Orderly := by
  rw [zone]
  cases hclock : s.clock with
  | none => exact ZoneRules.orderly_of_fixed (by decide)
  | some z => exact h z hclock

/-- A scan reads at a tick what the clock of its zone shows. -/
theorem map_wall_read (s : Scan) (t : WallTime) :
    (s.read t).map DateTime.wall = (DateTime.ofUtc? s.zone t).map DateTime.wall := by
  rw [zone]
  cases hclock : s.clock with
  | none =>
    have hzero : (TimeZone.utc.rules.offset (TimeZone.unixSeconds t)) * microsPerSecond = 0 := rfl
    rw [read_of_naive hclock, Option.getD_none, DateTime.ofUtc?_eq, hzero]
    simp [WallTime.add?, DateTime.naive]
  | some z => rw [read_of_clock hclock, Option.getD_some]

/-- The instant of a reading is found on that clock. -/
theorem ofClock?_eq (s : Scan) (w : WallTime) :
    s.ofClock? w = DateTime.toUtc? ⟨w, some s.zone, false⟩ := by
  rw [zone]
  cases hclock : s.clock with
  | none => rw [ofClock?, hclock, Option.getD_none, DateTime.toUtc?_utc]
  | some z => rw [ofClock?, hclock, Option.getD_some]

theorem exists_ofUtc?_of_read (h : s.read t = some shown) :
    ∃ d, DateTime.ofUtc? s.zone t = some d ∧ d.wall = shown.wall := by
  have hwall := s.map_wall_read t
  rw [h, Option.map_some] at hwall
  exact Option.map_eq_some_iff.mp hwall.symm

/-- The number of the day at a tick, counted from 1970. -/
def dayAt (s : Scan) (t : WallTime) : Int := s.zone.rules.dayAt (TimeZone.unixSeconds t)

/-- The number of the day that the clock shows, counted from year 1 and from 1970. -/
theorem day_of_read (h : s.read t = some shown) :
    shown.wall.day * secondsPerDay = s.dayAt t * secondsPerDay + unixEpoch := by
  obtain ⟨d, hd, hwall⟩ := exists_ofUtc?_of_read h
  rw [← hwall]
  exact DateTime.day_of_ofUtc? hd

theorem date_eq_iff_dayAt_eq (ht : s.read t = some shown) (hu : s.read u = some shown') :
    shown'.wall.date = shown.wall.date ↔ s.dayAt u = s.dayAt t := by
  have htday := day_of_read ht
  have huday := day_of_read hu
  simp only [secondsPerDay] at htday huday
  rw [WallTime.date, WallTime.date, Date.ofDayNumber_inj]
  omega

/-- There is a reading at every tick whose day is one of the calendar. -/
theorem exists_read (s : Scan) {t : WallTime}
    (hstart : 0 ≤ s.dayAt t * secondsPerDay + unixEpoch)
    (hend : s.dayAt t * secondsPerDay + unixEpoch < calendarDays * secondsPerDay) :
    ∃ shown, s.read t = some shown := by
  have hdef : s.dayAt t = (TimeZone.unixSeconds t +
    s.zone.rules.offset (TimeZone.unixSeconds t)) / secondsPerDay := rfl
  have hread := s.map_wall_read t
  rw [DateTime.ofUtc?_eq] at hread
  generalize s.zone.rules.offset (TimeZone.unixSeconds t) = offset at hdef hread
  have hshown : 0 ≤ t.micros + offset * microsPerSecond ∧
      t.micros + offset * microsPerSecond < calendarEnd := by
    simp only [TimeZone.unixSeconds, unixEpoch, secondsPerDay, calendarEnd, calendarDays,
      microsPerDay, microsPerSecond] at hstart hend hdef ⊢
    omega
  have hwall : t.add? (offset * microsPerSecond) = some ⟨_, hshown.1, hshown.2⟩ :=
    WallTime.add?_eq_some_iff.mpr rfl
  rw [hwall] at hread
  obtain ⟨shown, hshown, -⟩ := Option.map_eq_some_iff.mp hread
  exact ⟨shown, hshown⟩

/-! ### When a date is over -/

/-- The instant, in microseconds, at which the midnight behind a tick is first shown. -/
def dateEnd (s : Scan) (t : WallTime) : Int :=
  (s.zone.rules.firstReading ((s.dayAt t + 1) * secondsPerDay) + unixEpoch) * microsPerSecond

/-- The whole steps from a tick to the first that is not before this instant. -/
def stepsToDateEnd (s : Scan) (t : WallTime) : Int := -((t.micros - s.dateEnd t) / s.step)

theorem stepsToDateEnd_le_iff :
    s.stepsToDateEnd t ≤ k ↔ s.dateEnd t ≤ t.micros + s.step * k := by
  rw [← Int.not_lt, ← Int.not_lt, stepsToDateEnd, WallTime.lt_neg_ediv_iff s.step_pos]

/-- On an orderly clock dates only advance. -/
theorem dayAt_le_of_le (h : s.zone.rules.Orderly) (hle : t.micros ≤ u.micros) :
    s.dayAt t ≤ s.dayAt u :=
  h.dayAt_le (TimeZone.unixSeconds_le hle)

/-- On an orderly clock the date at a tick is over from this instant on, and no earlier. -/
theorem dayAt_eq_iff_lt_dateEnd (h : s.zone.rules.Orderly) (hle : t.micros ≤ u.micros) :
    s.dayAt u = s.dayAt t ↔ u.micros < s.dateEnd t := by
  rw [dayAt, dayAt, h.dayAt_eq_iff (TimeZone.unixSeconds_le hle), dateEnd, dayAt]
  simp only [TimeZone.unixSeconds, microsPerSecond]
  omega

theorem lt_dateEnd (h : s.zone.rules.Orderly) (t : WallTime) : t.micros < s.dateEnd t :=
  (dayAt_eq_iff_lt_dateEnd h (Int.le_refl _)).mp rfl

/-- Within a minute from this instant on the date is two days later at most: the second before is
still of the date at the tick. -/
theorem dayAt_le_add_two (h : s.zone.rules.Orderly) (hreached : s.dateEnd t ≤ u.micros)
    (hnear : u.micros ≤ s.dateEnd t + microsPerMinute) : s.dayAt u ≤ s.dayAt t + 2 := by
  have hbehind := lt_dateEnd h t
  obtain ⟨ended, hended, hfound⟩ : ∃ ended,
      s.zone.rules.firstReading ((s.dayAt t + 1) * secondsPerDay) = ended ∧
        s.dateEnd t = (ended + unixEpoch) * microsPerSecond := ⟨_, rfl, rfl⟩
  have hsame : s.zone.rules.dayAt (ended - 1) = s.dayAt t := by
    refine (h.dayAt_eq_iff ?_).mpr ?_
    · simp only [TimeZone.unixSeconds, microsPerSecond] at hfound ⊢
      omega
    · rw [← dayAt, hended]
      omega
  rw [← hsame]
  refine h.dayAt_le_add_two ?_ ?_
  all_goals
    simp only [TimeZone.unixSeconds, secondsPerDay, microsPerMinute, microsPerSecond] at *
    omega

theorem one_le_stepsToDateEnd (h : s.zone.rules.Orderly) (t : WallTime) :
    1 ≤ s.stepsToDateEnd t := by
  refine Int.not_lt.mp fun hlt => ?_
  have hnone : s.stepsToDateEnd t ≤ 0 := by omega
  rw [stepsToDateEnd_le_iff, Int.mul_zero, Int.add_zero] at hnone
  have := lt_dateEnd h t
  omega

/-- The instant lies an offset away from the midnight. -/
theorem dateEnd_eq (hread : s.read t = some shown) :
    s.dateEnd t = (shown.wall.day + 1) * microsPerDay -
      s.zone.rules.offsetOfWall ((s.dayAt t + 1) * secondsPerDay) false * microsPerSecond := by
  obtain ⟨d, hd, hwall⟩ := exists_ofUtc?_of_read hread
  rw [← hwall]
  exact DateTime.firstReading_midnight hd

/-- On an orderly clock a skip takes the steps to the instant at which the date is over. -/
theorem skipDay?_eq (h : s.zone.rules.Orderly) (hread : s.read t = some shown)
    (hlast : shown.wall.micros < lastMidnight) :
    s.skipDay? t shown.wall = t.add? (s.step * s.stepsToDateEnd t) := by
  obtain ⟨d, hd, hwall⟩ := exists_ofUtc?_of_read hread
  have hnext : d.wall.day + 1 < calendarDays := by
    rw [hwall]
    simp only [WallTime.day, lastMidnight, calendarDays, microsPerDay, microsPerSecond] at hlast ⊢
    omega
  have hstart : 0 ≤ s.dateEnd t := Int.le_of_lt (Int.lt_of_le_of_lt t.nonneg (lt_dateEnd h t))
  obtain ⟨midnight, target, hmidnight, htarget, hmicros⟩ :=
    DateTime.exists_midnight h.withinDay hd hnext hstart
  rw [hwall] at hmidnight
  rw [← ofClock?_eq] at htarget
  -- the target lies behind the tick, so one step at least is taken anyway
  have hsteps : max (s.stepsTo t target) 1 = s.stepsToDateEnd t := by
    rw [stepsTo, hmicros]
    exact Int.max_eq_left (one_le_stepsToDateEnd h t)
  simp only [skipDay?, hmidnight, htarget, Option.bind_eq_bind, Option.bind_some, hsteps]

/-! ### The first tick of another date -/

/-- The numbers of steps that lead from a tick to one on which the clock shows another date. -/
def stepsToOtherDate (s : Scan) (tick : WallTime) : Set Int :=
  {k | 1 ≤ k ∧ ∃ next shown shown', tick.add? (s.step * k) = some next ∧
    s.read tick = some shown ∧ s.read next = some shown' ∧ shown'.wall.date ≠ shown.wall.date}

theorem le_add_step_mul (s : Scan) (t : WallTime) (hk : 0 ≤ k) :
    t.micros ≤ t.micros + s.step * k := by
  have := Int.mul_nonneg (Int.le_of_lt s.step_pos) hk
  omega

/-- They are the steps by which the date is over, as long as the clock shows a reading then. -/
theorem mem_stepsToOtherDate_iff (h : s.zone.rules.Orderly) (hread : s.read t = some shown) :
    k ∈ s.stepsToOtherDate t ↔ s.stepsToDateEnd t ≤ k ∧
      ∃ next shown', t.add? (s.step * k) = some next ∧ s.read next = some shown' := by
  have hone := one_le_stepsToDateEnd h t
  have hdate {next : WallTime} {shown' : DateTime} (hk : 1 ≤ k)
      (hnext : t.add? (s.step * k) = some next) (hread' : s.read next = some shown') :
      shown'.wall.date ≠ shown.wall.date ↔ s.stepsToDateEnd t ≤ k := by
    have hmicros := WallTime.add?_eq_some_iff.mp hnext
    have hle : t.micros ≤ next.micros := hmicros ▸ s.le_add_step_mul t (by omega)
    rw [Ne, date_eq_iff_dayAt_eq hread hread', dayAt_eq_iff_lt_dateEnd h hle, Int.not_lt,
      hmicros, stepsToDateEnd_le_iff]
  constructor
  · rintro ⟨hk, next, first, shown', hnext, hfirst, hread', hother⟩
    obtain rfl := Option.some.inj (hfirst.symm.trans hread)
    exact ⟨(hdate hk hnext hread').mp hother, next, shown', hnext, hread'⟩
  · rintro ⟨hle, next, shown', hnext, hread'⟩
    have hk : 1 ≤ k := Int.le_trans hone hle
    exact ⟨hk, next, shown, shown', hnext, hread, hread', (hdate hk hnext hread').mpr hle⟩

/-- No steps lead from the last date of the calendar to another. -/
theorem lt_lastMidnight_of_mem (h : s.zone.rules.Orderly) (hread : s.read t = some shown)
    (hk : k ∈ s.stepsToOtherDate t) : shown.wall.micros < lastMidnight := by
  obtain ⟨hone, next, first, shown', hnext, hfirst, hread', hother⟩ := hk
  obtain rfl := Option.some.inj (hfirst.symm.trans hread)
  have hle := s.le_add_step_mul t (k := k) (by omega)
  have hmicros := WallTime.add?_eq_some_iff.mp hnext
  have hlater := dayAt_le_of_le h (show t.micros ≤ next.micros by omega)
  have hday := day_of_read hread
  have hday' := day_of_read hread'
  have hne : shown'.wall.day ≠ first.wall.day := fun heq =>
    hother (congrArg Date.ofDayNumber heq)
  have hlt := shown'.wall.day_lt
  simp only [WallTime.day, lastMidnight, calendarDays, secondsPerDay, microsPerDay,
    microsPerSecond] at *
  omega

/-- The steps by which the date is over lead to another date, if that is one of the calendar. -/
theorem stepsToDateEnd_mem (h : s.zone.rules.Orderly) (hread : s.read t = some shown)
    (hu : u.micros = t.micros + s.step * s.stepsToDateEnd t)
    (hend : s.dayAt u * secondsPerDay + unixEpoch < calendarDays * secondsPerDay) :
    s.stepsToDateEnd t ∈ s.stepsToOtherDate t := by
  have hone := one_le_stepsToDateEnd h t
  have hle := s.le_add_step_mul t (k := s.stepsToDateEnd t) (by omega)
  have hday := day_of_read hread
  have hstart := shown.wall.day_nonneg
  have hlater := dayAt_le_of_le h (show t.micros ≤ u.micros by omega)
  simp only [secondsPerDay] at hday hend
  obtain ⟨shown', hread'⟩ := s.exists_read (t := u) (by simp only [secondsPerDay]; omega) hend
  exact (mem_stepsToOtherDate_iff h hread).mpr
    ⟨Int.le_refl _, u, shown', WallTime.add?_eq_some_iff.mpr hu, hread'⟩

/-- Where any steps lead to another date, these are the least. -/
theorem isLeast_stepsToDateEnd (h : s.zone.rules.Orderly) (hread : s.read t = some shown)
    (hsome : (s.stepsToOtherDate t).Nonempty) :
    IsLeast (s.stepsToOtherDate t) (s.stepsToDateEnd t) := by
  refine ⟨?_, fun j hj => ((mem_stepsToOtherDate_iff h hread).mp hj).1⟩
  obtain ⟨k, hk⟩ := hsome
  obtain ⟨hle, later, shown', hlater, hread'⟩ := (mem_stepsToOtherDate_iff h hread).mp hk
  -- the tick and its date do not lie behind those that `k` steps lead to
  have hone := one_le_stepsToDateEnd h t
  have hlower := s.le_add_step_mul t (k := s.stepsToDateEnd t) (by omega)
  have hupper := Int.mul_le_mul_of_nonneg_left hle (Int.le_of_lt s.step_pos)
  have hmicros := WallTime.add?_eq_some_iff.mp hlater
  have hstart := t.nonneg
  have hend := later.lt_end
  let next : WallTime := ⟨t.micros + s.step * s.stepsToDateEnd t, by omega, by omega⟩
  have hearlier := dayAt_le_of_le (t := next) (u := later) h (by simp only [next]; omega)
  have hday := day_of_read hread'
  have hlt := shown'.wall.day_lt
  refine stepsToDateEnd_mem (u := next) h hread rfl ?_
  simp only [secondsPerDay] at hday ⊢
  omega

/-- The steps by which the date is over lead to a tick less than a step behind its end. -/
theorem exists_add?_stepsToDateEnd (h : s.zone.rules.Orderly)
    (hend : s.dateEnd t + s.step ≤ calendarEnd) :
    ∃ next, t.add? (s.step * s.stepsToDateEnd t) = some next ∧
      next.micros < s.dateEnd t + s.step := by
  have hone := one_le_stepsToDateEnd h t
  have hlower := s.le_add_step_mul t (k := s.stepsToDateEnd t) (by omega)
  have hfewer : ¬ s.stepsToDateEnd t ≤ s.stepsToDateEnd t - 1 := by omega
  rw [stepsToDateEnd_le_iff, Int.mul_sub, Int.mul_one] at hfewer
  have hnonneg := t.nonneg
  exact ⟨⟨t.micros + s.step * s.stepsToDateEnd t, by omega, by omega⟩,
    WallTime.add?_eq_some_iff.mpr rfl, by simp only; omega⟩

/-- Without zones there is another date behind every tick before the last midnight. -/
theorem stepsToOtherDate_nonempty_of_naive (hclock : s.clock = none)
    (hlast : t.micros < lastMidnight) : (s.stepsToOtherDate t).Nonempty := by
  have h : s.zone.rules.Orderly := orderly_zone fun z hz => by
    rw [hclock] at hz
    cases hz
  have hread := read_of_naive hclock t
  have heq := dateEnd_eq hread
  have hzero : s.zone.rules.offsetOfWall ((s.dayAt t + 1) * secondsPerDay) false = 0 := by
    rw [zone, hclock]
    rfl
  rw [hzero] at heq
  obtain ⟨hpos, hminute⟩ := tickStep_bounds s.withSeconds
  rw [← s.step_eq] at hpos hminute
  have hend : s.dateEnd t + s.step ≤ calendarEnd := by
    simp only [DateTime.naive, WallTime.day, lastMidnight, calendarEnd, calendarDays, microsPerDay,
      microsPerMinute, microsPerSecond] at *
    omega
  obtain ⟨next, hnext, -⟩ := exists_add?_stepsToDateEnd h hend
  exact ⟨_, (mem_stepsToOtherDate_iff h hread).mpr
    ⟨Int.le_refl _, next, _, hnext, read_of_naive hclock next⟩⟩

/-- On an orderly clock there is another date behind every tick that is shown before the last
midnight but one: the date behind it may be missing, the one behind that is not. -/
theorem stepsToOtherDate_nonempty_of_lt (h : s.zone.rules.Orderly) (hread : s.read t = some shown)
    (hlast : shown.wall.micros < lastMidnight - microsPerDay) :
    (s.stepsToOtherDate t).Nonempty := by
  have heq := dateEnd_eq hread
  have hday := day_of_read hread
  have hback := h.withinDay.offsetOfWall ((s.dayAt t + 1) * secondsPerDay) false
  have hminute := (tickStep_bounds s.withSeconds).2
  rw [← s.step_eq] at hminute
  have hroom : shown.wall.day + 2 < calendarDays := by
    simp only [WallTime.day, lastMidnight, calendarDays, microsPerDay, microsPerSecond] at *
    omega
  have hend : s.dateEnd t + s.step ≤ calendarEnd := by
    simp only [calendarEnd, calendarDays, secondsPerDay, microsPerDay, microsPerMinute,
      microsPerSecond] at *
    omega
  obtain ⟨next, hnext, hnear⟩ := exists_add?_stepsToDateEnd h hend
  have hmicros := WallTime.add?_eq_some_iff.mp hnext
  have hreached : s.dateEnd t ≤ next.micros :=
    hmicros ▸ stepsToDateEnd_le_iff.mp (Int.le_refl _)
  have htwo : s.dayAt next ≤ s.dayAt t + 2 := dayAt_le_add_two h hreached (by omega)
  refine ⟨_, stepsToDateEnd_mem (u := next) h hread hmicros ?_⟩
  simp only [secondsPerDay] at hday ⊢
  omega

/-- On an orderly clock, and without zones, a skip takes the least number of steps that lead to
another date, whenever any do.  Without zones some do before the last date of the calendar.  With
zones that date may be dropped as a whole, and some do before the last but one. -/
theorem skipDay?_isLeast (s : Scan) (horderly : ∀ z ∈ s.clock, z.rules.Orderly)
    {tick : WallTime} {shown : DateTime} (hread : s.read tick = some shown) :
    (s.clock = none ∧ tick.micros < lastMidnight ∨
        shown.wall.micros < lastMidnight - microsPerDay →
      (s.stepsToOtherDate tick).Nonempty) ∧
    ((s.stepsToOtherDate tick).Nonempty →
      ∃ k next, IsLeast (s.stepsToOtherDate tick) k ∧ tick.add? (s.step * k) = some next ∧
        s.skipDay? tick shown.wall = some next) := by
  have h := orderly_zone horderly
  refine ⟨?_, fun hsome => ?_⟩
  · rintro (⟨hclock, hlast⟩ | hlast)
    · exact stepsToOtherDate_nonempty_of_naive hclock hlast
    · exact stepsToOtherDate_nonempty_of_lt h hread hlast
  · have hleast := isLeast_stepsToDateEnd h hread hsome
    obtain ⟨-, next, -, -, hnext, -⟩ := hleast.1
    refine ⟨_, next, hleast, hnext, ?_⟩
    rw [skipDay?_eq h hread (lt_lastMidnight_of_mem h hread hleast.1), hnext]

/-- The clock of a place that moved to the other side of the date line: at the midnight that began
30 December 2011 it went on to the next midnight. -/
def overDateLine : TimeZone :=
  .named "Pacific/Apia" ⟨-39600, [⟨1316872800, -36000⟩, ⟨1325239200, 50400⟩, ⟨1333202400, 46800⟩]⟩

/-- From half past 23:58 on 29 December two minutes lead to 31 December. -/
theorem skipDay?_isLeast_overDateLine :
    let stop : WallTime := ⟨63460886400000000, by decide, by decide⟩
    let s : Scan := ⟨.leapDayNoon, some overDateLine, false, stop⟩
    let tick : WallTime := ⟨63460835910500000, by decide, by decide⟩
    let next : WallTime := ⟨63460836030500000, by decide, by decide⟩
    overDateLine.rules.Orderly ∧
      ∃ shown, s.read tick = some shown ∧ shown.wall.micros < lastMidnight - microsPerDay ∧
        IsLeast (s.stepsToOtherDate tick) 2 ∧ s.skipDay? tick shown.wall = some next := by
  intro stop s tick next
  have horderly : overDateLine.rules.Orderly :=
    ⟨⟨by decide, by decide⟩, by decide, by decide⟩
  let shown : DateTime := ⟨⟨63460799910500000, by decide, by decide⟩, some overDateLine, false⟩
  have hread : s.read tick = some shown := by decide
  have hlast : shown.wall.micros < lastMidnight - microsPerDay := by decide
  have hskip : s.skipDay? tick shown.wall = some next := by decide
  have hclock : ∀ z ∈ s.clock, z.rules.Orderly := by
    rintro z hz
    obtain rfl := Option.some.inj hz
    exact horderly
  obtain ⟨hsome, hleast⟩ := skipDay?_isLeast s hclock hread
  obtain ⟨k, later, hk, hlater, hfound⟩ := hleast (hsome (.inr hlast))
  obtain rfl := Option.some.inj (hskip.symm.trans hfound)
  have hsteps := WallTime.add?_eq_some_iff.mp hlater
  have hminute : s.step = 60000000 := rfl
  obtain rfl : k = 2 := by
    simp only [hminute, next, tick] at hsteps
    omega
  exact ⟨horderly, shown, hread, hlast, hk, hskip⟩

end CronSchedule.Scan
