import CronSchedule.Proofs.Enumerate.Window
import CronSchedule.Proofs.Zone.Clock

/-!
# Enumerating with zones

With zones the ticks are instants, and what is tested is what the clock of a zone shows at
them.  A skip leads to the instant at which that clock first shows the next midnight, so a
scan is faithful when up to this instant the clock keeps its date.  Zones whose clock is
set back behind a midnight, or forward over one, break this, and some enumeration then
misses a match.

* `Pattern.plainDates?` — the first matches among all ticks of a window;
* `AwareWindow` — a window with zones in the inner years;
* `Scan.faithful_of_keepsDates` — on a clock that keeps its dates a scan is faithful;
* `TimeZone.EnumeratesPlainly` — all enumerations on a clock return the matches among all
  ticks;
* `TimeZone.enumeratesPlainly_iff` — they do exactly when no change of the clock crosses a
  midnight.
-/

namespace CronSchedule

/-! ### The matches of a window -/

/-- Whether the clock of a zone shows a match at an instant. -/
def Pattern.admitsAt (p : Pattern) (clock : TimeZone) (withSeconds : Bool) (t : WallTime) : Bool :=
  (DateTime.ofUtc? clock t).any fun shown => p.admits withSeconds shown.wall

/-- The first matches among all ticks from `start` up to `stop`, looked for on the clock of
one zone and written on that of another. -/
def Pattern.plainDates? (p : Pattern) (home clock : TimeZone) (start stop : DateTime)
    (count : Nat) (withSeconds : Bool) : Option (List DateTime) := do
  let first ← start.toUtc?
  let last ← stop.toUtc?
  let ticks := (first.ticksUntil last (tickStep withSeconds)).filter (p.admitsAt clock withSeconds)
  (ticks.take count).mapM (DateTime.ofUtc? home)

theorem Pattern.plainDates?_eq {p : Pattern} {home clock : TimeZone} {start stop : DateTime}
    {first last : WallTime} (hfirst : start.toUtc? = some first) (hlast : stop.toUtc? = some last)
    (count : Nat) (withSeconds : Bool) :
    p.plainDates? home clock start stop count withSeconds =
      (((first.ticksUntil last (tickStep withSeconds)).filter
        (p.admitsAt clock withSeconds)).take count).mapM (DateTime.ofUtc? home) := by
  rw [plainDates?, hfirst, hlast]
  rfl

/-- The zone on whose clock matches are looked for: the one of the call, or else that of the
start. -/
def ZoneTable.evaluationZone (zones : ZoneTable) (home : TimeZone) :
    Option ZoneRef → Except Error TimeZone
  | none => .ok home
  | some ref => zones.resolve ref

/-- The enumeration of a window with zones is one on the clock of that zone. -/
theorem Window.enumerate_of_zone {w : Window} {zones : ZoneTable} {settings : Settings}
    {home clock : TimeZone} {timezone : Option ZoneRef} (hhome : w.start.zone = some home)
    (hclock : zones.evaluationZone home timezone = .ok clock) (p : Pattern)
    (matchSeconds : Option Bool) :
    w.enumerate zones settings p matchSeconds timezone =
      w.enumerateAware home clock p (matchSeconds.getD settings.comparesSeconds)
        settings.tickLimit := by
  simp only [enumerate, hhome]
  cases timezone with
  | none =>
    rw [ZoneTable.evaluationZone] at hclock
    rw [← Except.ok.inj hclock]
    rfl
  | some ref =>
    rw [ZoneTable.evaluationZone] at hclock
    simp only [hclock, ok_bind]

/-- A window between two dates and times with zones, in the years 2 to 9998, whose matches
are looked for on the clock of `clock`. -/
structure AwareWindow (zones : ZoneTable) (timezone : Option ZoneRef) (home clock : TimeZone)
    (start stop : DateTime) : Prop where
  start_zone : start.zone = some home
  home_withinDay : home.rules.WithinDay
  stop_zone : ∃ z : TimeZone, stop.zone = some z ∧ z.rules.WithinDay
  clock_eq : zones.evaluationZone home timezone = .ok clock
  start_inner : innerStart ≤ start.wall.micros ∧ start.wall.micros ≤ innerEnd
  stop_inner : innerStart ≤ stop.wall.micros ∧ stop.wall.micros ≤ innerEnd
  before : start.isBefore stop = true

theorem exists_mapM {α β : Type} {f : α → Option β} {xs : List α}
    (h : ∀ x ∈ xs, ∃ y, f x = some y) : ∃ ys, xs.mapM f = some ys := by
  induction xs with
  | nil => exact ⟨[], List.mapM_nil⟩
  | cons x xs ih =>
    obtain ⟨y, hy⟩ := h x List.mem_cons_self
    obtain ⟨ys, hys⟩ := ih fun z hz => h z (List.mem_cons_of_mem x hz)
    exact ⟨y :: ys, by rw [List.mapM_cons, hy, hys]; rfl⟩

/-! ### The scan -/

namespace Scan

variable {s : Scan} {z : TimeZone} {first : WallTime}

theorem read_of_clock (hclock : s.clock = some z) (t : WallTime) :
    s.read t = DateTime.ofUtc? z t := by
  simp only [read, hclock]

theorem hits_eq_admitsAt (hclock : s.clock = some z) :
    s.hits = s.pattern.admitsAt z s.withSeconds := by
  funext t
  rw [hits, read_of_clock hclock, Pattern.admitsAt]

/-- On a clock that keeps its dates a scan is faithful. -/
theorem faithful_of_keepsDates (hclock : s.clock = some z) (hz : z.rules.WithinDay)
    (hkeeps : z.rules.KeepsDates) (hfirst : first.Inner) (hstop : s.stop.Inner) :
    s.Faithful first := by
  have hinner (t : WallTime) (hge : first.micros ≤ t.micros) (hlt : t.micros < s.stop.micros) :
      t.Inner := ⟨Int.lt_of_lt_of_le hfirst.1 hge, Int.lt_trans hlt hstop.2⟩
  obtain ⟨hpos, hminute⟩ := tickStep_bounds s.withSeconds
  rw [← s.step_eq] at hpos hminute
  have hroom : innerEnd + microsPerDay + microsPerMinute < calendarEnd := by decide
  refine ⟨fun t hge hlt => ?_, fun t hge hlt => ?_, ?_⟩
  · rw [read_of_clock hclock]
    exact DateTime.exists_ofUtc? hz (hinner t hge hlt)
  · have := t.nonneg
    have := (hinner t hge hlt).2
    exact ⟨⟨t.micros + s.step, by omega, by omega⟩, WallTime.add?_eq_some_iff.mpr rfl⟩
  · intro t shown hge hlt hshown hrefused
    rw [read_of_clock hclock] at hshown
    have ht := hinner t hge hlt
    obtain ⟨midnight, target, hmidnight, htarget, hmicros, hbefore⟩ :=
      DateTime.toUtc?_midnight hz ht hshown
    have hlast : t.micros + s.step < calendarEnd := by
      have := ht.2
      omega
    have htargetStep : target.micros + s.step ≤ calendarEnd := by omega
    obtain ⟨next, hnext⟩ := s.exists_add?_skip hlast htargetStep
    refine ⟨midnight, target, next, hmidnight, by rw [ofClock?, hclock]; exact htarget, hnext, ?_⟩
    intro u htu hu hustop
    obtain ⟨shown', hshown'⟩ := DateTime.exists_ofUtc? hz (hinner u (by omega) hustop)
    -- up to the target the clock keeps its date
    have hdates : z.rules.dayAt (TimeZone.unixSeconds u) =
        z.rules.dayAt (TimeZone.unixSeconds t) := by
      refine hkeeps _ _ ?_ ?_
      · simp only [TimeZone.unixSeconds, microsPerSecond]
        omega
      · simp only [TimeZone.unixSeconds, microsPerSecond] at hmicros ⊢
        omega
    have hday : shown'.wall.day = shown.wall.day := by
      have hu := DateTime.day_of_ofUtc? hshown'
      have ht := DateTime.day_of_ofUtc? hshown
      rw [hdates] at hu
      simp only [secondsPerDay] at hu ht
      omega
    rw [hits_eq_of_read (by rw [read_of_clock hclock]; exact hshown')]
    exact Pattern.admits_eq_false_of_sameDay hrefused hday

/-- A scan that refuses its first tick, and whose clock first shows the next midnight at the
stop or behind it, finds nothing. -/
theorem run_eq_of_refused (hclock : s.clock = some z) (hz : z.rules.WithinDay)
    (hfirst : first.Inner) (hlt : first.micros < s.stop.micros) {shown : DateTime}
    (hshown : DateTime.ofUtc? z first = some shown)
    (hrefused : s.pattern.acceptsDate (shown.wall.reading s.withSeconds) = some false)
    (hlate : s.stop.micros ≤ (z.rules.firstReading
      ((z.rules.dayAt (TimeZone.unixSeconds first) + 1) * secondsPerDay) + unixEpoch) *
        microsPerSecond) (wanted : Nat) :
    s.run (s.gridSize first) wanted first [] = .ok ⟨[], none⟩ := by
  obtain ⟨hpos, hminute⟩ := tickStep_bounds s.withSeconds
  rw [← s.step_eq] at hpos hminute
  obtain ⟨midnight, target, hmidnight, htarget, hmicros, hbefore⟩ :=
    DateTime.toUtc?_midnight hz hfirst hshown
  have hroom : innerEnd + microsPerDay + microsPerMinute < calendarEnd := by decide
  have hlast : first.micros + s.step < calendarEnd := by
    have := hfirst.2
    omega
  have htargetStep : target.micros + s.step ≤ calendarEnd := by omega
  obtain ⟨next, hnext⟩ := s.exists_add?_skip hlast htargetStep
  have hskip : s.skipDay? first shown.wall = some next := by
    simp [skipDay?, hmidnight, ofClock?, hclock, htarget, hnext]
  have hstop : s.stop.micros ≤ next.micros := by
    have := le_of_add?_skip hnext
    omega
  have hread : s.read first = some shown := by rw [read_of_clock hclock, hshown]
  obtain ⟨budget, hbudget⟩ := s.exists_gridSize hlt
  rw [hbudget, run_of_refused hlt hread hrefused hskip, run_of_le hstop, List.reverse_nil]

end Scan

/-! ### Windows -/

namespace AwareWindow

variable {zones : ZoneTable} {timezone : Option ZoneRef} {home clock : TimeZone}
  {start stop : DateTime}

/-- The instants of the ends of a window are near the inner years. -/
theorem exists_toUtc? (h : AwareWindow zones timezone home clock start stop) :
    ∃ first last, start.toUtc? = some first ∧ stop.toUtc? = some last ∧
      first.Inner ∧ last.Inner := by
  obtain ⟨startWall, startZone, startLate⟩ := start
  obtain ⟨stopWall, stopZone, stopLate⟩ := stop
  obtain ⟨other, hother, hwithinDay⟩ := h.stop_zone
  obtain rfl : startZone = some home := h.start_zone
  obtain rfl : stopZone = some other := hother
  obtain ⟨first, hfirst, hfirstInner⟩ :=
    DateTime.exists_toUtc? h.home_withinDay h.start_inner.1 h.start_inner.2 startLate
  obtain ⟨last, hlast, hlastInner⟩ :=
    DateTime.exists_toUtc? hwithinDay h.stop_inner.1 h.stop_inner.2 stopLate
  exact ⟨first, last, hfirst, hlast, hfirstInner, hlastInner⟩

/-- Enumeration in such a window. -/
theorem matchedDates_eq (h : AwareWindow zones timezone home clock start stop) (p : Pattern)
    {settings : Settings} (hcap : settings.tickLimit = none) {count : Int} (hcount : 1 ≤ count)
    (withSeconds : Bool) :
    p.matchedDates zones settings (.dateTime start) (some (.dateTime stop)) count
        (some withSeconds) timezone =
      Window.enumerateAware ⟨start, stop, count.toNat⟩ home clock p withSeconds none := by
  obtain ⟨other, hother, -⟩ := h.stop_zone
  have hkind : start.isNaive = stop.isNaive := by
    simp [DateTime.isNaive, h.start_zone, hother]
  have hwindow := Window.check_eq_ok hkind hcount h.before
  rw [Pattern.matchedDates_eq p zones settings hwindow,
    Window.enumerate_of_zone h.start_zone h.clock_eq, hcap, Option.getD_some]

/-- On a clock that keeps its dates enumeration returns the matches among all ticks. -/
theorem matchedDates_of_keepsDates (h : AwareWindow zones timezone home clock start stop)
    (hwithinDay : clock.rules.WithinDay) (hkeeps : clock.rules.KeepsDates) (p : Pattern)
    {settings : Settings} (hcap : settings.tickLimit = none) {count : Int} (hcount : 1 ≤ count)
    (withSeconds : Bool) :
    ∃ dates, p.plainDates? home clock start stop count.toNat withSeconds = some dates ∧
      p.matchedDates zones settings (.dateTime start) (some (.dateTime stop)) count
        (some withSeconds) timezone = .ok ⟨dates, none⟩ := by
  obtain ⟨first, last, hfirst, hlast, hfirstInner, hlastInner⟩ := h.exists_toUtc?
  let scan : Scan := ⟨p, some clock, withSeconds, last⟩
  have hfaithful : scan.Faithful first :=
    Scan.faithful_of_keepsDates rfl hwithinDay hkeeps hfirstInner hlastInner
  have hrun := Scan.run_eq_of_faithful hfaithful (scan.gridSize first) count.toNat first []
    (Int.le_refl _) (Nat.le_refl _) (by omega)
  rw [Scan.hits_eq_admitsAt rfl, List.reverse_nil, List.nil_append] at hrun
  have hticks : ∀ t ∈ ((first.ticksUntil last (tickStep withSeconds)).filter
      (p.admitsAt clock withSeconds)).take count.toNat, ∃ d, DateTime.ofUtc? home t = some d := by
    intro t ht
    obtain ⟨hbehind, hbefore⟩ := WallTime.bounds_of_mem_ticksUntil (tickStep_bounds withSeconds).1
      (List.mem_filter.mp (List.mem_of_mem_take ht)).1
    exact DateTime.exists_ofUtc? h.home_withinDay
      ⟨Int.lt_of_lt_of_le hfirstInner.1 hbehind, Int.lt_trans hbefore hlastInner.2⟩
  obtain ⟨dates, hdates⟩ := exists_mapM hticks
  refine ⟨dates, ?_, ?_⟩
  · rw [Pattern.plainDates?_eq hfirst hlast, hdates]
  · rw [h.matchedDates_eq p hcap hcount]
    exact Window.enumerateAware_eq_ok hfirst hlast scan rfl hrun hdates

end AwareWindow

/-! ### Clocks on which nothing is lost -/

/-- In every window whose matches are looked for on this clock, enumeration without a limit
on ticks returns the first matches among all ticks. -/
def TimeZone.EnumeratesPlainly (clock : TimeZone) : Prop :=
  ∀ (p : Pattern) (zones : ZoneTable) (timezone : Option ZoneRef) (home : TimeZone)
    (start stop : DateTime) (settings : Settings) (count : Int) (withSeconds : Bool),
    AwareWindow zones timezone home clock start stop → settings.tickLimit = none → 1 ≤ count →
    ∃ dates, p.plainDates? home clock start stop count.toNat withSeconds = some dates ∧
      p.matchedDates zones settings (.dateTime start) (some (.dateTime stop)) count
        (some withSeconds) timezone = .ok ⟨dates, none⟩

/-- The alternative of all times on one date. -/
def Alternative.onDate (d : Date) : Alternative where
  layout := .withSecondsAndYear
  dayOfMonth := .values (.ofList [d.day])
  month := .values (.ofList [d.month])
  year := .values (.ofList [d.year])

/-- The pattern of all times on some dates. -/
def Pattern.onDates (dates : List Date) : Pattern where
  expression := " | ".intercalate (dates.map fun d => s!"* * * {d.day} {d.month} * {d.year}")
  alternatives := dates.map .onDate

theorem Alternative.acceptsDate_onDate_iff {d : Date} {w : WallTime} {withSeconds : Bool} :
    (onDate d).acceptsDate (w.reading withSeconds) = some true ↔ w.date = d := by
  simp only [onDate, acceptsDate_eq_true_iff, acceptsDay, Matcher.isAny, Matcher.accepts_values,
    Option.some.injEq, ValueSet.contains_eq_true_iff, ValueSet.mem_ofList, List.mem_singleton,
    WallTime.reading]
  constructor
  · rintro ⟨hmonth, hyear, hday⟩
    obtain ⟨year, month, day⟩ := d
    subst hmonth hyear hday
    rfl
  · rintro rfl
    exact ⟨rfl, rfl, rfl⟩

namespace Pattern

variable {dates : List Date} {w : WallTime} {withSeconds : Bool}

theorem acceptsDate_onDates_iff :
    (onDates dates).acceptsDate (w.reading withSeconds) = some true ↔ w.date ∈ dates := by
  rw [acceptsDate_eq_true_iff (w.daysInMonth?_reading withSeconds)]
  simp only [onDates, List.mem_map]
  constructor
  · rintro ⟨a, ⟨d, hd, rfl⟩, haccepts⟩
    rwa [Alternative.acceptsDate_onDate_iff.mp haccepts]
  · intro h
    exact ⟨_, ⟨_, h, rfl⟩, Alternative.acceptsDate_onDate_iff.mpr rfl⟩

/-- Other dates are refused. -/
theorem acceptsDate_onDates_of_not_mem (h : w.date ∉ dates) :
    (onDates dates).acceptsDate (w.reading withSeconds) = some false :=
  Verdict.eq_false_of_ne_true (isSome_acceptsDate _ (w.daysInMonth?_reading withSeconds))
    fun haccepts => h (acceptsDate_onDates_iff.mp haccepts)

/-- Every time on these dates is accepted. -/
theorem admits_onDates_of_mem (h : w.date ∈ dates) :
    (onDates dates).admits withSeconds w = true := by
  refine admits_eq_true_iff.mpr
    ((accepts_eq_true_iff (w.daysInMonth?_reading withSeconds)).mpr ?_)
  refine ⟨.onDate w.date, List.mem_map.mpr ⟨_, h, rfl⟩, Alternative.accepts_eq_true_iff.mpr ?_⟩
  refine ⟨?_, Matcher.accepts_any _ _, Matcher.accepts_any _ _,
    Alternative.acceptsDate_onDate_iff.mpr rfl⟩
  cases withSeconds <;> simp [Alternative.acceptsSecond, Alternative.onDate, WallTime.reading]

end Pattern

/-- The changes of the clock lie in the years 2 to 9998, and so many days away from their
ends. -/
def TimeZone.ChangesInner (clock : TimeZone) (days : Int) : Prop :=
  ∀ t ∈ clock.rules.transitions,
    innerStart + days * microsPerDay < (t.since + unixEpoch) * microsPerSecond ∧
      (t.since + unixEpoch) * microsPerSecond < innerEnd - days * microsPerDay

/-- A window on the clock of UTC, with the zone that matches are looked for in given by its
name. -/
theorem AwareWindow.of_utc {name : String} {rules : ZoneRules} {first last : WallTime}
    (hstart : innerStart ≤ first.micros) (hend : last.micros ≤ innerEnd)
    (hlt : first.micros < last.micros) :
    AwareWindow [(name, rules)] (some (.name name)) .utc (.named name rules)
      ⟨first, some .utc, false⟩ ⟨last, some .utc, false⟩ := by
  have hutc : TimeZone.utc.rules.WithinDay := ⟨by decide, by decide⟩
  refine ⟨rfl, hutc, ⟨.utc, rfl, hutc⟩, ?_, ⟨hstart, ?_⟩, ⟨?_, hend⟩, ?_⟩
  · simp [ZoneTable.evaluationZone, ZoneTable.resolve, ZoneTable.find?]
  · exact Int.le_of_lt (Int.lt_of_lt_of_le hlt hend)
  · exact Int.le_of_lt (Int.lt_of_le_of_lt hstart hlt)
  · simpa [DateTime.isBefore, DateTime.sharesClock, TimeZone.isSame, TimeZone.utc,
      DateTime.utcMicros?, DateTime.offset?, TimeZone.offsetOfWall] using hlt

namespace TimeZone

variable {name : String} {rules : ZoneRules}

/-- Where nothing is lost, a scan that finds nothing has no match among its ticks. -/
theorem EnumeratesPlainly.admitsAt_eq_false (h : (named name rules).EnumeratesPlainly)
    {p : Pattern} {first last : WallTime} {withSeconds : Bool}
    (hstart : innerStart ≤ first.micros) (hend : last.micros ≤ innerEnd)
    (hlt : first.micros < last.micros) (scan : Scan)
    (hscan : scan = ⟨p, some (named name rules), withSeconds, last⟩)
    (hempty : scan.run (scan.gridSize first) 1 first [] = .ok ⟨[], none⟩) {t : WallTime}
    (ht : t ∈ first.ticksUntil last (tickStep withSeconds)) :
    p.admitsAt (named name rules) withSeconds t = false := by
  have hwindow : AwareWindow [(name, rules)] (some (.name name)) .utc (named name rules)
      ⟨first, some .utc, false⟩ ⟨last, some .utc, false⟩ := .of_utc hstart hend hlt
  obtain ⟨dates, hplain, hdates⟩ :=
    h p _ _ _ _ _ {} 1 withSeconds hwindow rfl (Int.le_refl 1)
  rw [hwindow.matchedDates_eq p rfl (Int.le_refl 1),
    Window.enumerateAware_eq_ok (DateTime.toUtc?_utc first false) (DateTime.toUtc?_utc last false)
      scan hscan hempty List.mapM_nil] at hdates
  obtain rfl : dates = [] := by
    injection hdates with hdates
    injection hdates with hdates
    exact hdates.symm
  rw [Pattern.plainDates?_eq (DateTime.toUtc?_utc first false) (DateTime.toUtc?_utc last false)]
    at hplain
  rw [Bool.eq_false_iff]
  intro hadmits
  have hmem := List.mem_filter.mpr ⟨ht, hadmits⟩
  cases hticks : (first.ticksUntil last (tickStep withSeconds)).filter
      (p.admitsAt (named name rules) withSeconds) with
  | nil =>
    rw [hticks] at hmem
    cases hmem
  | cons u us =>
    rw [hticks] at hplain
    cases hu : DateTime.ofUtc? .utc u <;> simp [hu] at hplain

/-- On a clock where nothing is lost, a change before the first reading of the next
midnight keeps the date. -/
theorem EnumeratesPlainly.dayAt_eq (h : (named name rules).EnumeratesPlainly)
    (hascending : rules.Ascending) (hwithinDay : rules.WithinDay) {before : Int}
    {t : Transition} (hmem : (before, t) ∈ rules.changes)
    (hstart : innerStart < (t.since + unixEpoch) * microsPerSecond)
    (hend : (t.since + unixEpoch) * microsPerSecond < innerEnd)
    (hreading : t.since < rules.firstReading (nextMidnight (t.since + before))) :
    rules.dayAt t.since = rules.dayAt (t.since - 1) := by
  refine Decidable.byContradiction fun hne => ?_
  -- the ticks are the second before the change and the change, up to the second behind it
  have hbounds : innerStart ≤ (t.since - 1 + unixEpoch) * microsPerSecond ∧
      (t.since + 1 + unixEpoch) * microsPerSecond ≤ innerEnd := by
    rw [innerStart_eq] at hstart ⊢
    rw [innerEnd_eq] at hend ⊢
    simp only [calendarDays, microsPerDay, microsPerSecond] at hstart hend ⊢
    omega
  have hsteps : (t.since - 1 + unixEpoch) * microsPerSecond + microsPerSecond =
        (t.since + unixEpoch) * microsPerSecond ∧
      (t.since + unixEpoch) * microsPerSecond + microsPerSecond =
        (t.since + 1 + unixEpoch) * microsPerSecond := by
    simp only [microsPerSecond]
    omega
  have hsecond : 0 < microsPerSecond := by decide
  obtain ⟨first, hfirst, hfirstUnix, hfirstInner⟩ := exists_unixSeconds hbounds.1 (by omega)
  obtain ⟨tick, htick, htickUnix, htickInner⟩ :=
    exists_unixSeconds (Int.le_of_lt hstart) (Int.le_of_lt hend)
  obtain ⟨last, hlast, -, -⟩ := exists_unixSeconds (by omega) hbounds.2
  have hzone : (named name rules).rules.WithinDay := hwithinDay
  obtain ⟨shownFirst, hshownFirst⟩ := DateTime.exists_ofUtc? hzone hfirstInner
  obtain ⟨shown, hshown⟩ := DateTime.exists_ofUtc? hzone htickInner
  -- the dates shown at the two differ, and the pattern asks for that of the second
  have hdate : shownFirst.wall.date ≠ shown.wall.date := by
    intro heq
    have hfirstDay := DateTime.day_of_ofUtc? hshownFirst
    have htickDay := DateTime.day_of_ofUtc? hshown
    rw [WallTime.date, WallTime.date, Date.ofDayNumber_inj] at heq
    rw [heq, hfirstUnix] at hfirstDay
    rw [htickUnix] at htickDay
    simp only [secondsPerDay, TimeZone.rules] at hfirstDay htickDay
    omega
  have hrefused : (Pattern.onDates [shown.wall.date]).acceptsDate
      (shownFirst.wall.reading true) = some false :=
    Pattern.acceptsDate_onDates_of_not_mem (by simpa using hdate)
  -- so the scan skips, and the skip leads behind the change
  let scan : Scan := ⟨.onDates [shown.wall.date], some (named name rules), true, last⟩
  have hlate : last.micros ≤ (rules.firstReading
      ((rules.dayAt (unixSeconds first) + 1) * secondsPerDay) + unixEpoch) * microsPerSecond := by
    rw [ZoneRules.nextMidnight_eq hascending hmem] at hreading
    rw [hlast, hfirstUnix]
    simp only [microsPerSecond]
    omega
  have hempty := Scan.run_eq_of_refused (s := scan) rfl hzone hfirstInner
    (show first.micros < last.micros by omega) hshownFirst hrefused hlate 1
  have hmem : tick ∈ first.ticksUntil last (tickStep true) :=
    (WallTime.mem_ticksUntil (tickStep_bounds true).1).mpr
      ⟨by omega, 1, by simp only [tickStep, if_true]; omega⟩
  have hmissed := h.admitsAt_eq_false (by omega) (by omega) (by omega) scan rfl hempty hmem
  rw [Pattern.admitsAt, hshown, Option.any_some,
    Pattern.admits_onDates_of_mem List.mem_cons_self] at hmissed
  cases hmissed

/-- Toronto in 1919: half an hour before midnight of 31 March the clock was set forward by an
hour, and at midnight of 26 October back again. -/
def toronto : TimeZone :=
  .named "America/Toronto" ⟨-18000, [⟨-1601753400, -14400⟩, ⟨-1583697600, -18000⟩]⟩

/-- All enumerations whose matches are looked for on a clock return the first matches among
all ticks exactly when no change of the clock crosses a midnight. -/
theorem enumeratesPlainly_iff {clock : TimeZone} (hascending : clock.rules.Ascending)
    (hwithinDay : clock.rules.WithinDay) (hinner : clock.ChangesInner 0) :
    clock.EnumeratesPlainly ↔ ∀ c ∈ clock.rules.changes, ¬ c.2.CrossesMidnight c.1 := by
  constructor
  · intro h
    cases clock with
    | fixed offset =>
      intro c hc
      cases hc
    | named name rules =>
      refine ZoneRules.not_crossesMidnight_of_forall hascending fun c hc hreading => ?_
      obtain ⟨hstart, hend⟩ := hinner c.2 (mem_of_mem_changesFrom hc)
      exact h.dayAt_eq hascending hwithinDay hc (by simpa using hstart) (by simpa using hend)
        hreading
  · intro hchanges p zones timezone home start stop settings count withSeconds hwindow hcap hcount
    have hkeeps := ZoneRules.keepsDates_of_forall hascending hchanges
    exact hwindow.matchedDates_of_keepsDates hwithinDay hkeeps p hcap hcount withSeconds

/-- In Toronto the change of March crosses a midnight. -/
theorem enumeratesPlainly_iff_toronto :
    (toronto.rules.Ascending ∧ toronto.rules.WithinDay ∧ toronto.ChangesInner 0) ∧
      (toronto.EnumeratesPlainly ↔
        ∀ c ∈ toronto.rules.changes, ¬ c.2.CrossesMidnight c.1) ∧
      ¬ toronto.EnumeratesPlainly := by
  have hascending : toronto.rules.Ascending := by
    unfold ZoneRules.Ascending
    decide
  have hwithinDay : toronto.rules.WithinDay := ⟨by decide, by decide⟩
  have hinner : toronto.ChangesInner 0 := by
    unfold ChangesInner
    decide
  have hiff := enumeratesPlainly_iff hascending hwithinDay hinner
  exact ⟨⟨hascending, hwithinDay, hinner⟩, hiff, fun h => absurd (hiff.mp h) (by decide)⟩

end TimeZone

/-! ### The night of the change in Toronto -/

/-- A quarter to one on 31 March. -/
def Pattern.springNight : Pattern where
  expression := "45 0 31 3 *"
  alternatives := [{
    layout := .standard
    minute := .values (.ofList [45])
    hour := .values (.ofList [0])
    dayOfMonth := .values (.ofList [31])
    month := .values (.ofList [3]) }]

/-- From 23:00 on 30 March 1919 to 01:00 on 31 March the clock of Toronto shows a quarter to
one, on 31 March, and enumeration does not find it. -/
theorem Pattern.matchedDates_springNight :
    let start : DateTime :=
      ⟨⟨60533823600000000, by decide, by decide⟩, some .toronto, false⟩
    let stop : DateTime :=
      ⟨⟨60533830800000000, by decide, by decide⟩, some .toronto, false⟩
    AwareWindow [] none .toronto .toronto start stop ∧
      springNight.plainDates? .toronto .toronto start stop 1 false =
        some [⟨⟨60533829900000000, by decide, by decide⟩, some .toronto, false⟩] ∧
      springNight.matchedDates [] {} (.dateTime start) (some (.dateTime stop)) 1 (some false)
        none = .ok ⟨[], none⟩ := by
  intro start stop
  have hwithinDay : TimeZone.toronto.rules.WithinDay := ⟨by decide, by decide⟩
  have hwindow : AwareWindow [] none .toronto .toronto start stop :=
    ⟨rfl, hwithinDay, ⟨_, rfl, hwithinDay⟩, rfl, by decide, by decide, by decide⟩
  refine ⟨hwindow, by decide +kernel, ?_⟩
  let first : WallTime := ⟨60533841600000000, by decide, by decide⟩
  let last : WallTime := ⟨60533845200000000, by decide, by decide⟩
  have hfirst : start.toUtc? = some first := by decide +kernel
  have hlast : stop.toUtc? = some last := by decide +kernel
  have hshown : DateTime.ofUtc? .toronto first = some start := by decide +kernel
  have hrefused : springNight.acceptsDate (start.wall.reading false) = some false := by
    decide +kernel
  -- the clock skips midnight, and is taken to show it half an hour behind the change
  have hempty := Scan.run_eq_of_refused (s := ⟨springNight, some .toronto, false, last⟩) rfl
    hwithinDay ⟨by decide, by decide⟩ (by decide) hshown hrefused (by decide +kernel) 1
  rw [hwindow.matchedDates_eq springNight rfl (Int.le_refl 1)]
  exact Window.enumerateAware_eq_ok hfirst hlast _ rfl hempty List.mapM_nil

end CronSchedule
