import CronSchedule.Proofs.Enumerate.Complete
import CronSchedule.Proofs.Enumerate.Walk

/-!
# The last day of the calendar

A scan without zones goes from tick to tick by adding a step, and over a refused date by looking
for the midnight behind it.  Both are computed before they are compared with the stop, and both may
lie behind the calendar: the last day has no midnight behind it, and the last minute no minute.  A
tick from which the scan cannot go on is a dead end, and it can be met by every window that reaches
into the last day, however early the window stops.

Nothing else can fail.  So a scan succeeds exactly when its window has no dead end, or when enough
matches are found, for no match lies behind a dead end.

* `Pattern.isDeadEnd` — a scan cannot go on behind a tick;
* `Scan.firstHits` — the first matches of a window, or an error, `Scan.firstHits_of_accepted`,
  `Scan.exists_firstHits_of_refused` — a tick at a time;
* `Scan.run_of_naive` — what a scan finds, and when it fails;
* `Pattern.matchedDates_of_naive_eq_ite`, `Pattern.exists_matchedDates_of_naive` — the same for
  enumeration, without a limit on ticks and under any;
* `Pattern.AlwaysLists` — enumeration returns a list under all settings;
* `Pattern.alwaysLists_iff` — the windows of which it does.
-/

namespace CronSchedule

/-! ### The end of the calendar -/

namespace WallTime

/-- Midnight of the last day. -/
def lastDay : WallTime := ⟨lastMidnight, by decide, by decide⟩

theorem lastMidnight_le_iff {w : WallTime} :
    lastMidnight ≤ w.micros ↔ w.day = calendarDays - 1 := by
  have hend := w.lt_end
  rw [day_eq_iff]
  simp only [lastMidnight, calendarEnd, calendarDays, microsPerDay, microsPerSecond] at *
  omega

theorem midnight?_eq_none_iff {w : WallTime} :
    midnight? (w.day + 1) = none ↔ lastMidnight ≤ w.micros := by
  have hnonneg := w.day_nonneg
  have hlt := w.day_lt
  rw [midnight?, ofMicros?_eq_none_iff, lastMidnight_le_iff]
  simp only [calendarEnd, calendarDays, microsPerDay, microsPerSecond] at *
  omega

theorem add?_eq_none_iff {w : WallTime} {span : Int} (hspan : 0 ≤ span) :
    w.add? span = none ↔ calendarEnd ≤ w.micros + span := by
  have hnonneg := w.nonneg
  rw [add?, ofMicros?_eq_none_iff]
  omega

/-- Where the calendar ends behind the start there is no other tick. -/
theorem ticksUntil_of_add?_eq_none {start stop : WallTime} {step : Int} (hstep : 0 < step)
    (hlt : start.micros < stop.micros) (hnone : start.add? step = none) :
    start.ticksUntil stop step = [start] := by
  have hend := (add?_eq_none_iff (Int.le_of_lt hstep)).mp hnone
  refine eq_of_mem_iff_of_growing (ticksUntil_ascending hstep) (List.pairwise_singleton _ _)
    fun t => ?_
  rw [mem_ticksUntil hstep, List.mem_singleton]
  constructor
  · rintro ⟨-, k, hk⟩
    cases k with
    | zero => exact WallTime.ext (by simpa using hk)
    | succ k =>
      have hnonneg := Int.mul_nonneg (Int.le_of_lt hstep) (Int.natCast_nonneg k)
      have ht := t.lt_end
      rw [mul_succ_steps] at hk
      omega
  · rintro rfl
    exact ⟨hlt, 0, by simp⟩

end WallTime

/-! ### Dead ends -/

namespace Pattern

variable {p : Pattern} {withSeconds : Bool} {t : WallTime}

/-- A scan without zones cannot go on behind the tick: the next one lies behind the calendar, or
the date is refused and has no midnight behind it. -/
def isDeadEnd (p : Pattern) (withSeconds : Bool) (t : WallTime) : Bool :=
  decide (calendarEnd ≤ t.micros + tickStep withSeconds) ||
    (decide (lastMidnight ≤ t.micros) && p.acceptsDate (t.reading withSeconds) == some false)

theorem isDeadEnd_iff : p.isDeadEnd withSeconds t = true ↔
    calendarEnd ≤ t.micros + tickStep withSeconds ∨
      lastMidnight ≤ t.micros ∧ p.acceptsDate (t.reading withSeconds) = some false := by
  simp [isDeadEnd]

/-- Before the last midnight there are no dead ends. -/
theorem isDeadEnd_eq_false_of_lt (ht : t.micros < lastMidnight) :
    p.isDeadEnd withSeconds t = false := by
  have hminute := (tickStep_bounds withSeconds).2
  have hroom : lastMidnight + microsPerMinute < calendarEnd := by decide
  rw [Bool.eq_false_iff, Ne, isDeadEnd_iff]
  omega

/-- On an accepted date only the end of the calendar makes a dead end. -/
theorem isDeadEnd_of_acceptsDate (h : p.acceptsDate (t.reading withSeconds) = some true) :
    p.isDeadEnd withSeconds t = (t.add? (tickStep withSeconds)).isNone := by
  rw [Bool.eq_iff_iff, isDeadEnd_iff, Option.isNone_iff_eq_none,
    WallTime.add?_eq_none_iff (Int.le_of_lt (tickStep_bounds withSeconds).1), h]
  simp

end Pattern

/-! ### Scans -/

namespace Scan

variable {s : Scan}

/-- No reading behind a refused one of the last day is a match. -/
theorem filter_hits_of_refused (hclock : s.clock = none) {t : WallTime}
    (ht : lastMidnight ≤ t.micros)
    (hrefused : s.pattern.acceptsDate (t.reading s.withSeconds) = some false) :
    (t.ticksUntil s.stop s.step).filter s.hits = [] := by
  rw [List.filter_eq_nil_iff]
  intro u hu
  have hle := (WallTime.bounds_of_mem_ticksUntil s.step_pos hu).1
  have hday : u.day = t.day := (WallTime.lastMidnight_le_iff.mp (Int.le_trans ht hle)).trans
    (WallTime.lastMidnight_le_iff.mp ht).symm
  rw [hits_of_naive hclock]
  exact Bool.eq_false_iff.mp (Pattern.admits_eq_false_of_sameDay hrefused hday)

/-- The first matches of a window, or an error where too few of them lie before a dead end. -/
def firstHits (s : Scan) (wanted : Nat) (tick : WallTime) (found : List WallTime) :
    Except Fault Found :=
  let hits := (tick.ticksUntil s.stop s.step).filter s.hits
  let ends := (tick.ticksUntil s.stop s.step).filter (s.pattern.isDeadEnd s.withSeconds)
  if wanted ≤ hits.length ∨ ends = [] then .ok ⟨found.reverse ++ hits.take wanted, none⟩
  else .error .beyondCalendar

theorem firstHits_of_le {tick : WallTime} (hstop : s.stop.micros ≤ tick.micros) (wanted : Nat)
    (found : List WallTime) : s.firstHits wanted tick found = .ok ⟨found.reverse, none⟩ := by
  simp [firstHits, WallTime.ticksUntil_of_le s.step_pos hstop]

/-- A refused tick of the last day is a dead end, with no match behind it. -/
theorem firstHits_of_lastDay (hclock : s.clock = none) {tick : WallTime}
    (hlt : tick.micros < s.stop.micros) (hlast : lastMidnight ≤ tick.micros)
    (hrefused : s.pattern.acceptsDate (tick.reading s.withSeconds) = some false) {wanted : Nat}
    (hwanted : 1 ≤ wanted) (found : List WallTime) :
    s.firstHits wanted tick found = .error .beyondCalendar := by
  have hdead : tick ∈
      (tick.ticksUntil s.stop s.step).filter (s.pattern.isDeadEnd s.withSeconds) :=
    List.mem_filter.mpr ⟨(WallTime.mem_ticksUntil s.step_pos).mpr ⟨hlt, 0, by simp⟩,
      Pattern.isDeadEnd_iff.mpr (.inr ⟨hlast, hrefused⟩)⟩
  rw [firstHits, filter_hits_of_refused hclock hlast hrefused]
  refine if_neg ?_
  rintro (hmany | hnone)
  · exact absurd (Nat.le_trans hwanted hmany) (Nat.not_succ_le_zero 0)
  · rw [hnone] at hdead
    cases hdead

/-- Before the last midnight a skip goes over no match and over no dead end. -/
theorem exists_firstHits_of_refused (hclock : s.clock = none) {tick : WallTime}
    (hbefore : tick.micros < lastMidnight)
    (hrefused : s.pattern.acceptsDate (tick.reading s.withSeconds) = some false) :
    ∃ next, s.skipDay? tick tick = some next ∧ tick.micros + s.step ≤ next.micros ∧
      ∀ wanted found, s.firstHits wanted tick found = s.firstHits wanted next found := by
  obtain ⟨midnight, next, hmidnight, htarget, hnext, hbound, hday⟩ :=
    exists_skip_of_naive hclock hbefore
  have hskip : s.skipDay? tick tick = some next := by
    simp [skipDay?, hmidnight, htarget, hnext]
  obtain ⟨hbehind, hsameHits⟩ := s.filter_ticksUntil_of_skip hnext
    (hits_eq_false_of_refused (read_of_naive hclock tick) hrefused) fun u htu hu _ => by
      rw [hits_of_naive hclock]
      exact Pattern.admits_eq_false_of_sameDay hrefused (hday u htu hu)
  obtain ⟨-, hsameEnds⟩ := s.filter_ticksUntil_of_skip hnext
    (Pattern.isDeadEnd_eq_false_of_lt hbefore) fun u _ hu _ =>
      Pattern.isDeadEnd_eq_false_of_lt (Int.lt_of_lt_of_le hu hbound)
  exact ⟨next, hskip, hbehind, fun wanted found => by
    rw [firstHits, firstHits, hsameHits, hsameEnds]⟩

/-- A tick on an accepted date is the first of the matches or is none, and a dead end only if it
has no next one. -/
theorem firstHits_of_accepted {tick : WallTime} (hlt : tick.micros < s.stop.micros)
    (haccepted : s.pattern.acceptsDate (tick.reading s.withSeconds) = some true) {wanted : Nat}
    (hwanted : 1 ≤ wanted) (found : List WallTime) :
    s.firstHits wanted tick found =
      if s.hits tick && wanted ≤ 1 then .ok ⟨(tick :: found).reverse, none⟩
      else
        match tick.add? s.step with
        | none => .error .beyondCalendar
        | some next =>
          if s.hits tick then s.firstHits (wanted - 1) next (tick :: found)
          else s.firstHits wanted next found := by
  have hdead := Pattern.isDeadEnd_of_acceptsDate haccepted
  rw [← s.step_eq] at hdead
  obtain ⟨more, rfl⟩ : ∃ more, wanted = more + 1 := ⟨wanted - 1, by omega⟩
  cases hnext : tick.add? s.step with
  | none =>
    rw [hnext] at hdead
    rw [firstHits, WallTime.ticksUntil_of_add?_eq_none s.step_pos hlt hnext]
    cases hhit : s.hits tick <;> simp [hhit, hdead]
  | some next =>
    rw [hnext] at hdead
    rw [firstHits, WallTime.ticksUntil_of_lt s.step_pos hlt hnext]
    cases hhit : s.hits tick with
    | false =>
      rw [List.filter_cons_of_neg (by simp [hhit]), List.filter_cons_of_neg (by simp [hdead])]
      simp [firstHits]
    | true =>
      rw [List.filter_cons_of_pos hhit, List.filter_cons_of_neg (by simp [hdead])]
      cases more <;> simp [firstHits]

/-- A scan without a clock of its own finds the first matches among all ticks, and fails when too
few of them lie before a dead end: by induction on the budget, which a skip and a step lower. -/
theorem run_of_naive (hclock : s.clock = none) :
    ∀ (budget wanted : Nat) (tick : WallTime) (found : List WallTime),
      s.gridSize tick ≤ budget → 1 ≤ wanted →
      s.run budget wanted tick found = s.firstHits wanted tick found := by
  intro budget
  induction budget with
  | zero =>
    intro wanted tick found hbudget hwanted
    by_cases hstop : s.stop.micros ≤ tick.micros
    · rw [run_of_le hstop, firstHits_of_le hstop]
    · obtain ⟨size, hsize⟩ := s.exists_gridSize (Int.not_le.mp hstop)
      omega
  | succ budget ih =>
    intro wanted tick found hbudget hwanted
    by_cases hstop : s.stop.micros ≤ tick.micros
    · rw [run_of_le hstop, firstHits_of_le hstop]
    have hlt : tick.micros < s.stop.micros := Int.not_le.mp hstop
    have hread := read_of_naive hclock tick
    obtain ⟨dateAccepted, hdate⟩ := Option.isSome_iff_exists.mp
      (s.pattern.isSome_acceptsDate (tick.daysInMonth?_reading s.withSeconds))
    cases dateAccepted with
    | false =>
      by_cases hlast : lastMidnight ≤ tick.micros
      · -- no midnight follows
        have hskip : s.skipDay? tick tick = none := by
          rw [skipDay?, WallTime.midnight?_eq_none_iff.mpr hlast]
          rfl
        rw [firstHits_of_lastDay hclock hlt hlast hdate hwanted, run, if_neg hstop]
        simp only [hread, DateTime.naive, hdate, hskip]
      · obtain ⟨next, hskip, hbehind, hsame⟩ :=
          exists_firstHits_of_refused hclock (Int.not_le.mp hlast) hdate
        have hsmaller := s.gridSize_lt_of_le hlt hbehind
        rw [run_of_refused hlt hread hdate hskip, ih wanted next found (by omega) hwanted, hsame]
    | true =>
      rw [run_of_accepted hlt hread hdate, firstHits_of_accepted hlt hdate hwanted]
      cases hnext : tick.add? s.step with
      | none => rfl
      | some next =>
        have hsmaller := s.gridSize_lt_of_le hlt
          (Int.le_of_eq (WallTime.add?_eq_some_iff.mp hnext).symm)
        cases hhit : s.hits tick with
        | false => simp [ih wanted next found (by omega) hwanted]
        | true =>
          by_cases hone : wanted ≤ 1
          · simp [hone]
          · simp [hone, ih (wanted - 1) next (tick :: found) (by omega) (by omega)]

end Scan

/-! ### Enumeration -/

namespace Pattern

variable {settings : Settings} {start stop : DateTime} {count : Int}

/-- The scan of a window without zones, where no limit cuts it. -/
theorem run_of_naive_window (p : Pattern) (hcount : 1 ≤ count) (start stop : WallTime)
    (withSeconds : Bool) (scan : Scan) (hscan : scan = ⟨p, none, withSeconds, stop⟩) :
    scan.run (scan.gridSize start) count.toNat start [] =
      if count ≤ (p.naiveMatches start stop withSeconds).length ∨
          ∀ t ∈ start.ticksUntil stop (tickStep withSeconds), p.isDeadEnd withSeconds t = false then
        .ok ⟨((start.ticksUntil stop (tickStep withSeconds)).filter (p.admits withSeconds)).take
          count.toNat, none⟩
      else .error .beyondCalendar := by
  subst hscan
  rw [Scan.run_of_naive rfl _ _ _ _ (Nat.le_refl _) (by omega), Scan.firstHits,
    Scan.hits_of_naive rfl]
  refine if_congr ?_ rfl rfl
  simp only [naiveMatches, List.length_map, List.filter_eq_nil_iff, Bool.not_eq_true]
  exact or_congr_left Int.toNat_le

/-- Enumeration in a window without zones returns the first of its matches, or leaves the calendar
where too few of them lie before a dead end. -/
theorem matchedDates_of_naive_eq_ite (p : Pattern) (zones : ZoneTable)
    (hcap : settings.tickLimit = none) (hstart : start.zone = none) (hstop : stop.zone = none)
    (hlt : start.wall.micros < stop.wall.micros) (hcount : 1 ≤ count) (matchSeconds : Option Bool)
    (timezone : Option ZoneRef) :
    p.matchedDates zones settings (.dateTime start) (some (.dateTime stop)) count matchSeconds
        timezone =
      let withSeconds := matchSeconds.getD settings.comparesSeconds
      if count ≤ (p.naiveMatches start.wall stop.wall withSeconds).length ∨
          ∀ t ∈ start.wall.ticksUntil stop.wall (tickStep withSeconds),
            p.isDeadEnd withSeconds t = false then
        .ok {
          dates := (p.naiveMatches start.wall stop.wall withSeconds).take count.toNat
          warning := none }
      else .error (.fault .beyondCalendar) := by
  have hrun := p.run_of_naive_window hcount start.wall stop.wall
    (matchSeconds.getD settings.comparesSeconds) _ rfl
  rw [p.matchedDates_eq_enumerateNaive zones settings hstart hstop hlt hcount, hcap]
  dsimp only
  split
  · next h =>
    rw [if_pos h] at hrun
    rw [Window.enumerateNaive_eq_ok _ rfl hrun, naiveMatches, List.map_take]
  · next h =>
    rw [if_neg h] at hrun
    exact Window.enumerateNaive_of_run_error _ rfl hrun

/-- With enough matches before the dead ends, or without any, enumeration under any limit on ticks
returns the beginning of its matches, and all that are wanted where there is no limit. -/
theorem exists_matchedDates_of_naive (p : Pattern) (zones : ZoneTable) (settings : Settings)
    (hstart : start.zone = none) (hstop : stop.zone = none)
    (hlt : start.wall.micros < stop.wall.micros) (hcount : 1 ≤ count) {matchSeconds : Option Bool}
    {withSeconds : Bool} (hseconds : matchSeconds.getD settings.comparesSeconds = withSeconds)
    (timezone : Option ZoneRef)
    (hends : count ≤ (p.naiveMatches start.wall stop.wall withSeconds).length ∨
      ∀ t ∈ start.wall.ticksUntil stop.wall (tickStep withSeconds),
        p.isDeadEnd withSeconds t = false) :
    ∃ found, p.matchedDates zones settings (.dateTime start) (some (.dateTime stop)) count
        matchSeconds timezone = .ok found ∧
      found.dates <+: (p.naiveMatches start.wall stop.wall withSeconds).take count.toNat ∧
      (settings.tickLimit = none →
        found.dates = (p.naiveMatches start.wall stop.wall withSeconds).take count.toNat) := by
  subst hseconds
  have hrun := p.run_of_naive_window hcount start.wall stop.wall
    (matchSeconds.getD settings.comparesSeconds) _ rfl
  rw [if_pos hends] at hrun
  obtain ⟨cut, hcut, hfront, -⟩ := Scan.exists_run_of_run_gridSize (by omega) hrun
    (settings.tickLimit.getD (Scan.gridSize _ start.wall))
  rw [p.matchedDates_eq_enumerateNaive zones settings hstart hstop hlt hcount,
    Window.enumerateNaive_of_run _ rfl rfl hcut, naiveMatches, ← List.map_take]
  refine ⟨_, rfl, hfront.map _, fun hnone => ?_⟩
  rw [hnone, Option.getD_none, hrun] at hcut
  rw [← Except.ok.inj hcut]

/-- Whatever settings are in force, enumeration in the window returns a list. -/
def AlwaysLists (p : Pattern) (start stop : DateTime) (count : Int) (withSeconds : Bool) : Prop :=
  ∀ (host : Host) (s : Session) (inForce : Settings) (matchSeconds : Option Bool)
    (ref : Option ZoneRef), s.settings = some inForce →
    matchSeconds.getD inForce.comparesSeconds = withSeconds →
      ∃ listed behind, Call.outcome (Call.dates p (.dateTime start) (some (.dateTime stop)) count
        matchSeconds ref) host s = (.ok listed, behind)

/-- Without zones the windows in which enumeration always returns a list are those with enough
matches, or without a dead end. -/
theorem alwaysLists_iff (p : Pattern) (hstart : start.zone = none) (hstop : stop.zone = none)
    (hlt : start.wall.micros < stop.wall.micros) (hcount : 1 ≤ count) (withSeconds : Bool) :
    p.AlwaysLists start stop count withSeconds ↔
      count ≤ (p.naiveMatches start.wall stop.wall withSeconds).length ∨
        ∀ t ∈ start.wall.ticksUntil stop.wall (tickStep withSeconds),
          p.isDeadEnd withSeconds t = false := by
  constructor
  · intro h
    obtain ⟨listed, behind, houtcome⟩ :=
      h {} { settings := some {} } {} (some withSeconds) none rfl rfl
    rw [Call.outcome_dates rfl, p.matchedDates_of_naive_eq_ite [] rfl hstart hstop hlt hcount]
      at houtcome
    refine Decidable.byContradiction fun hends => ?_
    simp only [Option.getD_some] at houtcome
    rw [if_neg hends] at houtcome
    cases houtcome
  · intro hends host s inForce matchSeconds ref hs hseconds
    obtain ⟨found, hfound, -⟩ := p.exists_matchedDates_of_naive host.zones inForce hstart hstop hlt
      hcount hseconds ref hends
    rw [Call.outcome_dates hs, hfound]
    exact ⟨_, _, rfl⟩

/-- Midnight of 1 January. -/
def newYear : Pattern where
  expression := "0 0 1 1 *"
  alternatives := [{
    layout := .standard
    minute := .values (.ofList [0])
    hour := .values (.ofList [0])
    dayOfMonth := .values (.ofList [1])
    month := .values (.ofList [1]) }]

/-- From two minutes before the last midnight on, a window that ends there has no dead end, and one
that ends a minute later does. -/
theorem alwaysLists_iff_newYear :
    let start : DateTime := .naive ⟨315537811080000000, by decide, by decide⟩
    let midnight : DateTime := .naive ⟨315537811200000000, by decide, by decide⟩
    let later : DateTime := .naive ⟨315537811260000000, by decide, by decide⟩
    newYear.AlwaysLists start midnight 1 false ∧ ¬ newYear.AlwaysLists start later 1 false := by
  intro start midnight later
  have hmidnight : newYear.AlwaysLists start midnight 1 false ↔ _ :=
    alwaysLists_iff newYear rfl rfl (by decide) (Int.le_refl 1) false
  have hlater : newYear.AlwaysLists start later 1 false ↔ _ :=
    alwaysLists_iff newYear rfl rfl (by decide) (Int.le_refl 1) false
  rw [hmidnight, hlater]
  decide +kernel

/-- The morning of 31 December 9999 holds no match of midnight of 1 January, but instead of no
dates enumeration gives an error: its first tick is a dead end. -/
theorem dates_newYear_lastDay :
    let start : DateTime := .naive ⟨315537811200000000, by decide, by decide⟩
    let stop : DateTime := .naive ⟨315537854400000000, by decide, by decide⟩
    compile "0 0 1 1 *" = .ok newYear ∧
      newYear.naiveMatches start.wall stop.wall false = [] ∧
      Call.outcome
          (Call.dates newYear (.dateTime start) (some (.dateTime stop)) 1 (some false) none)
          {} { settings := some {} } =
        (.error (.fault .beyondCalendar), { settings := some {} }) := by
  refine ⟨rfl, by decide +kernel, rfl⟩

end Pattern

end CronSchedule
