import CronSchedule.Proofs.Enumerate.Earliest
import CronSchedule.Proofs.Enumerate.LastDay
import CronSchedule.Proofs.Session.Later
import CronSchedule.Proofs.Settings.Accepted

/-!
# Horizons that leave the calendar

Settings are accepted with any positive number of days for the horizon.  Whether a search can be
made is found out by the search itself, when it looks for the reading at which its window ends, and
that depends on the reading from which it starts: the horizon that is in force without any settings
is too far for a search in the last four years.

A window that ends within the calendar may reach into its last day, and there a search fails as any
scan does, unless that date is accepted or a match is found before.  Nothing else can fail, as the
start of a search is a whole second, or minute, and so is the end of the calendar.

* `Pattern.next_eq_of_add_lt` — a search is the enumeration of its window,
  `Pattern.next_eq_error_of_le` — a window that leaves the calendar is none;
* `Pattern.forall_isDeadEnd_eq_false_iff` — the windows of searches that have no dead end;
* `Pattern.AlwaysFindsNext` — a search finds the earliest match, or nothing,
  `Pattern.alwaysFindsNext_of_ends` — as it does with a match in its window or without a dead end;
* `Pattern.alwaysFindsNext_iff` — where it does for a pattern, a reading and a horizon.
-/

namespace CronSchedule

open Call (outcome)

/-! ### Windows of searches -/

namespace Pattern

variable {p : Pattern} {settings : Settings} {days : Int} {after : DateTime}
  {matchSeconds : Option Bool} {first stop : WallTime}

/-- A search whose window ends within the calendar is the enumeration of that window. -/
theorem next_eq_of_add_lt (hdays : settings.searchHorizonDays = .int days)
    (hfirst : WallTime.FirstBehind (p.searchesSeconds matchSeconds) after.wall first)
    (hstop : stop.micros = first.micros + days * microsPerDay) (zones : ZoneTable) :
    p.next zones settings after matchSeconds =
      (p.matchedDates zones settings (.dateTime ⟨first, after.zone, false⟩)
        (some (.dateTime ⟨stop, after.zone, false⟩)) 1 (some (p.searchesSeconds matchSeconds))
          none).map fun found => ⟨found.dates.head?, found.warning⟩ := by
  have hend := stop.lt_end
  have hstart := DateTime.firstTickAfter?_eq_some (WallTime.firstBehind_iff.mp hfirst)
  have hbefore : first.micros + days * microsPerDay < calendarEnd := by omega
  have hhorizon := WallTime.horizon_of_add_lt (congrArg Value.days hdays) hbefore
  have hlater : DateTime.later? ⟨first, after.zone, false⟩ (days * microsPerDay) =
      some ⟨stop, after.zone, false⟩ := by
    rw [DateTime.later?, WallTime.add?_eq_some_iff.mpr hstop]
    rfl
  simp only [next, hstart, withinCalendar, ok_bind, nextFrom, hhorizon, liftFault, hlater]
  cases p.matchedDates zones settings (.dateTime ⟨first, after.zone, false⟩)
    (some (.dateTime ⟨stop, after.zone, false⟩)) 1 (some (p.searchesSeconds matchSeconds)) none <;>
      rfl

/-- A search whose window leaves the calendar fails, in any zone and whatever the pattern. -/
theorem next_eq_error_of_le (hdays : settings.searchHorizonDays = .int days)
    (hfirst : WallTime.FirstBehind (p.searchesSeconds matchSeconds) after.wall first)
    (hfar : calendarEnd ≤ first.micros + days * microsPerDay) (zones : ZoneTable) :
    ∃ fault, p.next zones settings after matchSeconds = .error (.fault fault) := by
  have hnonneg := first.nonneg
  have hstart := DateTime.firstTickAfter?_eq_some (WallTime.firstBehind_iff.mp hfirst)
  simp only [next, hstart, withinCalendar, ok_bind, nextFrom, Settings.horizon, hdays, Value.days]
  split
  · have hlater : DateTime.later? ⟨first, after.zone, false⟩ (days * microsPerDay) = none := by
      rw [DateTime.later?, Option.map_eq_none_iff, WallTime.add?, WallTime.ofMicros?_eq_none_iff]
      exact .inr hfar
    exact ⟨.beyondCalendar, by simp only [liftFault, ok_bind, hlater]; rfl⟩
  · exact ⟨.tooLarge, rfl⟩

/-- A window that starts and ends on whole seconds, or minutes, has no dead end when it ends by the
last midnight or the last date is accepted, and otherwise its first tick of that date is one. -/
theorem forall_isDeadEnd_eq_false_iff {withSeconds : Bool}
    (hfirst : first.micros % tickStep withSeconds = 0)
    (hstop : stop.micros % tickStep withSeconds = 0) (hle : first.micros ≤ lastMidnight) :
    (∀ t ∈ first.ticksUntil stop (tickStep withSeconds), p.isDeadEnd withSeconds t = false) ↔
      stop.micros ≤ lastMidnight ∨
        p.acceptsDate (WallTime.lastDay.reading withSeconds) = some true := by
  have hstep := (tickStep_bounds withSeconds).1
  have hlast : lastMidnight % tickStep withSeconds = 0 := by cases withSeconds <;> decide
  constructor
  · intro h
    by_cases hshort : stop.micros ≤ lastMidnight
    · exact .inl hshort
    have hmem : WallTime.lastDay ∈ first.ticksUntil stop (tickStep withSeconds) :=
      (WallTime.mem_ticksUntil_of_whole hstep hfirst).mpr ⟨hlast, hle, Int.not_le.mp hshort⟩
    have hgoes := h _ hmem
    obtain ⟨accepted, haccepted⟩ := Option.isSome_iff_exists.mp
      (p.isSome_acceptsDate (WallTime.lastDay.daysInMonth?_reading withSeconds))
    cases accepted with
    | true => exact .inr haccepted
    | false =>
      rw [isDeadEnd_iff.mpr (.inr ⟨Int.le_refl _, haccepted⟩)] at hgoes
      cases hgoes
  · intro h t ht
    obtain ⟨hwhole, -, hlt⟩ := (WallTime.mem_ticksUntil_of_whole hstep hfirst).mp ht
    rw [Bool.eq_false_iff, Ne, isDeadEnd_iff]
    rintro (hend | ⟨hlate, hrefused⟩)
    · -- the stop is whole steps behind the tick
      obtain ⟨k, hk⟩ := WallTime.exists_steps_of_whole hstep hwhole hstop (Int.le_of_lt hlt)
      have hstopEnd := stop.lt_end
      rcases Nat.eq_zero_or_pos k with rfl | hkpos
      · simp only [Int.natCast_zero, Int.mul_zero] at hk
        omega
      · have hone := Int.mul_le_mul_of_nonneg_left (Int.ofNat_le.mpr hkpos) (Int.le_of_lt hstep)
        simp only [Nat.succ_eq_add_one, Nat.zero_add, Int.natCast_one, Int.mul_one] at hone
        omega
    · have haccepted := h.resolve_left (by omega)
      have hday : t.day = WallTime.lastDay.day := (WallTime.lastMidnight_le_iff.mp hlate).trans
        (WallTime.lastMidnight_le_iff.mp (Int.le_refl _)).symm
      rw [p.acceptsDate_congr (WallTime.sameDate_reading hday withSeconds withSeconds), haccepted]
        at hrefused
      cases hrefused

/-- There is a match in the window, or no dead end. -/
theorem one_le_length_or_isDeadEnd_iff {withSeconds : Bool}
    (hfirst : first.micros % tickStep withSeconds = 0)
    (hstop : stop.micros % tickStep withSeconds = 0) (hle : first.micros ≤ lastMidnight) :
    (1 ≤ ((p.naiveMatches first stop withSeconds).length : Int) ∨
      ∀ t ∈ first.ticksUntil stop (tickStep withSeconds), p.isDeadEnd withSeconds t = false) ↔
      (∃ t : WallTime, t.micros % tickStep withSeconds = 0 ∧ first.micros ≤ t.micros ∧
        t.micros < stop.micros ∧ p.admits withSeconds t = true) ∨
      stop.micros ≤ lastMidnight ∨
        p.acceptsDate (WallTime.lastDay.reading withSeconds) = some true := by
  refine or_congr ?_ (forall_isDeadEnd_eq_false_iff hfirst hstop hle)
  have hsome : 1 ≤ ((p.naiveMatches first stop withSeconds).length : Int) ↔
      ∃ d, d ∈ p.naiveMatches first stop withSeconds := by
    rw [← List.length_pos_iff_exists_mem]
    omega
  simp only [hsome, mem_naiveMatches,
    WallTime.mem_ticksUntil_of_whole (tickStep_bounds withSeconds).1 hfirst]
  constructor
  · rintro ⟨d, t, ⟨hwhole, hge, hlt⟩, hadmits, -⟩
    exact ⟨t, hwhole, hge, hlt, hadmits⟩
  · rintro ⟨t, hwhole, hge, hlt, hadmits⟩
    exact ⟨_, t, ⟨hwhole, hge, hlt⟩, hadmits, rfl⟩

/-! ### The result of a search -/

/-- The first of the matches is the first tick that is accepted. -/
theorem head?_naiveMatches (p : Pattern) (start stop : WallTime) (withSeconds : Bool) :
    (p.naiveMatches start stop withSeconds).head? =
      ((start.ticksUntil stop (tickStep withSeconds)).find? (p.admits withSeconds)).map .naive := by
  rw [naiveMatches, List.head?_map, List.head?_filter]

/-- A whole second, or minute, is one days later. -/
theorem add_days_emod_tickStep {withSeconds : Bool} {n : Int}
    (h : n % tickStep withSeconds = 0) (days : Int) :
    (n + days * microsPerDay) % tickStep withSeconds = 0 := by
  cases withSeconds
  · simp only [tickStep, microsPerDay, microsPerMinute, microsPerSecond, Bool.false_eq_true,
      if_false] at h ⊢
    omega
  · simp only [tickStep, microsPerDay, microsPerSecond, if_true] at h ⊢
    omega

/-- Under all settings that are accepted with this horizon the search returns the earliest match
within it or nothing, and nothing only where there is none or a limit on ticks is set. -/
def AlwaysFindsNext (p : Pattern) (after : DateTime) (matchSeconds : Option Bool)
    (first : WallTime) (days : Int) : Prop :=
  ∀ (es : Entries Value Value) (inForce : Settings) (host : Host) (s : Session),
    Settings.ofEntries es = .ok inForce → inForce.searchHorizonDays = .int days →
    s.settings = some inForce →
      ∃ found behind, outcome (Call.next p after matchSeconds) host s = (.ok found, behind) ∧
        (∀ d, found = some d → ∃ t, d = .naive t ∧
          Call.Earliest host s p (p.searchesSeconds matchSeconds) first.micros
            (first.micros + days * microsPerDay) t) ∧
        (found = none → inForce.tickLimit = none → ∀ t : WallTime,
          t.micros % tickStep (p.searchesSeconds matchSeconds) = 0 → first.micros ≤ t.micros →
            t.micros < first.micros + days * microsPerDay →
              ¬ Call.Accepts host s p (p.searchesSeconds matchSeconds) t)

/-- The end of the window of a search, where it lies within the calendar. -/
theorem exists_stop {withSeconds : Bool} (hfirst : first.micros % tickStep withSeconds = 0)
    (hpos : 0 < days) (hlt : first.micros + days * microsPerDay < calendarEnd) :
    ∃ stop : WallTime, stop.micros = first.micros + days * microsPerDay ∧
      first.micros < stop.micros ∧ stop.micros % tickStep withSeconds = 0 := by
  have hnonneg := first.nonneg
  have hspan : 0 < days * microsPerDay := Int.mul_pos hpos (by decide)
  exact ⟨⟨first.micros + days * microsPerDay, by omega, hlt⟩, rfl, by simp only; omega,
    add_days_emod_tickStep hfirst days⟩

/-- A search that always finds the next match succeeds under settings that set the horizon and
leave everything else as it is by default. -/
theorem AlwaysFindsNext.exists_next (h : p.AlwaysFindsNext after matchSeconds first days)
    (hpos : 0 < days) :
    ∃ (inForce : Settings) (found : NextMatch), inForce.searchHorizonDays = .int days ∧
      inForce.tickLimit = none ∧ p.next [] inForce after matchSeconds = .ok found := by
  let inForce : Settings :=
    { searchHorizonDays := .int days, days_pos := congrArg some (decide_eq_true hpos) }
  obtain ⟨found, behind, houtcome, -⟩ := h [(.text "search_horizon_days", .int days)] inForce {}
    { settings := some inForce } (Settings.ofEntries_searchHorizonDays hpos) rfl rfl
  rw [Call.outcome_next rfl] at houtcome
  cases hnext : p.next [] inForce after matchSeconds with
  | ok result => exact ⟨inForce, result, rfl, rfl, hnext⟩
  | error e =>
    rw [show p.next _ inForce after matchSeconds = .error e from hnext] at houtcome
    cases houtcome

/-- With a match in its window, or without a dead end there, a search without zones always finds
the next match. -/
theorem alwaysFindsNext_of_ends (hzone : after.zone = none)
    (hfirst : WallTime.FirstBehind (p.searchesSeconds matchSeconds) after.wall first)
    (hstop : stop.micros = first.micros + days * microsPerDay)
    (hbehind : first.micros < stop.micros)
    (hends : 1 ≤ ((p.naiveMatches first stop (p.searchesSeconds matchSeconds)).length : Int) ∨
      ∀ t ∈ first.ticksUntil stop (tickStep (p.searchesSeconds matchSeconds)),
        p.isDeadEnd (p.searchesSeconds matchSeconds) t = false) :
    p.AlwaysFindsNext after matchSeconds first days := by
  have hnaive (w : WallTime) : (⟨w, after.zone, false⟩ : DateTime).zone = none := hzone
  intro es inForce host s _ hdays hs
  obtain ⟨found, hfound, hfront, hall⟩ := p.exists_matchedDates_of_naive host.zones inForce
    (hnaive first) (hnaive stop) hbehind (Int.le_refl 1) Option.getD_some none hends
  rw [Call.outcome_next hs, next_eq_of_add_lt hdays hfirst hstop, hfound, ← hstop]
  refine ⟨_, _, rfl, fun d hd => ?_, fun hnone hcap => ?_⟩
  · have hhead : found.dates.head? = some d := hd
    obtain ⟨rest, hrest⟩ := hfront
    have htake := congrArg List.head? hrest
    rw [List.head?_append, hhead, Option.some_or, Int.toNat_one, List.head?_take,
      if_neg Nat.one_ne_zero, head?_naiveMatches, eq_comm, Option.map_eq_some_iff] at htake
    obtain ⟨t, ht, rfl⟩ := htake
    exact ⟨t, rfl, (Call.find?_eq_some_iff_earliest hfirst.whole).mp ht⟩
  · have hhead : found.dates.head? = none := hnone
    rw [hall hcap, Int.toNat_one, List.head?_take, if_neg Nat.one_ne_zero, head?_naiveMatches,
      Option.map_eq_none_iff] at hhead
    exact (Call.find?_eq_none_iff_not_accepts hfirst.whole).mp hhead

/-- Without zones a search from the last midnight or before it finds the next match exactly when
its window ends within the calendar, and by the last midnight or with that date accepted or with a
match in the window. -/
theorem alwaysFindsNext_iff (hzone : after.zone = none)
    (hfirst : WallTime.FirstBehind (p.searchesSeconds matchSeconds) after.wall first)
    (hle : first.micros ≤ lastMidnight) (hpos : 0 < days) :
    p.AlwaysFindsNext after matchSeconds first days ↔
      first.micros + days * microsPerDay < calendarEnd ∧
        ((∃ t : WallTime, t.micros % tickStep (p.searchesSeconds matchSeconds) = 0 ∧
            first.micros ≤ t.micros ∧ t.micros < first.micros + days * microsPerDay ∧
              p.admits (p.searchesSeconds matchSeconds) t = true) ∨
          first.micros + days * microsPerDay ≤ lastMidnight ∨
            p.acceptsDate (WallTime.lastDay.reading (p.searchesSeconds matchSeconds)) =
              some true) := by
  constructor
  · intro h
    obtain ⟨inForce, found, hdays, hcap, hnext⟩ := h.exists_next hpos
    by_cases hlt : first.micros + days * microsPerDay < calendarEnd
    · obtain ⟨stop, hstop, hbehind, hwhole⟩ := exists_stop hfirst.whole hpos hlt
      refine ⟨hlt, ?_⟩
      rw [← hstop]
      refine (one_le_length_or_isDeadEnd_iff hfirst.whole hwhole hle).mp
        (Decidable.byContradiction fun hends => ?_)
      have hnaive (w : WallTime) : (⟨w, after.zone, false⟩ : DateTime).zone = none := hzone
      rw [next_eq_of_add_lt hdays hfirst hstop, p.matchedDates_of_naive_eq_ite [] hcap
        (hnaive first) (hnaive stop) hbehind (Int.le_refl 1)] at hnext
      simp only [Option.getD_some] at hnext
      rw [if_neg hends] at hnext
      cases hnext
    · obtain ⟨fault, hfault⟩ := next_eq_error_of_le hdays hfirst (Int.not_lt.mp hlt) []
      rw [hfault] at hnext
      cases hnext
  · rintro ⟨hlt, hends⟩
    obtain ⟨stop, hstop, hbehind, hwhole⟩ := exists_stop hfirst.whole hpos hlt
    rw [← hstop] at hends
    exact alwaysFindsNext_of_ends hzone hfirst hstop hbehind
      ((one_le_length_or_isDeadEnd_iff hfirst.whole hwhole hle).mpr hends)

/-- Behind the midnight of 1 June 9999, 212 days end shortly before the last midnight, and 214
leave the calendar. -/
theorem alwaysFindsNext_iff_lateYear :
    let after : DateTime := .naive ⟨315519408000000000, by decide, by decide⟩
    let first : WallTime := ⟨315519408060000000, by decide, by decide⟩
    newYear.AlwaysFindsNext after none first 212 ∧
      ¬ newYear.AlwaysFindsNext after none first 214 := by
  intro after first
  have hfirst : WallTime.FirstBehind (newYear.searchesSeconds none) after.wall first :=
    WallTime.firstBehind_iff.mpr (by decide)
  have hnear : newYear.AlwaysFindsNext after none first 212 ↔ _ :=
    alwaysFindsNext_iff rfl hfirst (by decide) (by decide)
  have hfar : newYear.AlwaysFindsNext after none first 214 ↔ _ :=
    alwaysFindsNext_iff rfl hfirst (by decide) (by decide)
  have hend : ¬ first.micros + 214 * microsPerDay < calendarEnd := by decide
  exact ⟨hnear.mpr ⟨by decide, .inr (.inl (by decide))⟩, fun h => hend (hfar.mp h).1⟩

end Pattern

/-- Settings without any entry are accepted.  Under them the minute behind the midnight of 1 June
9999 is the earliest match of every minute, but the search for it gives an error: four years from
there the calendar has ended. -/
theorem Call.next_everyMinute_lateYear :
    let after : DateTime := .naive ⟨315519408000000000, by decide, by decide⟩
    let first : WallTime := ⟨315519408060000000, by decide, by decide⟩
    let s : Session := { settings := some {} }
    Pattern.compile "* * * * *" = .ok .everyMinute ∧ Settings.ofEntries [] = .ok {} ∧
      Earliest {} s .everyMinute false first.micros (first.micros + 1464 * microsPerDay) first ∧
      outcome (next .everyMinute after none) {} s = (.error (.fault .beyondCalendar), s) := by
  intro after first s
  refine ⟨rfl, Settings.ofEntries_nil, ?_, rfl⟩
  exact ⟨by decide, Int.le_refl _, by decide, accepts_iff.mpr (by decide),
    fun _ _ hle hlt => absurd hlt (Int.not_lt.mpr hle)⟩

end CronSchedule
