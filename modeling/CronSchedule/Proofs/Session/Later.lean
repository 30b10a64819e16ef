import CronSchedule.Proofs.Enumerate.NextNaive
import CronSchedule.Proofs.Session.Genuine
import CronSchedule.Proofs.Session.Setback
import CronSchedule.Proofs.Zone.Steady

/-!
# Searches that go forward in time

A search takes the reading behind that of an instant for the first instant at which the clock
shows it, and goes forward from there.  So its result is later than the instant whenever its
start is, and the start is later where it is read with no greater offset.

This is lost wherever the clock moves.  Where it is set back, the reading behind one of the
second pass is taken for one of the first.  Where it is put forward, a reading that is skipped
has the offset before the change, and the first one behind the gap stands for the change itself.

* `TimeZone.SearchesForward` — the result of a search is later than what it started behind;
* `Pattern.exists_start_of_next` — the start, which no result precedes;
* `Call.instant_lt_of_next` — where its result is later, by the offset at the start;
* `TimeZone.searchesForward_of_steady` — on a steady clock searches go forward;
* `TimeZone.SearchesForward.offsetOfWall_le` — where they do, offsets fall from one reading to
  the next;
* `TimeZone.searchesForward_iff` — the steady clocks are those on which searches go forward.
-/

namespace CronSchedule

/-- Whatever a search behind an instant of the zone returns is strictly later. -/
def TimeZone.SearchesForward (z : TimeZone) : Prop :=
  ∀ (host : Host) (s behind : Session) (expression : String) (p : Pattern) (after e : DateTime)
    (matchSeconds : Option Bool), Pattern.compile expression = .ok p → after.zone = some z →
    Call.outcome (Call.next p after matchSeconds) host s = (.ok (some e), behind) →
      after.instant < e.instant

/-! ### What a search starts from -/

/-- The start of a search is the first whole second, or minute, behind the reading. -/
theorem DateTime.firstBehind_of_firstTickAfter? {after start : DateTime} {withSeconds : Bool}
    (h : after.firstTickAfter? withSeconds = some start) :
    start = ⟨start.wall, after.zone, false⟩ ∧
      WallTime.FirstBehind withSeconds after.wall start.wall := by
  rw [firstTickAfter?, Option.map_eq_some_iff] at h
  obtain ⟨wall, hwall, rfl⟩ := h
  refine ⟨rfl, WallTime.firstBehind_iff.mpr ?_⟩
  cases withSeconds
  · exact WallTime.add?_eq_some_iff.mp hwall
  · exact WallTime.add?_eq_some_iff.mp hwall

/-- What a search returns is shown no earlier than its first reading is for the first time. -/
theorem Pattern.exists_start_of_next {p : Pattern} {zones : ZoneTable} {settings : Settings}
    {after e : DateTime} {z : TimeZone} (hzone : after.zone = some z)
    {matchSeconds : Option Bool} {found : NextMatch}
    (h : p.next zones settings after matchSeconds = .ok found) (he : found.date = some e) :
    ∃ start first tick : WallTime,
      WallTime.FirstBehind (p.searchesSeconds matchSeconds) after.wall start ∧
      DateTime.toUtc? ⟨start, some z, false⟩ = some first ∧ first.micros ≤ tick.micros ∧
      DateTime.ofUtc? z tick = some e := by
  obtain ⟨start, span, stop, w, listed, hstart, -, -, hcheck, hlisted, hfound⟩ :=
    exists_window_of_next h
  obtain ⟨hshape, hbehind⟩ := DateTime.firstBehind_of_firstTickAfter? hstart
  obtain ⟨rfl, -, -, hpos, hcount⟩ := Window.check_eq_ok_cases hcheck
  rw [hzone] at hshape
  rw [Window.enumerate_of_zone (congrArg DateTime.zone hshape) rfl] at hlisted
  obtain ⟨first, last, budget, result, hfirst, -, hrun, hdates⟩ :=
    Window.exists_run_of_enumerateAware hlisted
  rw [hshape] at hfirst
  -- the result is shown at the first tick that is found
  rw [he, eq_comm, List.head?_eq_some_iff] at hfound
  obtain ⟨dates, hfound⟩ := hfound
  have hshown := map_eq_of_mapM hdates
  rw [hfound, List.map_cons] at hshown
  obtain ⟨tick, ticks, hticks, htick, -⟩ := List.map_eq_cons_iff.mp hshown
  have hle := Scan.le_of_mem_run hrun (by omega) (hticks ▸ List.mem_cons_self)
  exact ⟨w.start.wall, first, tick, hbehind, hshape ▸ hfirst, hle, htick⟩

/-- A result is later than the instant where the start of the search is read with no greater
offset. -/
theorem Call.instant_lt_of_next {z : TimeZone} (hround : z.rules.RoundTrips) {p : Pattern}
    {after e : DateTime} (hzone : after.zone = some z) {matchSeconds : Option Bool}
    (hoffset : ∀ start, WallTime.FirstBehind (p.searchesSeconds matchSeconds) after.wall start →
      z.rules.offsetOfWall (TimeZone.unixSeconds start) false ≤
        z.rules.offsetOfWall (TimeZone.unixSeconds after.wall) after.late)
    {host : Host} {s behind : Session}
    (h : outcome (next p after matchSeconds) host s = (.ok (some e), behind)) :
    after.instant < e.instant := by
  obtain ⟨inForce, found, -, hnext, he⟩ := exists_next_of_outcome h
  obtain ⟨start, first, tick, hbehind, hfirst, hle, hshown⟩ :=
    Pattern.exists_start_of_next hzone hnext he.symm
  have hlt := hbehind.lt
  have hoffset := hoffset start hbehind
  have hstart := DateTime.toUtc?_eq_some_iff.mp hfirst
  rw [DateTime.instant_of_zone_eq_some hzone,
    DateTime.instant_of_toUtc? (DateTime.toUtc?_of_ofUtc? hround hshown)]
  generalize z.rules.offsetOfWall (TimeZone.unixSeconds after.wall) after.late = before
    at hoffset ⊢
  generalize z.rules.offsetOfWall (TimeZone.unixSeconds start) false = offset at hoffset hstart
  simp only [microsPerSecond] at hstart ⊢
  omega

namespace TimeZone

/-- On a steady clock searches go forward: their start is read a second later at least. -/
theorem searchesForward_of_steady {z : TimeZone} (hround : z.rules.RoundTrips)
    (hsteady : z.rules.Steady) : z.SearchesForward := by
  intro host s behind expression p after e matchSeconds _ hzone h
  refine Call.instant_lt_of_next hround hzone (fun start hbehind => ?_) h
  exact hsteady.offsetOfWall_le hbehind.unixSeconds_lt after.late

/-! ### Clocks that move -/

variable {name : String} {rules : ZoneRules}

/-- Where searches go forward offsets fall from one reading to the next: the microsecond before
a whole second is followed by that second, and a pattern of all seconds matches there. -/
theorem SearchesForward.offsetOfWall_le (h : (named name rules).SearchesForward)
    (hwithinDay : rules.WithinDay) (hround : rules.RoundTrips) {k : Int}
    (hlow : innerStart + microsPerDay ≤ (k + unixEpoch) * microsPerSecond)
    (hhigh : (k + unixEpoch) * microsPerSecond + 20 * microsPerDay ≤ innerEnd) (late : Bool) :
    rules.offsetOfWall (k + 1) false ≤ rules.offsetOfWall k late := by
  have hroom : 0 ≤ innerStart ∧ innerEnd < calendarEnd ∧ microsPerMinute ≤ microsPerDay ∧
      microsPerSecond ≤ microsPerDay ∧ 0 < microsPerSecond := by decide
  have hnext : (k + 1 + unixEpoch) * microsPerSecond =
      (k + unixEpoch) * microsPerSecond + microsPerSecond := by
    simp only [microsPerSecond]
    omega
  let after : DateTime :=
    ⟨⟨(k + 1 + unixEpoch) * microsPerSecond - 1, by omega, by omega⟩, some (named name rules), late⟩
  have hwall : after.wall.micros = (k + 1 + unixEpoch) * microsPerSecond - 1 := rfl
  have hinner : Settings.tenDays.SearchInner after := by
    refine ⟨by omega, fun span hspan => ?_⟩
    rw [Settings.horizon_tenDays] at hspan
    obtain rfl := Except.ok.inj hspan
    omega
  obtain ⟨search⟩ :=
    exists_search (z := named name rules) hwithinDay hinner Settings.horizon_tenDays (by decide) true
  obtain ⟨e, he⟩ := DateTime.exists_ofUtc? (z := named name rules) hwithinDay search.first_inner
  have hday : 0 < microsPerDay := by decide
  have hlast := search.lt_last hwithinDay
  have hfound : Pattern.everySecond.next [] .tenDays after none = .ok ⟨some e, none⟩ :=
    search.next_eq_of_first hwithinDay rfl rfl rfl [] (by omega) he (Pattern.admits_everySecond _)
  have hcall : Call.outcome (Call.next .everySecond after none) {} { settings := some .tenDays } =
      (.ok (some e), { settings := some .tenDays }) := by
    rw [Call.outcome_next rfl]
    simp [hfound]
  have hlater := h {} _ _ "* * * * * *" .everySecond after e none rfl rfl hcall
  -- `after` is read with the offset of the second `k`, and its search starts at the next
  have hafter : unixSeconds after.wall = k := by
    simp only [unixSeconds, hwall, microsPerSecond]
    omega
  have hstart : search.wall.micros = (k + 1 + unixEpoch) * microsPerSecond := by
    have hbehind := search.wall_eq
    rw [hwall, tickStep, if_pos rfl] at hbehind
    simp only [microsPerSecond] at hbehind ⊢
    omega
  have hseconds : unixSeconds search.wall = k + 1 := by
    simp only [unixSeconds, hstart, microsPerSecond]
    omega
  have hfirst := DateTime.toUtc?_eq_some_iff.mp search.first_eq
  rw [hseconds, hstart, rules_named] at hfirst
  rw [DateTime.instant_of_zone_eq_some (z := named name rules) rfl, hafter, hwall,
    DateTime.instant_of_toUtc? (DateTime.toUtc?_of_ofUtc? (z := named name rules) hround he),
    hfirst, rules_named] at hlater
  generalize rules.offsetOfWall k after.late = before at hlater ⊢
  generalize rules.offsetOfWall (k + 1) false = offset at hlater ⊢
  simp only [microsPerSecond] at hlater
  omega

/-- The clocks on which searches go forward are the steady ones, a fixed offset being one: a
named zone has to leave its offset alone, but that it may set the clock back by one second. -/
theorem searchesForward_iff {z : TimeZone} (hz : z.rules.Ascending)
    (hwithinDay : z.rules.WithinDay) (hround : z.rules.RoundTrips) (hinner : z.ChangesInner 30) :
    z.SearchesForward ↔ z.rules.Steady := by
  refine ⟨fun h => ?_, searchesForward_of_steady hround⟩
  cases z with
  | fixed offset =>
    intro c hc
    cases hc
  | named name rules =>
    intro c hc
    obtain ⟨hearly, hlate⟩ := hinner c.2 (mem_of_mem_changesFrom hc)
    refine ZoneRules.OffsetsFall.bounds_of_mem_changes hz hwithinDay hround hc
      fun k hlow hhigh late => h.offsetOfWall_le hwithinDay hround ?_ ?_ late
    · simp only [secondsPerDay, microsPerDay, microsPerSecond] at *
      omega
    · simp only [secondsPerDay, microsPerDay, microsPerSecond] at *
      omega

/-- In London the clock is put forward and set back, and some search goes back. -/
theorem searchesForward_iff_london :
    (london.rules.Ascending ∧ london.rules.WithinDay ∧ london.rules.RoundTrips ∧
      london.ChangesInner 30) ∧
      (london.SearchesForward ↔ london.rules.Steady) ∧ ¬ london.SearchesForward := by
  have hz : london.rules.Ascending := by
    unfold ZoneRules.Ascending
    decide
  have hwithinDay : london.rules.WithinDay := ⟨by decide, by decide⟩
  have hinner : london.ChangesInner 30 := by
    unfold ChangesInner
    decide
  have hiff := searchesForward_iff hz hwithinDay roundTrips_london hinner
  have hmoved : ¬ london.rules.Steady := by
    unfold ZoneRules.Steady
    decide
  exact ⟨⟨hz, hwithinDay, roundTrips_london, hinner⟩, hiff, fun h => hmoved (hiff.mp h)⟩

end TimeZone

/-! ### The night of the change in London -/

/-- Every minute. -/
def Pattern.everyMinute : Pattern where
  expression := "* * * * *"
  alternatives := [{ layout := .standard }]

/-- Behind half past one on 27 October 2024, the second time that the clock of London shows it,
the next minute is found 59 minutes earlier. -/
theorem Call.next_everyMinute_setBack :
    let after : DateTime := ⟨⟨63865589400000000, by decide, by decide⟩, some .london, true⟩
    let found : DateTime := ⟨⟨63865589460000000, by decide, by decide⟩, some .london, false⟩
    Pattern.compile "* * * * *" = .ok .everyMinute ∧
      (∃ behind, outcome (next .everyMinute after none) {} { settings := some {} } =
        (.ok (some found), behind)) ∧
      found.instant = after.instant - 59 * microsPerMinute ∧ ¬ after.instant < found.instant := by
  intro after found
  have h := outcome_eq_of_toOption {} (s := { settings := some {} })
    (c := next .everyMinute after none) (a := some found) (by decide +kernel)
  exact ⟨rfl, ⟨_, h⟩, by decide, by decide⟩

end CronSchedule
