import CronSchedule.Enumerate.Next
import CronSchedule.Proofs.Enumerate.Aware
import CronSchedule.Proofs.Zone.Forward

/-!
# The search behind an instant

A search starts from the reading behind that of an instant, and this reading is taken for
the first instant at which the clock shows it.  From there on the search is a scan like any
other.

* `Settings.SearchInner` — a search that stays in the years 2 to 9998;
* `Search` — the window of a search, as readings and as instants;
* `Search.next_eq` — the result of a search is what its scan finds;
* `Search.next_eq_of_keepsDates` — on a clock that keeps its dates that is the first match
  from the start of the window on.
-/

namespace CronSchedule

open ZoneRules (offsetOfWall_step)

/-! ### Instants found again -/

/-- Where an instant is found again from what the clock shows, it is the reading's. -/
theorem DateTime.toUtc?_of_ofUtc? {z : TimeZone} (hround : z.rules.RoundTrips) {t : WallTime}
    {d : DateTime} (h : ofUtc? z t = some d) : d.toUtc? = some t := by
  obtain ⟨hwall, hd⟩ := ofUtc?_eq_some h
  have hback := hround (TimeZone.unixSeconds t)
  rw [← unixSeconds_of_ofUtc? h] at hback
  rw [hd, toUtc?_eq_some_iff, hback]
  omega

/-! ### Where a search starts -/

theorem DateTime.firstTickAfter?_eq_some {after : DateTime} {withSeconds : Bool} {wall : WallTime}
    (h : wall.micros = after.wall.micros - after.wall.micros % tickStep withSeconds +
      tickStep withSeconds) :
    after.firstTickAfter? withSeconds = some ⟨wall, after.zone, false⟩ := by
  rw [firstTickAfter?, Option.map_eq_some_iff]
  refine ⟨wall, ?_, rfl⟩
  cases withSeconds
  · exact WallTime.add?_eq_some_iff.mpr h
  · exact WallTime.add?_eq_some_iff.mpr h

/-- The search behind a reading stays in the years 2 to 9998. -/
def Settings.SearchInner (settings : Settings) (d : DateTime) : Prop :=
  innerStart ≤ d.wall.micros ∧
    ∀ span, settings.horizon = .ok span → d.wall.micros + microsPerMinute + span ≤ innerEnd

/-- The window of the search behind `after` on the clock of a zone. -/
structure Search (settings : Settings) (z : TimeZone) (after : DateTime) (withSeconds : Bool) where
  /-- the first reading -/
  wall : WallTime
  wall_eq : wall.micros = after.wall.micros - after.wall.micros % tickStep withSeconds +
    tickStep withSeconds
  /-- how far ahead the search goes -/
  span : Int
  span_eq : settings.horizon = .ok span
  span_pos : 0 < span
  /-- the reading at which it ends -/
  stopWall : WallTime
  stopWall_eq : stopWall.micros = wall.micros + span
  wall_inner : innerStart ≤ wall.micros
  stopWall_inner : stopWall.micros ≤ innerEnd
  /-- the first instant -/
  first : WallTime
  first_eq : DateTime.toUtc? ⟨wall, some z, false⟩ = some first
  first_inner : first.Inner
  /-- the first instant behind the window -/
  last : WallTime
  last_eq : DateTime.toUtc? ⟨stopWall, some z, false⟩ = some last
  last_inner : last.Inner

/-- A search that stays in the inner years and ends behind its start has a window. -/
theorem exists_search {settings : Settings} {z : TimeZone} {after : DateTime}
    (hwithinDay : z.rules.WithinDay) (hinner : settings.SearchInner after) {span : Int}
    (hspan : settings.horizon = .ok span) (hpos : 0 < span) (withSeconds : Bool) :
    Nonempty (Search settings z after withSeconds) := by
  obtain ⟨hstep, hminute⟩ := tickStep_bounds withSeconds
  have hstart := hinner.1
  have hend := hinner.2 span hspan
  have hroom : innerEnd < calendarEnd := by decide
  have hnonneg := after.wall.nonneg
  have hmod := Int.emod_nonneg after.wall.micros (Int.ne_of_gt hstep)
  have hmodlt := Int.emod_lt_of_pos after.wall.micros hstep
  let wall : WallTime := ⟨after.wall.micros - after.wall.micros % tickStep withSeconds +
    tickStep withSeconds, by omega, by omega⟩
  have hwall : after.wall.micros < wall.micros ∧
      wall.micros ≤ after.wall.micros + microsPerMinute := by
    simp only [wall]
    omega
  let stopWall : WallTime := ⟨wall.micros + span, by omega, by omega⟩
  have hstopWall : stopWall.micros = wall.micros + span := rfl
  obtain ⟨first, hfirst, hfirstInner⟩ :=
    DateTime.exists_toUtc? hwithinDay (w := wall) (by omega) (by omega) false
  obtain ⟨last, hlast, hlastInner⟩ :=
    DateTime.exists_toUtc? hwithinDay (w := stopWall) (by omega) (by omega) false
  exact ⟨{
    wall, wall_eq := rfl, span, span_eq := hspan, span_pos := hpos
    stopWall, stopWall_eq := hstopWall, wall_inner := by omega, stopWall_inner := by omega
    first, first_eq := hfirst, first_inner := hfirstInner
    last, last_eq := hlast, last_inner := hlastInner }⟩

/-- A search that returns has enumerated a window from its start up to its horizon. -/
theorem Pattern.exists_window_of_next {p : Pattern} {zones : ZoneTable} {settings : Settings}
    {after : DateTime} {matchSeconds : Option Bool} {found : NextMatch}
    (h : p.next zones settings after matchSeconds = .ok found) :
    ∃ start span stop w listed, after.firstTickAfter? (p.searchesSeconds matchSeconds) = some start ∧
      settings.horizon = .ok span ∧ start.later? span = some stop ∧
      Window.check (.dateTime start) (some (.dateTime stop)) 1 = .ok w ∧
      w.enumerate zones settings p (some (p.searchesSeconds matchSeconds)) none = .ok listed ∧
      found.date = listed.dates.head? := by
  obtain ⟨start, hstart, h⟩ := bind_eq_ok_iff.mp h
  obtain ⟨span, hspan, h⟩ := bind_eq_ok_iff.mp h
  obtain ⟨stop, hstop, h⟩ := bind_eq_ok_iff.mp h
  obtain ⟨listed, hlisted, h⟩ := bind_eq_ok_iff.mp h
  obtain ⟨w, hcheck, hlisted⟩ := bind_eq_ok_iff.mp hlisted
  rw [← Except.ok.inj h]
  exact ⟨start, span, stop, w, listed, withinCalendar_eq_ok_iff.mp hstart,
    liftFault_eq_ok_iff.mp hspan, withinCalendar_eq_ok_iff.mp hstop, hcheck, hlisted, rfl⟩

/-- A search that returns goes ahead by a span that ends behind its start. -/
theorem Pattern.exists_span_of_next {p : Pattern} {zones : ZoneTable} {settings : Settings}
    {name : String} {rules : ZoneRules} {after : DateTime}
    (hzone : after.zone = some (.named name rules)) {matchSeconds : Option Bool}
    {found : NextMatch} (h : p.next zones settings after matchSeconds = .ok found) :
    ∃ span, settings.horizon = .ok span ∧ 0 < span := by
  obtain ⟨start, span, stop, w, listed, hstart, hspan, hstop, hcheck, -⟩ :=
    exists_window_of_next h
  refine ⟨span, hspan, Decidable.byContradiction fun hpos => ?_⟩
  obtain ⟨wall, -, rfl⟩ := Option.map_eq_some_iff.mp hstart
  obtain ⟨stopWall, hadd, rfl⟩ := Option.map_eq_some_iff.mp hstop
  have hle : stopWall.micros = wall.micros + span := WallTime.add?_eq_some_iff.mp hadd
  have hbefore : DateTime.isBefore ⟨wall, after.zone, false⟩ ⟨stopWall, after.zone, false⟩ =
      false := by
    simp only [DateTime.isBefore, DateTime.sharesClock, hzone, TimeZone.isSame,
      beq_self_eq_true, if_true, decide_eq_false_iff_not]
    omega
  rw [Window.check_eq_error (by rfl) (Int.le_refl 1) hbefore] at hcheck
  cases hcheck

/-! ### The result of a search -/

namespace Search

variable {settings : Settings} {name : String} {rules : ZoneRules} {after : DateTime}
  {withSeconds : Bool}

/-- The scan of a search. -/
def scan (search : Search settings (.named name rules) after withSeconds) (p : Pattern) : Scan :=
  ⟨p, some (.named name rules), withSeconds, search.last⟩

theorem awareWindow (search : Search settings (.named name rules) after withSeconds)
    (hwithinDay : rules.WithinDay) (zones : ZoneTable) :
    AwareWindow zones none (.named name rules) (.named name rules)
      ⟨search.wall, some (.named name rules), false⟩
      ⟨search.stopWall, some (.named name rules), false⟩ := by
  have hstart := search.wall_inner
  have hend := search.stopWall_inner
  have hstop := search.stopWall_eq
  have hpos := search.span_pos
  refine ⟨rfl, hwithinDay, ⟨_, rfl, hwithinDay⟩, rfl, ⟨hstart, ?_⟩, ⟨?_, hend⟩, ?_⟩
  · simp only
    omega
  · simp only
    omega
  · simp only [DateTime.isBefore, DateTime.sharesClock, TimeZone.isSame, beq_self_eq_true,
      if_true, decide_eq_true_eq]
    omega

/-- The result of a search is what its scan finds. -/
theorem next_eq (search : Search settings (.named name rules) after withSeconds)
    (hwithinDay : rules.WithinDay) (hcap : settings.tickLimit = none)
    (hzone : after.zone = some (.named name rules)) {p : Pattern} {matchSeconds : Option Bool}
    (hseconds : p.searchesSeconds matchSeconds = withSeconds) (zones : ZoneTable)
    {ticks : List WallTime} {dates : List DateTime}
    (hrun : (search.scan p).run ((search.scan p).gridSize search.first) 1 search.first [] =
      .ok ⟨ticks, none⟩)
    (hdates : ticks.mapM (DateTime.ofUtc? (.named name rules)) = some dates) :
    p.next zones settings after matchSeconds = .ok ⟨dates.head?, none⟩ := by
  have hstart := DateTime.firstTickAfter?_eq_some search.wall_eq
  rw [hzone] at hstart
  have hstop : DateTime.later? ⟨search.wall, some (.named name rules), false⟩ search.span =
      some ⟨search.stopWall, some (.named name rules), false⟩ := by
    rw [DateTime.later?, WallTime.add?_eq_some_iff.mpr search.stopWall_eq]
    rfl
  have hmatched := (search.awareWindow hwithinDay zones).matchedDates_eq p hcap (Int.le_refl 1)
    withSeconds
  rw [Window.enumerateAware_eq_ok search.first_eq search.last_eq (search.scan p) rfl hrun hdates]
    at hmatched
  simp only [Pattern.next, hseconds, hstart, withinCalendar, ok_bind, Pattern.nextFrom,
    search.span_eq, liftFault, hstop, hmatched]
  rfl

/-- On a clock that keeps its dates a search returns the first match in its window. -/
theorem next_eq_of_keepsDates (search : Search settings (.named name rules) after withSeconds)
    (hwithinDay : rules.WithinDay) (hkeeps : rules.KeepsDates) (hcap : settings.tickLimit = none)
    (hzone : after.zone = some (.named name rules)) {p : Pattern} {matchSeconds : Option Bool}
    (hseconds : p.searchesSeconds matchSeconds = withSeconds) (zones : ZoneTable) :
    p.next zones settings after matchSeconds =
      .ok {
        date := ((search.first.ticksUntil search.last (tickStep withSeconds)).find?
          (p.admitsAt (.named name rules) withSeconds)).bind
            (DateTime.ofUtc? (.named name rules))
        warning := none } := by
  have hfaithful : (search.scan p).Faithful search.first :=
    Scan.faithful_of_keepsDates rfl hwithinDay hkeeps search.first_inner search.last_inner
  have hrun := Scan.run_eq_of_faithful hfaithful _ 1 search.first [] (Int.le_refl _)
    (Nat.le_refl _) (Nat.le_refl 1)
  rw [Scan.hits_eq_admitsAt rfl, List.reverse_nil, List.nil_append] at hrun
  rw [← List.head?_filter]
  change Scan.run _ _ _ _ _ = .ok ⟨((search.first.ticksUntil search.last
    (tickStep withSeconds)).filter (p.admitsAt (.named name rules) withSeconds)).take 1, none⟩
    at hrun
  cases hticks : (search.first.ticksUntil search.last (tickStep withSeconds)).filter
      (p.admitsAt (.named name rules) withSeconds) with
  | nil =>
    rw [hticks] at hrun
    exact search.next_eq hwithinDay hcap hzone hseconds zones hrun List.mapM_nil
  | cons u us =>
    have hmem : u ∈ (search.first.ticksUntil search.last (tickStep withSeconds)).filter
        (p.admitsAt (.named name rules) withSeconds) := by
      rw [hticks]
      exact List.mem_cons_self
    obtain ⟨d, hd, -⟩ := (Option.any_eq_true _ _).mp (List.mem_filter.mp hmem).2
    rw [hticks] at hrun
    have hdates : [u].mapM (DateTime.ofUtc? (.named name rules)) = some [d] := by
      rw [List.mapM_cons, hd]
      rfl
    rw [List.head?_cons, Option.bind_some, hd]
    exact search.next_eq hwithinDay hcap hzone hseconds zones hrun hdates

/-! ### Where the window starts -/

/-- With offsets of whole minutes the first instant is a whole second or minute. -/
theorem first_whole (search : Search settings (.named name rules) after withSeconds)
    (hminutes : rules.WholeMinutes) : search.first.micros % tickStep withSeconds = 0 := by
  have hwall := search.wall_eq
  have hfirst := DateTime.toUtc?_eq_some_iff.mp search.first_eq
  have hoffset := hminutes.offsetOfWall (TimeZone.unixSeconds search.wall) false
  rw [TimeZone.rules] at hfirst
  generalize rules.offsetOfWall (TimeZone.unixSeconds search.wall) false = offset
    at hfirst hoffset
  cases withSeconds
  · simp only [tickStep, microsPerMinute, microsPerSecond, Bool.false_eq_true, if_false] at *
    omega
  · simp only [tickStep, microsPerSecond, if_true] at *
    omega

/-- On a clock that is never set back the search behind a whole second or minute starts at
the next. -/
theorem first_eq_of_neverBack (search : Search settings (.named name rules) after withSeconds)
    (hz : rules.Ascending) (hforward : rules.NeverBack) (hminutes : rules.WholeMinutes)
    {t : WallTime} (hshown : DateTime.ofUtc? (.named name rules) t = some after)
    (hwhole : t.micros % tickStep withSeconds = 0) :
    search.first.micros = t.micros + tickStep withSeconds := by
  have hwall := search.wall_eq
  have hafter := (DateTime.ofUtc?_eq_some hshown).1
  have hfirst := DateTime.toUtc?_eq_some_iff.mp search.first_eq
  have hoffset := hminutes.offset (TimeZone.unixSeconds t)
  have hstep := offsetOfWall_step hz hforward hminutes (x := TimeZone.unixSeconds t)
    (k := tickStep withSeconds / microsPerSecond) (by cases withSeconds <;> decide)
  have hseconds : TimeZone.unixSeconds search.wall = TimeZone.unixSeconds t +
      rules.offset (TimeZone.unixSeconds t) + tickStep withSeconds / microsPerSecond := by
    rw [TimeZone.rules] at hafter
    generalize rules.offset (TimeZone.unixSeconds t) = offset at hafter hoffset ⊢
    cases withSeconds
    · simp only [TimeZone.unixSeconds, tickStep, microsPerMinute, microsPerSecond,
        Bool.false_eq_true, if_false] at *
      omega
    · simp only [TimeZone.unixSeconds, tickStep, microsPerSecond, if_true] at *
      omega
  rw [TimeZone.rules, hseconds, hstep] at hfirst
  rw [TimeZone.rules] at hafter
  generalize rules.offset (TimeZone.unixSeconds t) = offset at hafter hoffset hfirst
  cases withSeconds
  · simp only [tickStep, microsPerMinute, microsPerSecond, Bool.false_eq_true, if_false] at *
    omega
  · simp only [tickStep, microsPerSecond, if_true] at *
    omega

/-! ### Searches that end at once -/

/-- Where the first tick is a match the search returns it. -/
theorem next_eq_of_first (search : Search settings (.named name rules) after withSeconds)
    (hwithinDay : rules.WithinDay) (hcap : settings.tickLimit = none)
    (hzone : after.zone = some (.named name rules)) {p : Pattern} {matchSeconds : Option Bool}
    (hseconds : p.searchesSeconds matchSeconds = withSeconds) (zones : ZoneTable)
    (hlt : search.first.micros < search.last.micros) {d : DateTime}
    (hshown : DateTime.ofUtc? (.named name rules) search.first = some d)
    (hadmits : p.admits withSeconds d.wall = true) :
    p.next zones settings after matchSeconds = .ok ⟨some d, none⟩ := by
  have hhit : (search.scan p).hits search.first = true := by
    rw [Scan.hits_eq_of_read ((Scan.read_of_clock rfl _).trans hshown)]
    exact hadmits
  obtain ⟨budget, hbudget⟩ := (search.scan p).exists_gridSize hlt
  have hrun := Scan.run_of_hits hlt hhit budget []
  rw [← hbudget] at hrun
  have hdates : [search.first].mapM (DateTime.ofUtc? (.named name rules)) = some [d] := by
    rw [List.mapM_cons, hshown]
    rfl
  exact search.next_eq hwithinDay hcap hzone hseconds zones hrun hdates

/-- Where the date of the first tick is refused and the target of the skip is a match, the
search returns that. -/
theorem next_eq_of_skip (search : Search settings (.named name rules) after withSeconds)
    (hwithinDay : rules.WithinDay) (hcap : settings.tickLimit = none)
    (hzone : after.zone = some (.named name rules)) {p : Pattern} {matchSeconds : Option Bool}
    (hseconds : p.searchesSeconds matchSeconds = withSeconds) (zones : ZoneTable)
    {shown : DateTime} (hshown : DateTime.ofUtc? (.named name rules) search.first = some shown)
    (hrefused : p.acceptsDate (shown.wall.reading withSeconds) = some false)
    {target : WallTime} (htarget : target.micros = (rules.firstReading
      ((rules.dayAt (TimeZone.unixSeconds search.first) + 1) * secondsPerDay) + unixEpoch) *
        microsPerSecond)
    {k : Int} (hk : 1 ≤ k) (hsteps : target.micros = search.first.micros + tickStep withSeconds * k)
    (hlt : target.micros < search.last.micros) {d : DateTime}
    (htargetShown : DateTime.ofUtc? (.named name rules) target = some d)
    (hadmits : p.admits withSeconds d.wall = true) :
    p.next zones settings after matchSeconds = .ok ⟨some d, none⟩ := by
  have hpos := (tickStep_bounds withSeconds).1
  have hbehind : tickStep withSeconds * 1 ≤ tickStep withSeconds * k :=
    Int.mul_le_mul_of_nonneg_left hk (Int.le_of_lt hpos)
  rw [Int.mul_one] at hbehind
  have hfirst : search.first.micros < search.last.micros := by omega
  have hskip : (search.scan p).skipDay? search.first shown.wall = some target := by
    obtain ⟨midnight, found, hmidnight, hfound, hmicros, -⟩ :=
      DateTime.toUtc?_midnight (z := .named name rules) hwithinDay search.first_inner hshown
    obtain rfl : found = target := WallTime.ext (hmicros.trans htarget.symm)
    exact (search.scan p).skipDay?_eq_some hmidnight hfound hk hsteps
  have hhit : (search.scan p).hits target = true := by
    rw [Scan.hits_eq_of_read ((Scan.read_of_clock rfl _).trans htargetShown)]
    exact hadmits
  obtain ⟨rest, hrest⟩ := (search.scan p).exists_gridSize hlt
  obtain ⟨budget, hbudget⟩ := (search.scan p).exists_gridSize hfirst
  have hsmaller : (search.scan p).gridSize target < (search.scan p).gridSize search.first :=
    (search.scan p).gridSize_lt_of_le hfirst
      (show search.first.micros + tickStep withSeconds ≤ target.micros by omega)
  obtain ⟨more, rfl⟩ : ∃ more, budget = more + 1 := ⟨budget - 1, by omega⟩
  have hrun := Scan.run_of_refused hfirst ((Scan.read_of_clock rfl _).trans hshown) hrefused hskip
    (more + 1) 1 []
  rw [Scan.run_of_hits hlt hhit more [], ← hbudget] at hrun
  have hdates : [target].mapM (DateTime.ofUtc? (.named name rules)) = some [d] := by
    rw [List.mapM_cons, htargetShown]
    rfl
  exact search.next_eq hwithinDay hcap hzone hseconds zones hrun hdates

end Search

/-! ### The first match behind an instant -/

/-- On a clock that keeps its dates what a search returns is the first match from the start
of its window on. -/
theorem Pattern.exists_first_of_next {settings : Settings} {name : String} {rules : ZoneRules}
    {after e : DateTime} (hwithinDay : rules.WithinDay) (hminutes : rules.WholeMinutes)
    (hkeeps : rules.KeepsDates) (hcap : settings.tickLimit = none)
    (hzone : after.zone = some (.named name rules)) (hinner : settings.SearchInner after)
    {p : Pattern} {zones : ZoneTable} {matchSeconds : Option Bool} {warning : Option CapWarning}
    (h : p.next zones settings after matchSeconds = .ok ⟨some e, warning⟩) :
    ∃ (search : Search settings (.named name rules) after (p.searchesSeconds matchSeconds))
      (t : WallTime), DateTime.ofUtc? (.named name rules) t = some e ∧ t.Inner ∧
        t.micros % tickStep (p.searchesSeconds matchSeconds) = 0 ∧
        search.first.micros ≤ t.micros ∧
        ∀ u : WallTime, u.micros % tickStep (p.searchesSeconds matchSeconds) = 0 →
          search.first.micros ≤ u.micros → u.micros < t.micros →
          p.admitsAt (.named name rules) (p.searchesSeconds matchSeconds) u = false := by
  obtain ⟨span, hspan, hpos⟩ := exists_span_of_next hzone h
  obtain ⟨search⟩ := exists_search (z := .named name rules) hwithinDay hinner hspan hpos
    (p.searchesSeconds matchSeconds)
  rw [search.next_eq_of_keepsDates hwithinDay hkeeps hcap hzone rfl] at h
  have hdate := congrArg NextMatch.date (Except.ok.inj h)
  obtain ⟨t, hfind, hshown⟩ := Option.bind_eq_some_iff.mp hdate
  have hstep := (tickStep_bounds (p.searchesSeconds matchSeconds)).1
  obtain ⟨hmem, -, hfirst⟩ := WallTime.find?_ticksUntil_eq_some hstep hfind
  have hfirstWhole := search.first_whole hminutes
  obtain ⟨hwhole, hle, hlt⟩ := (WallTime.mem_ticksUntil_of_whole hstep hfirstWhole).mp hmem
  refine ⟨search, t, hshown, ⟨Int.lt_of_lt_of_le search.first_inner.1 hle,
    Int.lt_trans hlt search.last_inner.2⟩, hwhole, hle, fun u hu hge hless => ?_⟩
  exact hfirst u ((WallTime.mem_ticksUntil_of_whole hstep hfirstWhole).mpr
    ⟨hu, hge, Int.lt_trans hless hlt⟩) hless

end CronSchedule
