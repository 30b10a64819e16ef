import CronSchedule.Proofs.Enumerate.Naive
import CronSchedule.Proofs.Enumerate.Next

/-!
# The search behind a reading of the only clock

Without zones a search scans readings, from the first whole second or minute behind a reading
up to the horizon.  The horizon is load-bearing in one way only: the window that it opens has
to end by the last midnight of the calendar, and then the search finds the first match of the
window, or nothing where no reading of the window is a match.

* `SearchWindow` — the window of the search behind a reading;
* `WallTime.FirstBehind` — where it starts, said without arithmetic;
* `Pattern.next_naive` — the result of a search is the first match in its window;
* `Pattern.admits_floor` — a match is one from the start of its second, or minute, on;
* `SearchWindow.find?_eq_none_iff` — a search finds nothing exactly when no reading of its
  window is a match.
-/

namespace CronSchedule

/-! ### Windows -/

/-- The search behind the reading `after` goes from the first whole second, or minute, behind
it up to the horizon, which lies behind the start and by the last midnight. -/
structure SearchWindow (settings : Settings) (withSeconds : Bool) (after start stop : WallTime) :
    Prop where
  start_eq : start.micros =
    after.micros - after.micros % tickStep withSeconds + tickStep withSeconds
  horizon_eq : settings.horizon = .ok (stop.micros - start.micros)
  lt : start.micros < stop.micros
  stop_le : stop.micros ≤ lastMidnight

namespace SearchWindow

variable {settings : Settings} {withSeconds : Bool} {after start stop : WallTime}

/-- The start is a whole second, or minute. -/
theorem start_whole (h : SearchWindow settings withSeconds after start stop) :
    start.micros % tickStep withSeconds = 0 := by
  rw [h.start_eq, Int.add_emod_right]
  exact Int.emod_eq_zero_of_dvd Int.dvd_self_sub_emod

end SearchWindow

/-- `first` is the first whole second, or minute, behind the reading. -/
structure WallTime.FirstBehind (withSeconds : Bool) (after first : WallTime) : Prop where
  whole : first.micros % tickStep withSeconds = 0
  lt : after.micros < first.micros
  le : ∀ t : WallTime, t.micros % tickStep withSeconds = 0 → after.micros < t.micros →
    first.micros ≤ t.micros

namespace WallTime

variable {withSeconds : Bool} {after first : WallTime}

/-- What a search starts from is the first whole second, or minute, behind the reading. -/
theorem firstBehind_iff : FirstBehind withSeconds after first ↔
    first.micros = after.micros - after.micros % tickStep withSeconds + tickStep withSeconds := by
  have hstep := (tickStep_bounds withSeconds).1
  have hmod := Int.emod_nonneg after.micros (Int.ne_of_gt hstep)
  have hmodlt := Int.emod_lt_of_pos after.micros hstep
  -- a whole reading behind `after` is at least one step behind the start of `after`'s
  have hbehind {t : WallTime} (ht : t.micros % tickStep withSeconds = 0)
      (hlt : after.micros < t.micros) :
      after.micros - after.micros % tickStep withSeconds + tickStep withSeconds ≤ t.micros := by
    obtain ⟨i, hi⟩ := Int.dvd_of_emod_eq_zero ht
    have hsplit := Int.mul_ediv_add_emod after.micros (tickStep withSeconds)
    have hless : after.micros / tickStep withSeconds < i :=
      Int.lt_of_mul_lt_mul_left (by omega) (Int.le_of_lt hstep)
    have := Int.mul_le_mul_of_nonneg_left (Int.add_one_le_of_lt hless) (Int.le_of_lt hstep)
    rw [Int.mul_add, Int.mul_one] at this
    omega
  have hwhole : (after.micros - after.micros % tickStep withSeconds + tickStep withSeconds) %
      tickStep withSeconds = 0 := by
    rw [Int.add_emod_right]
    exact Int.emod_eq_zero_of_dvd Int.dvd_self_sub_emod
  constructor
  · intro h
    have hle := hbehind h.whole h.lt
    have hnonneg := after.nonneg
    have hend := first.lt_end
    let t : WallTime := ⟨_, by omega, Int.lt_of_le_of_lt hle hend⟩
    have hlt : after.micros < t.micros := by
      show after.micros < after.micros - after.micros % tickStep withSeconds + tickStep withSeconds
      omega
    exact Int.le_antisymm (h.le t hwhole hlt) hle
  · intro h
    exact ⟨by rw [h, hwhole], by omega, fun t ht hlt => by rw [h]; exact hbehind ht hlt⟩

/-- The reading is not of the second from which the search starts, but of an earlier one. -/
theorem FirstBehind.unixSeconds_lt (h : FirstBehind withSeconds after first) :
    TimeZone.unixSeconds after < TimeZone.unixSeconds first := by
  have hlt := h.lt
  have hwhole : first.micros % microsPerSecond = 0 := by
    have hstep := h.whole
    cases withSeconds
    · simp only [tickStep, microsPerMinute, microsPerSecond, Bool.false_eq_true, if_false] at hstep ⊢
      omega
    · exact hstep
  simp only [TimeZone.unixSeconds, microsPerSecond] at hwhole ⊢
  omega

/-- A span that leads to a reading within the calendar is no longer than spans may be. -/
theorem horizon_of_add_lt {settings : Settings} {span : Int}
    (hdays : settings.searchHorizonDays.days = .ok span)
    (hlt : first.micros + span < calendarEnd) : settings.horizon = .ok span := by
  have hnonneg := first.nonneg
  have hfew : span / microsPerDay ≤ maxSpanDays := by
    have : calendarEnd ≤ maxSpanDays * microsPerDay := by decide
    exact Int.ediv_le_of_le_mul (by decide) (by omega)
  rw [Settings.horizon, hdays]
  exact if_pos hfew

/-- A span of the settings that ends by the last midnight opens a window. -/
theorem FirstBehind.exists_searchWindow (h : FirstBehind withSeconds after first)
    {settings : Settings} {span : Int} (hdays : settings.searchHorizonDays.days = .ok span)
    (hpos : 0 < span) (hend : first.micros + span ≤ lastMidnight) :
    ∃ stop, SearchWindow settings withSeconds after first stop ∧
      stop.micros = first.micros + span := by
  have hnonneg := first.nonneg
  have hroom : lastMidnight < calendarEnd := by decide
  let stop : WallTime := ⟨first.micros + span, by omega, by omega⟩
  have hlast : stop.micros = first.micros + span := rfl
  have hbefore : first.micros + span < calendarEnd := by omega
  have hhorizon := horizon_of_add_lt hdays hbefore
  exact ⟨stop, ⟨firstBehind_iff.mp h, hhorizon.trans (congrArg Except.ok (by omega)), by omega,
    by omega⟩, hlast⟩

end WallTime

/-- A horizon of whole days that ends by the last midnight opens a window. -/
theorem Settings.exists_searchWindow {settings : Settings} {days : Int}
    (hdays : settings.searchHorizonDays = .int days) {after : WallTime}
    (hend : after.micros + microsPerMinute + days * microsPerDay ≤ lastMidnight)
    (withSeconds : Bool) : ∃ start stop, SearchWindow settings withSeconds after start stop := by
  have hpos : 0 < days := by
    have := settings.days_pos
    rw [hdays] at this
    exact of_decide_eq_true (Option.some.inj this)
  have hspan : 0 < days * microsPerDay := Int.mul_pos hpos (by decide)
  obtain ⟨hstep, hminute⟩ := tickStep_bounds withSeconds
  have hnonneg := after.nonneg
  have hmod := Int.emod_nonneg after.micros (Int.ne_of_gt hstep)
  have hmodlt := Int.emod_lt_of_pos after.micros hstep
  have hroom : lastMidnight < calendarEnd := by decide
  have hstart : 0 ≤ after.micros - after.micros % tickStep withSeconds + tickStep withSeconds ∧
      after.micros - after.micros % tickStep withSeconds + tickStep withSeconds +
        days * microsPerDay ≤ lastMidnight := by omega
  let start : WallTime := ⟨_, hstart.1, by omega⟩
  have hfirst : WallTime.FirstBehind withSeconds after start := WallTime.firstBehind_iff.mpr rfl
  have hdays : settings.searchHorizonDays.days = .ok (days * microsPerDay) := by
    rw [hdays, Value.days]
  obtain ⟨stop, hwindow, -⟩ := hfirst.exists_searchWindow hdays hspan hstart.2
  exact ⟨start, stop, hwindow⟩

/-! ### The result of a search -/

/-- Without zones a search returns the first match in its window. -/
theorem Pattern.next_naive {settings : Settings} {withSeconds : Bool} {start stop : WallTime}
    {after : DateTime} (hzone : after.zone = none)
    (hwindow : SearchWindow settings withSeconds after.wall start stop)
    (hcap : settings.tickLimit = none) {p : Pattern} {matchSeconds : Option Bool}
    (hseconds : p.searchesSeconds matchSeconds = withSeconds) (zones : ZoneTable) :
    p.next zones settings after matchSeconds =
      .ok {
        date := ((start.ticksUntil stop (tickStep withSeconds)).find?
          (p.admits withSeconds)).map .naive
        warning := none } := by
  have hstart := DateTime.firstTickAfter?_eq_some hwindow.start_eq
  rw [hzone] at hstart
  have hstop : DateTime.later? (.naive start) (stop.micros - start.micros) =
      some (.naive stop) := by
    have hadd : start.add? (stop.micros - start.micros) = some stop :=
      WallTime.add?_eq_some_iff.mpr (by omega)
    rw [DateTime.later?, show (DateTime.naive start).wall = start from rfl, hadd]
    rfl
  have hmatched := p.matchedDates_of_naive zones hcap (DateTime.zone_naive start)
    (DateTime.zone_naive stop) hwindow.lt hwindow.stop_le (Int.le_refl 1) (some withSeconds) none
  simp only [next, hseconds, hstart, withinCalendar, ok_bind, nextFrom, hwindow.horizon_eq,
    liftFault]
  rw [show (⟨start, none, false⟩ : DateTime) = .naive start from rfl, hstop]
  simp only [ok_bind, hmatched, Option.getD_some]
  rw [← List.head?_filter, List.head?_map, Int.toNat_one, List.head?_take]
  rfl

/-! ### Searches that find nothing -/

/-- What a clock shows stays the same from one tick to the next. -/
theorem WallTime.reading_eq_of_ediv_eq {withSeconds : Bool} {t w : WallTime}
    (h : t.micros / tickStep withSeconds = w.micros / tickStep withSeconds) :
    t.reading withSeconds = w.reading withSeconds := by
  have hminutes : t.micros / microsPerMinute = w.micros / microsPerMinute := by
    cases withSeconds with
    | false => exact h
    | true =>
      simp only [tickStep, if_true, microsPerMinute, microsPerSecond] at h ⊢
      omega
  have hday : t.day = w.day := by
    simp only [day, microsPerDay, microsPerMinute, microsPerSecond] at hminutes ⊢
    omega
  have hhour : t.hour = w.hour := by
    simp only [hour, microOfDay, microsPerDay, microsPerMinute, microsPerSecond] at hminutes ⊢
    omega
  have hminute : t.minute = w.minute := by
    simp only [minute, microOfDay, microsPerDay, microsPerMinute, microsPerSecond] at hminutes ⊢
    omega
  have hsecond : (if withSeconds then some t.second else none) =
      if withSeconds then some w.second else none := by
    cases withSeconds with
    | false => rfl
    | true =>
      refine congrArg some ?_
      simp only [tickStep, if_true, second, microOfDay, microsPerDay, microsPerSecond] at h ⊢
      omega
  simp only [reading, date, hday, hhour, hminute, hsecond]

/-- A whole second, or minute, up to a reading is not behind the start of the reading's. -/
theorem le_sub_emod_of_le {step a b : Int} (hstep : 0 < step) (ha : a % step = 0)
    (hle : a ≤ b) : a ≤ b - b % step := by
  obtain ⟨k, rfl⟩ := Int.dvd_of_emod_eq_zero ha
  have hk : k ≤ b / step := (Int.le_ediv_iff_mul_le hstep).mpr (by rwa [Int.mul_comm])
  have hsplit := Int.mul_ediv_add_emod b step
  have := Int.mul_le_mul_of_nonneg_left hk (Int.le_of_lt hstep)
  omega

/-- A match is one from the start of its second, or minute, on. -/
theorem Pattern.admits_floor {p : Pattern} {withSeconds : Bool} {t w : WallTime}
    (h : t.micros = w.micros - w.micros % tickStep withSeconds) :
    p.admits withSeconds t = p.admits withSeconds w := by
  have hpos := (tickStep_bounds withSeconds).1
  have hreading : t.reading withSeconds = w.reading withSeconds := by
    have hsplit := Int.mul_ediv_add_emod w.micros (tickStep withSeconds)
    have ht : t.micros = tickStep withSeconds * (w.micros / tickStep withSeconds) := by omega
    refine WallTime.reading_eq_of_ediv_eq ?_
    rw [ht, Int.mul_ediv_cancel_left _ (Int.ne_of_gt hpos)]
  rw [Pattern.admits, hreading, Pattern.admits]

namespace SearchWindow

variable {settings : Settings} {withSeconds : Bool} {after start stop : WallTime}

/-- A search finds nothing exactly when no reading of its window, on a whole second or
minute or not, is a match. -/
theorem find?_eq_none_iff (h : SearchWindow settings withSeconds after start stop) (p : Pattern) :
    (start.ticksUntil stop (tickStep withSeconds)).find? (p.admits withSeconds) = none ↔
      ∀ w : WallTime, start.micros ≤ w.micros → w.micros < stop.micros →
        p.matchesWall w withSeconds = .ok false := by
  have hpos := (tickStep_bounds withSeconds).1
  rw [List.find?_eq_none]
  constructor
  · intro hnone w hge hlt
    -- `w` is no match because the tick at the start of its second, or minute, is none
    have hmod := Int.emod_nonneg w.micros (Int.ne_of_gt hpos)
    have hfloor : start.micros ≤ w.micros - w.micros % tickStep withSeconds :=
      le_sub_emod_of_le hpos h.start_whole hge
    let t : WallTime := ⟨w.micros - w.micros % tickStep withSeconds,
      Int.le_trans start.nonneg hfloor, by have := w.lt_end; omega⟩
    have ht : t ∈ start.ticksUntil stop (tickStep withSeconds) := by
      have hwhole : t.micros % tickStep withSeconds = 0 :=
        Int.emod_eq_zero_of_dvd Int.dvd_self_sub_emod
      refine (WallTime.mem_ticksUntil_of_whole hpos h.start_whole).mpr ⟨hwhole, hfloor, ?_⟩
      show w.micros - w.micros % tickStep withSeconds < stop.micros
      omega
    rw [p.matchesWall_eq, ← p.admits_floor (t := t) rfl, Bool.eq_false_iff.mpr (hnone t ht)]
  · intro hnone t ht
    obtain ⟨hle, hlt⟩ := WallTime.bounds_of_mem_ticksUntil hpos ht
    have hrefused := hnone t hle hlt
    rw [p.matchesWall_eq] at hrefused
    exact Bool.eq_false_iff.mp (Except.ok.inj hrefused)

/-- There is one window behind a reading. -/
theorem eq (h : SearchWindow settings withSeconds after start stop) {start' stop' : WallTime}
    (h' : SearchWindow settings withSeconds after start' stop') : start = start' ∧ stop = stop' := by
  have hstart : start.micros = start'.micros := h.start_eq.trans h'.start_eq.symm
  have hspan := Except.ok.inj (h.horizon_eq.symm.trans h'.horizon_eq)
  exact ⟨WallTime.ext hstart, WallTime.ext (by omega)⟩

end SearchWindow

end CronSchedule
