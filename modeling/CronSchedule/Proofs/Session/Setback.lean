import CronSchedule.Proofs.Session.Run

/-!
# Runs that go wrong

Two results are enough.  Where the clock is set back, the search behind the last second
before the change starts behind the change.  Where the clock keeps no date because a change
crosses a midnight, the search behind the last second of another date meets the date of the
change, is refused, and skips behind it.  In both cases the second at the change is passed
over, and some pattern asks for it.

* `Moment` — what a clock shows at a whole second, with room for a search around it;
* `TimeZone.IteratesPlainly.neverBack` — where every run goes right the clock is never set
  back;
* `TimeZone.IteratesPlainly.not_crossesMidnight` — nor does a change cross a midnight;
* `TimeZone.iteratesPlainly_iff` — these are the zones where every run goes right.
-/

namespace CronSchedule

/-! ### Settings and moments -/

/-- Settings whose searches go ten days ahead. -/
def Settings.tenDays : Settings where
  searchHorizonDays := .int 10

theorem Settings.horizon_tenDays : tenDays.horizon = .ok (10 * microsPerDay) := by decide

/-- What the clock of a zone shows at a whole second, at least twenty days inside the years
2 to 9998. -/
structure Moment (z : TimeZone) (n : Int) where
  tick : WallTime
  tick_eq : tick.micros = (n + unixEpoch) * microsPerSecond
  shown : DateTime
  shown_eq : DateTime.ofUtc? z tick = some shown
  start_le : innerStart + 20 * microsPerDay ≤ tick.micros
  le_end : tick.micros + 20 * microsPerDay ≤ innerEnd

/-- The clock shows something at every second within ten days of a change. -/
theorem exists_moment {z : TimeZone} (hwithinDay : z.rules.WithinDay) (hinner : z.ChangesInner 30)
    {t : Transition} (ht : t ∈ z.rules.transitions) {n : Int}
    (hstart : t.since - 10 * secondsPerDay ≤ n) (hend : n ≤ t.since + 10 * secondsPerDay) :
    Nonempty (Moment z n) := by
  obtain ⟨hearly, hlate⟩ := hinner t ht
  have hnear : innerStart + 20 * microsPerDay ≤ (n + unixEpoch) * microsPerSecond ∧
      (n + unixEpoch) * microsPerSecond + 20 * microsPerDay ≤ innerEnd := by
    simp only [secondsPerDay, microsPerDay, microsPerSecond] at *
    omega
  have hday : 0 < microsPerDay := by decide
  obtain ⟨tick, htick, -, htickInner⟩ := exists_unixSeconds (n := n) (by omega) (by omega)
  obtain ⟨shown, hshown⟩ := DateTime.exists_ofUtc? hwithinDay htickInner
  exact ⟨⟨tick, htick, shown, hshown, htick ▸ hnear.1, htick ▸ hnear.2⟩⟩

/-- A search of ten days ends eight days behind its first instant at the earliest. -/
theorem Search.lt_last {name : String} {rules : ZoneRules} {after : DateTime}
    (search : Search .tenDays (.named name rules) after true) (hwithinDay : rules.WithinDay) :
    search.first.micros + 8 * microsPerDay < search.last.micros := by
  have hfirst := DateTime.toUtc?_eq_some_iff.mp search.first_eq
  have hlast := DateTime.toUtc?_eq_some_iff.mp search.last_eq
  have hstop := search.stopWall_eq
  have hspan := search.span_eq
  rw [Settings.horizon_tenDays] at hspan
  have hspan := Except.ok.inj hspan
  have hearly := hwithinDay.offsetOfWall (TimeZone.unixSeconds search.wall) false
  have hlate := hwithinDay.offsetOfWall (TimeZone.unixSeconds search.stopWall) false
  rw [TimeZone.rules] at hfirst hlast
  generalize rules.offsetOfWall (TimeZone.unixSeconds search.wall) false = early at *
  generalize rules.offsetOfWall (TimeZone.unixSeconds search.stopWall) false = late at *
  simp only [secondsPerDay, microsPerDay, microsPerSecond] at *
  omega

namespace Moment

variable {z : TimeZone} {n : Int} (m : Moment z n)

theorem unixSeconds_tick : TimeZone.unixSeconds m.tick = n := by
  have := m.tick_eq
  simp only [TimeZone.unixSeconds, microsPerSecond] at this ⊢
  omega

theorem tick_whole : m.tick.micros % microsPerSecond = 0 := by
  rw [m.tick_eq, Int.mul_emod_left]

theorem zone_shown : m.shown.zone = some z :=
  congrArg DateTime.zone (DateTime.ofUtc?_eq_some m.shown_eq).2

theorem wall_shown :
    m.shown.wall.micros = (n + z.rules.offset n + unixEpoch) * microsPerSecond := by
  rw [(DateTime.ofUtc?_eq_some m.shown_eq).1, m.unixSeconds_tick, m.tick_eq]
  generalize z.rules.offset n = offset
  simp only [microsPerSecond]
  omega

/-- The readings at two moments have one date exactly when the clock is on one day. -/
theorem date_eq_iff {k : Int} (l : Moment z k) :
    m.shown.wall.date = l.shown.wall.date ↔ z.rules.dayAt n = z.rules.dayAt k := by
  have hm := DateTime.day_of_ofUtc? m.shown_eq
  have hl := DateTime.day_of_ofUtc? l.shown_eq
  rw [m.unixSeconds_tick] at hm
  rw [l.unixSeconds_tick] at hl
  rw [WallTime.date, WallTime.date, Date.ofDayNumber_inj]
  simp only [secondsPerDay] at hm hl
  omega

theorem searchInner (hwithinDay : z.rules.WithinDay) : Settings.tenDays.SearchInner m.shown := by
  have hwall := m.wall_shown
  have htick := m.tick_eq
  have hstart := m.start_le
  have hend := m.le_end
  have hoffset := hwithinDay.offset n
  generalize z.rules.offset n = offset at hwall hoffset
  simp only [secondsPerDay] at hoffset
  refine ⟨?_, fun span hspan => ?_⟩
  · simp only [microsPerDay, microsPerSecond] at *
    omega
  · rw [Settings.horizon_tenDays] at hspan
    obtain rfl := Except.ok.inj hspan
    simp only [microsPerDay, microsPerMinute, microsPerSecond] at *
    omega

/-- There is a search behind every moment. -/
theorem exists_search_behind (hwithinDay : z.rules.WithinDay) :
    Nonempty (Search .tenDays z m.shown true) :=
  exists_search hwithinDay (m.searchInner hwithinDay) Settings.horizon_tenDays (by decide) true

/-- The first instant of the search behind a moment, by the reading a second later. -/
theorem first_behind (search : Search .tenDays z m.shown true) :
    search.first.micros = (z.rules.firstReading (n + z.rules.offset n + 1) + unixEpoch) *
      microsPerSecond := by
  have hwall := search.wall_eq
  rw [m.wall_shown, tickStep, if_pos rfl, Int.mul_emod_left] at hwall
  have hseconds : TimeZone.unixSeconds search.wall = n + z.rules.offset n + 1 := by
    generalize z.rules.offset n = offset at hwall ⊢
    simp only [TimeZone.unixSeconds, microsPerSecond] at hwall ⊢
    omega
  rw [DateTime.toUtc?_eq_some_iff.mp search.first_eq, hseconds, hwall, ZoneRules.firstReading]
  generalize z.rules.offsetOfWall (n + z.rules.offset n + 1) false = found
  simp only [microsPerSecond]
  omega

/-- Where the reading at a moment repeats no earlier one, some search starts at the moment. -/
theorem exists_search_to (hwithinDay : z.rules.WithinDay) (hround : z.rules.RoundTrips)
    (hlate : (z.rules.offsetAt n).2 = false) :
    ∃ after : DateTime, after.zone = some z ∧ Settings.tenDays.SearchInner after ∧
      ∃ search : Search .tenDays z after true, search.first = m.tick := by
  have hstart := m.start_le
  have hend := m.le_end
  have hwall := m.wall_shown
  have htick := m.tick_eq
  have hoffset := hwithinDay.offset n
  have hnear : innerStart + microsPerDay ≤ m.shown.wall.micros ∧
      m.shown.wall.micros + 19 * microsPerDay ≤ innerEnd ∧
      m.shown.wall.micros % microsPerSecond = 0 := by
    generalize z.rules.offset n = offset at hwall hoffset
    simp only [secondsPerDay, microsPerDay, microsPerSecond] at *
    omega
  have hroom : 0 ≤ innerStart ∧ innerEnd < calendarEnd ∧ 19 * microsPerDay ≤ calendarEnd ∧
      microsPerSecond ≤ microsPerDay ∧ 0 < microsPerSecond := by decide
  let after : DateTime :=
    ⟨⟨m.shown.wall.micros - microsPerSecond, by omega, by omega⟩, some z, false⟩
  have hinner : Settings.tenDays.SearchInner after := by
    refine ⟨?_, fun span hspan => ?_⟩
    · change innerStart ≤ m.shown.wall.micros - microsPerSecond
      omega
    · rw [Settings.horizon_tenDays] at hspan
      obtain rfl := Except.ok.inj hspan
      change m.shown.wall.micros - microsPerSecond + microsPerMinute + 10 * microsPerDay ≤ innerEnd
      have : microsPerMinute ≤ microsPerDay := by decide
      omega
  obtain ⟨search⟩ := exists_search hwithinDay hinner Settings.horizon_tenDays (by decide) true
  refine ⟨after, rfl, hinner, search, ?_⟩
  -- the reading a second behind `after` is the one shown at the moment
  have hsearch : search.wall = m.shown.wall := by
    refine WallTime.ext ?_
    have hwhole := hnear.2.2
    rw [search.wall_eq]
    change m.shown.wall.micros - microsPerSecond -
      (m.shown.wall.micros - microsPerSecond) % microsPerSecond + microsPerSecond =
        m.shown.wall.micros
    simp only [microsPerSecond] at hwhole ⊢
    omega
  have hshown : m.shown = ⟨m.shown.wall, some z, false⟩ := by
    have := (DateTime.ofUtc?_eq_some m.shown_eq).2
    rwa [m.unixSeconds_tick, hlate] at this
  have hfirst := search.first_eq
  rw [hsearch, ← hshown, DateTime.toUtc?_of_ofUtc? hround m.shown_eq] at hfirst
  exact (Option.some.inj hfirst).symm

/-! ### Searches around a moment -/

variable {name : String} {rules : ZoneRules} {p : Pattern}

/-- Where the reading at a moment is a match and repeats no earlier reading, some search
returns it. -/
theorem exists_next_eq_shown (m : Moment (.named name rules) n) (hwithinDay : rules.WithinDay)
    (hround : rules.RoundTrips) (hlate : (rules.offsetAt n).2 = false)
    (hseconds : p.searchesSeconds none = true) (hadmits : p.admits true m.shown.wall = true) :
    ∃ after : DateTime, after.zone = some (.named name rules) ∧
      Settings.tenDays.SearchInner after ∧
      p.next [] .tenDays after none = .ok ⟨some m.shown, none⟩ := by
  obtain ⟨after, hzone, hinner, search, hsearch⟩ := m.exists_search_to hwithinDay hround hlate
  have hday : 0 < microsPerDay := by decide
  have hlast := search.lt_last hwithinDay
  refine ⟨after, hzone, hinner, ?_⟩
  exact search.next_eq_of_first hwithinDay rfl hzone hseconds [] (by omega)
    (hsearch ▸ m.shown_eq) hadmits

/-- Where the first instant of the search behind a moment is a match the search returns it. -/
theorem exists_next_eq_first (m : Moment (.named name rules) n) (hwithinDay : rules.WithinDay)
    (hseconds : p.searchesSeconds none = true) (hall : ∀ w : WallTime, p.admits true w = true) :
    ∃ (u : WallTime) (e : DateTime),
      u.micros = (rules.firstReading (n + rules.offset n + 1) + unixEpoch) * microsPerSecond ∧
      DateTime.ofUtc? (.named name rules) u = some e ∧
      p.next [] .tenDays m.shown none = .ok ⟨some e, none⟩ := by
  have hzone : (TimeZone.named name rules).rules.WithinDay := hwithinDay
  obtain ⟨search⟩ := m.exists_search_behind hzone
  obtain ⟨e, he⟩ := DateTime.exists_ofUtc? hzone search.first_inner
  have hday : 0 < microsPerDay := by decide
  have hlast := search.lt_last hwithinDay
  exact ⟨search.first, e, m.first_behind search, he,
    search.next_eq_of_first hwithinDay rfl m.zone_shown hseconds [] (by omega) he (hall _)⟩

/-- Where the date at the next second is refused, the search behind a moment skips to the
first reading of the midnight that ends it, and returns that if it is a match. -/
theorem next_eq_of_refused {x y : Int} (m : Moment (.named name rules) (x - 1))
    (f : Moment (.named name rules) x) (r : Moment (.named name rules) y)
    (hz : rules.Ascending) (hwithinDay : rules.WithinDay) (hminutes : rules.WholeMinutes)
    (hforward : rules.NeverBack) (hseconds : p.searchesSeconds none = true)
    (hrefused : p.acceptsDate (f.shown.wall.reading true) = some false)
    (hreading : rules.firstReading ((rules.dayAt x + 1) * secondsPerDay) = y) (hlt : x < y)
    (hadmits : p.admits true r.shown.wall = true) :
    p.next [] .tenDays m.shown none = .ok ⟨some r.shown, none⟩ := by
  have hzone : (TimeZone.named name rules).rules.WithinDay := hwithinDay
  obtain ⟨search⟩ := m.exists_search_behind hzone
  have hfirst : search.first = f.tick := by
    refine WallTime.ext ?_
    rw [search.first_eq_of_neverBack hz hforward hminutes m.shown_eq m.tick_whole, m.tick_eq,
      f.tick_eq, tickStep, if_pos rfl]
    simp only [microsPerSecond]
    omega
  have htarget : r.tick.micros = (rules.firstReading
      ((rules.dayAt (TimeZone.unixSeconds search.first) + 1) * secondsPerDay) + unixEpoch) *
        microsPerSecond := by
    rw [hfirst, f.unixSeconds_tick, hreading, r.tick_eq]
  have hsteps : r.tick.micros = search.first.micros + tickStep true * (y - x) := by
    rw [hfirst, r.tick_eq, f.tick_eq, tickStep, if_pos rfl]
    simp only [microsPerSecond]
    omega
  have hlast : r.tick.micros < search.last.micros := by
    have hnear := ZoneRules.firstReading_le hwithinDay x
    have hlast := search.lt_last hwithinDay
    rw [tickStep, if_pos rfl] at hsteps
    simp only [secondsPerDay, microsPerDay, microsPerSecond] at hnear hreading hlast hsteps
    omega
  exact search.next_eq_of_skip hwithinDay rfl m.zone_shown hseconds [] (hfirst ▸ f.shown_eq)
    hrefused htarget (by omega) hsteps hlast r.shown_eq hadmits

end Moment

/-- The pattern of all seconds. -/
def Pattern.everySecond : Pattern where
  expression := "* * * * * *"
  alternatives := [{ layout := .withSeconds }]

theorem Pattern.admits_everySecond (w : WallTime) : everySecond.admits true w = true := by
  refine admits_eq_true_iff.mpr ((accepts_eq_true_iff (w.daysInMonth?_reading true)).mpr ?_)
  refine ⟨_, List.mem_cons_self, ?_⟩
  simp [Alternative.accepts, Alternative.acceptsSecond, Alternative.acceptsDate,
    Alternative.acceptsDay, WallTime.reading, Matcher.isAny]

/-! ### Two results -/

namespace TimeZone

variable {name : String} {rules : ZoneRules}

/-- Where every run goes right, so do two searches of which one starts behind the result of
the other. -/
theorem IteratesPlainly.follows (h : (named name rules).IteratesPlainly) {p : Pattern}
    {after d e : DateTime} (hzone : after.zone = some (named name rules))
    (hafter : Settings.tenDays.SearchInner after) (hd : Settings.tenDays.SearchInner d)
    (hfirst : p.next [] .tenDays after none = .ok ⟨some d, none⟩)
    (hsecond : p.next [] .tenDays d none = .ok ⟨some e, none⟩) :
    p.Follows (named name rules) p.hasSeconds d e := by
  let c : Cursor := ⟨p, after, none, none, false⟩
  let s : Session := { settings := some .tenDays }
  have hresults : c.results {} s 2 = [d, e] := by
    rw [Cursor.results_of_next rfl rfl hfirst, Cursor.results_of_next rfl rfl hsecond]
    rfl
  have hrun := h {} s .tenDays c 2 rfl rfl hzone (by
    rw [hresults]
    intro x hx
    rcases List.mem_cons.mp hx with rfl | hx
    · exact hafter
    · rwa [List.mem_singleton.mp hx])
  rw [hresults] at hrun
  exact List.isChain_pair.mp hrun

/-- Between two results the first of which is shown at a moment there is no match. -/
theorem IteratesPlainly.admitsAt_eq_false (h : (named name rules).IteratesPlainly)
    (hround : rules.RoundTrips) {p : Pattern} (hseconds : p.hasSeconds = true) {n k : Int}
    (m : Moment (named name rules) n) (l : Moment (named name rules) k) {after : DateTime}
    (hzone : after.zone = some (named name rules)) (hafter : Settings.tenDays.SearchInner after)
    (hwithinDay : rules.WithinDay) {e : DateTime} {u : WallTime}
    (hfirst : p.next [] .tenDays after none = .ok ⟨some m.shown, none⟩)
    (hsecond : p.next [] .tenDays m.shown none = .ok ⟨some e, none⟩)
    (hu : DateTime.ofUtc? (named name rules) u = some e) (hbehind : n < k)
    (hbefore : l.tick.micros < u.micros) :
    p.admitsAt (named name rules) true l.tick = false := by
  have hround : (named name rules).rules.RoundTrips := hround
  obtain ⟨t, v, ht, hv, -, hclear⟩ :=
    h.follows hzone hafter (m.searchInner hwithinDay) hfirst hsecond
  rw [DateTime.toUtc?_of_ofUtc? hround m.shown_eq] at ht
  rw [DateTime.toUtc?_of_ofUtc? hround hu] at hv
  obtain rfl := Option.some.inj ht
  obtain rfl := Option.some.inj hv
  have hm := m.tick_eq
  have hl := l.tick_eq
  rw [hseconds] at hclear
  refine hclear l.tick l.tick_whole ?_ hbefore
  simp only [microsPerSecond] at hm hl
  omega

/-! ### Clocks that are set back -/

/-- Where every run goes right the clock is never set back: at the last second before the
first change that does so, the next second shown is one behind the change. -/
theorem IteratesPlainly.neverBack (h : (named name rules).IteratesPlainly)
    (hz : rules.Ascending) (hwithinDay : rules.WithinDay) (hround : rules.RoundTrips)
    (hinner : (named name rules).ChangesInner 30) : rules.NeverBack := by
  by_contra hback
  obtain ⟨⟨before, t⟩, hmem, hset, hforward⟩ := ZoneRules.exists_first_back hz hback
  simp only at hset hforward
  have hzone : (named name rules).rules.WithinDay := hwithinDay
  have ht : t ∈ (named name rules).rules.transitions := mem_of_mem_changesFrom hmem
  have hday : 0 < secondsPerDay := by decide
  obtain ⟨m⟩ := exists_moment hzone hinner ht (n := t.since - 1) (by omega) (by omega)
  obtain ⟨l⟩ := exists_moment hzone hinner ht (n := t.since) (by omega) (by omega)
  -- every second is a match, so both searches end at once
  have hlate : (rules.offsetAt (t.since - 1)).2 = false :=
    ZoneRules.offsetAt_snd_eq_false fun c hc hle => hforward c hc (by omega)
  obtain ⟨after, hafterZone, hafter, hfirst⟩ := m.exists_next_eq_shown hwithinDay hround hlate
    (p := .everySecond) rfl (Pattern.admits_everySecond _)
  obtain ⟨u, e, hu, he, hsecond⟩ := m.exists_next_eq_first hwithinDay
    (p := .everySecond) rfl Pattern.admits_everySecond
  have hbefore : l.tick.micros < u.micros := by
    have hoffset := (ZoneRules.offset_of_mem_changes hz hmem).1
    have hlater := ZoneRules.lt_firstReading_of_setBack hz hmem hset
    have hreading : t.since - 1 + before + 1 = t.since + before := by omega
    rw [hu, l.tick_eq, hoffset, hreading]
    simp only [microsPerSecond]
    omega
  have hmissed := h.admitsAt_eq_false hround rfl m l hafterZone hafter hwithinDay hfirst hsecond
    he (by omega) hbefore
  rw [Pattern.admitsAt, l.shown_eq, Option.any_some, Pattern.admits_everySecond] at hmissed
  cases hmissed

/-! ### Changes that cross a midnight -/

/-- Where every run goes right and the clock is never set back, no change crosses a midnight:
the search behind the last second before a date meets the date of the change, and the skip
leads behind the change. -/
theorem IteratesPlainly.not_crossesMidnight (h : (named name rules).IteratesPlainly)
    (hz : rules.Ascending) (hwithinDay : rules.WithinDay) (hminutes : rules.WholeMinutes)
    (hinner : (named name rules).ChangesInner 30) (hforward : rules.NeverBack) :
    ∀ c ∈ rules.changes, ¬ c.2.CrossesMidnight c.1 := by
  have hround : rules.RoundTrips := hforward.roundTrips hz hminutes
  have hmono := ZoneRules.dayAt_mono hz fun c hc => by
    have := hforward c hc
    simp only [nextMidnight, secondsPerDay]
    omega
  refine ZoneRules.not_crossesMidnight_of_forall hz fun c hmem hreading => ?_
  obtain ⟨before, t⟩ := c
  by_contra hne
  simp only at hreading hne
  rw [ZoneRules.nextMidnight_eq hz hmem] at hreading
  -- the date shown before the change began at some second, `x`
  obtain ⟨x, hfar, hx, hday, hdayBefore⟩ := ZoneRules.exists_first_instant hmono hwithinDay
    (t.since - 1)
  rw [← hday] at hreading hne
  have hlater : rules.dayAt x < rules.dayAt t.since := by
    have := hmono x t.since (by omega)
    omega
  -- and ends, by the look-up of its midnight, at a second behind the change, `y`
  have hreadingBound := ZoneRules.firstReading_le hwithinDay x
  generalize hreadingEq : rules.firstReading ((rules.dayAt x + 1) * secondsPerDay) = y
    at hreading hreadingBound
  have hdayBehind := hmono t.since y (by omega)
  have hzone : (named name rules).rules.WithinDay := hwithinDay
  have ht : t ∈ (named name rules).rules.transitions := mem_of_mem_changesFrom hmem
  have hlength : 1 ≤ secondsPerDay := by decide
  obtain ⟨m⟩ := exists_moment hzone hinner ht (n := x - 1) (by omega) (by omega)
  obtain ⟨f⟩ := exists_moment hzone hinner ht (n := x) (by omega) (by omega)
  obtain ⟨l⟩ := exists_moment hzone hinner ht (n := t.since) (by omega) (by omega)
  obtain ⟨r⟩ := exists_moment hzone hinner ht (n := y) (by omega) (by omega)
  -- the pattern asks for all dates in question but the one that begins at `x`
  let p := Pattern.onDates [m.shown.wall.date, l.shown.wall.date, r.shown.wall.date]
  have hlate : (rules.offsetAt (x - 1)).2 = false :=
    ZoneRules.offsetAt_snd_eq_false fun c hc _ => hforward c hc
  obtain ⟨after, hafterZone, hafter, hfirst⟩ := m.exists_next_eq_shown hwithinDay hround hlate
    (p := p) rfl (Pattern.admits_onDates_of_mem (by simp))
  have hrefused : p.acceptsDate (f.shown.wall.reading true) = some false := by
    refine Pattern.acceptsDate_onDates_of_not_mem ?_
    simp only [List.mem_cons, List.not_mem_nil, or_false, f.date_eq_iff, rules_named]
    omega
  have hsecond := m.next_eq_of_refused f r hz hwithinDay hminutes hforward (p := p) rfl hrefused
    hreadingEq (by omega) (Pattern.admits_onDates_of_mem (by simp))
  have hbefore : l.tick.micros < r.tick.micros := by
    rw [l.tick_eq, r.tick_eq]
    simp only [microsPerSecond]
    omega
  have hmissed := h.admitsAt_eq_false hround rfl m l hafterZone hafter hwithinDay hfirst hsecond
    r.shown_eq (by omega) hbefore
  rw [Pattern.admitsAt, l.shown_eq, Option.any_some,
    Pattern.admits_onDates_of_mem (by simp)] at hmissed
  cases hmissed

/-- Every run on the clock of a zone goes right exactly when the clock is never set back and
none of its changes crosses a midnight. -/
theorem iteratesPlainly_iff (hz : rules.Ascending) (hwithinDay : rules.WithinDay)
    (hminutes : rules.WholeMinutes) (hround : rules.RoundTrips)
    (hinner : (named name rules).ChangesInner 30) :
    (named name rules).IteratesPlainly ↔
      rules.NeverBack ∧ ∀ c ∈ rules.changes, ¬ c.2.CrossesMidnight c.1 := by
  constructor
  · intro h
    have hforward := h.neverBack hz hwithinDay hround hinner
    exact ⟨hforward, h.not_crossesMidnight hz hwithinDay hminutes hinner hforward⟩
  · rintro ⟨hforward, hchanges⟩
    exact iteratesPlainly_of_neverBack hz hwithinDay hminutes hforward
      (ZoneRules.keepsDates_of_forall hz hchanges)

/-- London in 2024: an hour ahead from 01:00 UTC on 31 March, and back at 01:00 UTC on
27 October. -/
def london : TimeZone :=
  .named "Europe/London" ⟨0, [⟨1711846800, 3600⟩, ⟨1729990800, 0⟩]⟩

/-- In London an instant is found again. -/
theorem roundTrips_london : london.rules.RoundTrips := by
  intro x
  by_cases hspring : 1711846800 ≤ x <;> by_cases hautumn : 1729990800 ≤ x <;>
    simp [london, rules, ZoneRules.offset, ZoneRules.offsetAt, ZoneRules.offsetOfWall, lastChange,
      hspring, hautumn] <;> grind

/-- In London the clock is set back, and some run goes wrong. -/
theorem iteratesPlainly_iff_london :
    (london.rules.Ascending ∧ london.rules.WithinDay ∧ london.rules.WholeMinutes ∧
      london.rules.RoundTrips ∧ london.ChangesInner 30) ∧
      (london.IteratesPlainly ↔
        london.rules.NeverBack ∧ ∀ c ∈ london.rules.changes, ¬ c.2.CrossesMidnight c.1) ∧
      ¬ london.IteratesPlainly := by
  have hz : london.rules.Ascending := by
    unfold ZoneRules.Ascending
    decide
  have hwithinDay : london.rules.WithinDay := ⟨by decide, by decide⟩
  have hminutes : london.rules.WholeMinutes := ⟨by decide, by decide⟩
  have hinner : london.ChangesInner 30 := by
    unfold ChangesInner
    decide
  have hiff := iteratesPlainly_iff hz hwithinDay hminutes roundTrips_london hinner
  have hback : ¬ london.rules.NeverBack := by
    unfold ZoneRules.NeverBack
    decide
  exact ⟨⟨hz, hwithinDay, hminutes, roundTrips_london, hinner⟩, hiff,
    fun h => hback (hiff.mp h).1⟩

end TimeZone

/-! ### The night of the change in London -/

/-- Half past one, every day. -/
def Pattern.halfPastOne : Pattern where
  expression := "30 1 * * *"
  alternatives := [{
    layout := .standard
    minute := .values (.ofList [30])
    hour := .values (.ofList [1]) }]

/-- From one o'clock of summer time on 27 October 2024 on, half past one comes twice, and the
second time it is found again and again. -/
theorem Pattern.results_halfPastOne :
    let c : Cursor := ⟨.halfPastOne,
      ⟨⟨63865587600000000, by decide, by decide⟩, some .london, false⟩, none, none, false⟩
    let early : DateTime := ⟨⟨63865589400000000, by decide, by decide⟩, some .london, false⟩
    let late : DateTime := ⟨⟨63865589400000000, by decide, by decide⟩, some .london, true⟩
    c.results {} { settings := some {} } 3 = [early, late, late] ∧
      ¬ (c.results {} { settings := some {} } 3).IsChain
        (halfPastOne.Follows .london (halfPastOne.searchesSeconds none)) := by
  intro c early late
  have hresults : c.results {} { settings := some {} } 3 = [early, late, late] := by
    decide +kernel
  refine ⟨hresults, fun hchain => ?_⟩
  rw [hresults, List.isChain_cons_cons, List.isChain_pair] at hchain
  obtain ⟨t, u, ht, hu, hlt, -⟩ := hchain.2
  obtain rfl : t = u := Option.some.inj (ht.symm.trans hu)
  exact Int.lt_irrefl _ hlt

end CronSchedule
