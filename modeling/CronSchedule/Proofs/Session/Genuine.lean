import CronSchedule.Proofs.Enumerate.Sound
import CronSchedule.Proofs.Session.Lookup
import CronSchedule.Proofs.Session.Setback

/-!
# Every date that is listed is a match

A tick is tested on one clock and reported on another, and a date that is matched by itself
is read a third time.  Where each instant is found again from what the clock of the window's
start shows at it, all three see the same reading, so matching a listed date under the
arguments of the enumeration accepts it.

Of a zone no more is asked than that, and that the name of the start's zone means the same
zone in the table: a clock that is set back or crosses a midnight may lose matches but adds
none.

* `DateTime.instant` — the instant of a date and time as a number;
* `ZoneTable.Knows` — the table has the zone under its name;
* `Call.Genuine` — a date of the window that is a match;
* `Call.dates_genuine` — an enumeration that succeeds lists such dates, in ascending order and
  no more than are wanted.
-/

namespace CronSchedule

/-! ### Instants -/

/-- The instant of a date and time in microseconds, on the clock of UTC, or without a zone on
the only clock there is. -/
def DateTime.instant (d : DateTime) : Int := d.utcMicros?.getD d.wall.micros

theorem DateTime.instant_of_zone_eq_none {d : DateTime} (h : d.zone = none) :
    d.instant = d.wall.micros := by
  simp [instant, utcMicros?, offset?, h]

theorem DateTime.instant_of_zone_eq_some {d : DateTime} {z : TimeZone} (h : d.zone = some z) :
    d.instant = d.wall.micros -
      z.rules.offsetOfWall (TimeZone.unixSeconds d.wall) d.late * microsPerSecond := by
  simp [instant, utcMicros?, offset?, h, z.offsetOfWall_eq]

theorem DateTime.instant_of_toUtc? {d : DateTime} {t : WallTime} (h : d.toUtc? = some t) :
    d.instant = t.micros := by
  obtain ⟨n, hn, ht⟩ := Option.bind_eq_some_iff.mp h
  rw [instant, hn, Option.getD_some]
  exact WallTime.ofMicros?_eq_some_iff.mp ht

/-- A named zone is the one that the table has under its name. -/
def ZoneTable.Knows (zones : ZoneTable) (z : TimeZone) : Prop :=
  ∀ name rules, z = .named name rules → zones.lookup name = some rules

/-- A zone that the table knows is told from the zone of a reference by its name. -/
theorem ZoneTable.Knows.eq_of_isSame {zones : ZoneTable} {home z : TimeZone} {ref : ZoneRef}
    (hknows : zones.Knows home) (href : zones.resolve ref = .ok z) (hsame : home.isSame z = true) :
    z = home := by
  cases home with
  | fixed offset => cases hsame
  | named name rules =>
    cases z with
    | fixed offset => cases hsame
    | named other rules' =>
      obtain rfl : name = other := eq_of_beq hsame
      cases ref with
      | offset seconds =>
        rw [resolve] at href
        split at href <;> cases href
      | name key =>
        rw [resolve, find?] at href
        cases hlookup : zones.lookup key with
        | none =>
          rw [hlookup] at href
          cases href
        | some found =>
          rw [hlookup] at href
          cases href
          rw [hknows name rules rfl] at hlookup
          rw [Option.some.inj hlookup]

/-! ### Windows -/

/-- Values that are all found, in the places where they are looked for. -/
theorem map_eq_of_mapM {α β : Type} {f : α → Option β} {xs : List α} {ys : List β}
    (h : xs.mapM f = some ys) : xs.map f = ys.map some := by
  induction xs generalizing ys with
  | nil =>
    cases h
    rfl
  | cons x xs ih =>
    rw [List.mapM_cons] at h
    obtain ⟨y, hy, h⟩ := Option.bind_eq_some_iff.mp h
    obtain ⟨zs, hzs, h⟩ := Option.bind_eq_some_iff.mp h
    obtain rfl := Option.some.inj h
    rw [List.map_cons, List.map_cons, hy, ih hzs]

/-- The ticks that a scan finds are in ascending order. -/
theorem Scan.ascending_of_sublist {s : Scan} {first : WallTime} {ticks : List WallTime}
    (h : ticks.Sublist ((first.ticksUntil s.stop s.step).filter s.hits)) :
    ticks.Pairwise fun t u => t.micros < u.micros :=
  ((WallTime.ticksUntil_ascending s.step_pos).sublist List.filter_sublist).sublist h

/-- The instants at which a clock shows what it does at ticks are the ticks. -/
theorem DateTime.ascending_of_map_ofUtc? {z : TimeZone} (hround : z.rules.RoundTrips)
    {ticks : List WallTime} {ds : List DateTime}
    (hticks : ticks.Pairwise fun t u => t.micros < u.micros)
    (hshown : ticks.map (ofUtc? z) = ds.map some) :
    ds.Pairwise fun d e => d.instant < e.instant := by
  have hinstants : (ds.map some).Pairwise fun x y =>
      ∀ d ∈ x, ∀ e ∈ y, d.instant < e.instant := by
    rw [← hshown, List.pairwise_map]
    refine hticks.imp fun {t u} htu d hd e he => ?_
    rw [instant_of_toUtc? (toUtc?_of_ofUtc? hround hd),
      instant_of_toUtc? (toUtc?_of_ofUtc? hround he)]
    exact htu
  exact (List.pairwise_map.mp hinstants).imp fun hlt => hlt _ rfl _ rfl

/-- What a window that passes its check says of the arguments. -/
theorem Window.check_eq_ok_cases {start : DateTime} {stop : Option Instant} {count : Int}
    {w : Window} (h : check (.dateTime start) stop count = .ok w) :
    w.start = start ∧ endOf start stop = .ok w.stop ∧ start.isNaive = w.stop.isNaive ∧
      0 < count ∧ w.count = count.toNat := by
  unfold check at h
  dsimp only at h
  cases hend : endOf start stop with
  | error e =>
    rw [hend] at h
    cases h
  | ok last =>
    simp only [hend] at h
    split at h
    · cases h
    · rename_i hkind
      split at h
      · cases h
      · rename_i hcount
        split at h
        · cases h
          exact ⟨rfl, rfl, by simpa using hkind, Int.not_le.mp hcount, rfl⟩
        · cases h

namespace Call

variable {host : Host} {s behind : Session} {inForce : Settings} {p : Pattern}

/-! ### Matching a single date -/

/-- The answer about a date is that about what the clock of the call shows at it. -/
theorem outcome_accepts_of_shown (hs : s.settings = some inForce) {d shown : DateTime}
    {ref : Option ZoneRef} (hshown : outcome (dateTimeIn d ref) host s = (.ok shown, s))
    (matchSeconds : Option Bool) :
    outcome (accepts p (.dateTime d) ref matchSeconds) host s =
      (.ok (p.admits (matchSeconds.getD inForce.comparesSeconds) shown.wall), s) := by
  have hseconds : outcome (comparesSeconds matchSeconds) host s =
      (.ok (matchSeconds.getD inForce.comparesSeconds), s) := by
    cases matchSeconds with
    | some b => rfl
    | none =>
      simp only [comparesSeconds, outcome_bind, outcome_settings_of_some hs, outcome_pure,
        Option.getD_none]
  simp only [accepts, wallClock, outcome_bind, hseconds, hshown, outcome_ofResult,
    p.matchesWall_eq]

theorem outcome_dateTimeIn_of_isNaive {d : DateTime} (hnaive : d.isNaive = true)
    {ref : Option ZoneRef} (href : ∀ r ∈ ref, ∃ z, host.zones.resolve r = .ok z) :
    outcome (dateTimeIn d ref) host s = (.ok d, s) := by
  cases ref with
  | none => rfl
  | some r =>
    obtain ⟨z, hz⟩ := href r rfl
    simp only [dateTimeIn, outcome_bind, outcome_read, outcome_ofResult, hz, hnaive, if_true,
      outcome_pure]

/-- A date goes to the clock of a reference by the instant at which its own clock shows it. -/
theorem outcome_dateTimeIn_some {home clock : TimeZone} {t : WallTime} {d : DateTime}
    {ref : ZoneRef} (hround : home.rules.RoundTrips) (hknows : host.zones.Knows home)
    (href : host.zones.resolve ref = .ok clock) (hd : DateTime.ofUtc? home t = some d) :
    outcome (dateTimeIn d (some ref)) host s =
      (withinCalendar (DateTime.ofUtc? clock t), s) := by
  have hzone : d.zone = some home := by rw [(DateTime.ofUtc?_eq_some hd).2]
  have hinZone : d.inZone? clock = DateTime.ofUtc? clock t := by
    rw [DateTime.inZone?, hzone, Option.any_some]
    split
    · rename_i hsame
      rw [hknows.eq_of_isSame href hsame, hd]
    · rw [DateTime.toUtc?_of_ofUtc? hround hd, Option.bind_some]
  have haware : d.isNaive = false := by rw [DateTime.isNaive, hzone, Option.isNone_some]
  simp only [dateTimeIn, outcome_bind, outcome_read, outcome_ofResult, href, haware, hinZone,
    Bool.false_eq_true, if_false]

/-- A date is shown on the clock of a reference as the instant found again from it. -/
theorem outcome_dateTimeIn_of_ofUtc? {home clock : TimeZone} {t : WallTime} {d shown : DateTime}
    {ref : Option ZoneRef} (hround : home.rules.RoundTrips) (hknows : host.zones.Knows home)
    (hclock : host.zones.evaluationZone home ref = .ok clock)
    (hd : DateTime.ofUtc? home t = some d) (hshown : DateTime.ofUtc? clock t = some shown) :
    outcome (dateTimeIn d ref) host s = (.ok shown, s) := by
  cases ref with
  | none =>
    obtain rfl : home = clock := Except.ok.inj hclock
    obtain rfl : d = shown := Option.some.inj (hd.symm.trans hshown)
    rfl
  | some r => rw [outcome_dateTimeIn_some hround hknows hclock hd, hshown, withinCalendar]

/-! ### Genuine dates -/

/-- A date of the window from `start` up to `last` that is a match: it is written on the clock
of the start, lies whole steps behind it and before the end as an instant, and is accepted
whenever it is matched by itself under the same arguments and settings. -/
structure Genuine (host : Host) (inForce : Settings) (p : Pattern) (start last : DateTime)
    (matchSeconds : Option Bool) (ref : Option ZoneRef) (d : DateTime) : Prop where
  zone_eq : d.zone = start.zone
  steps : ∃ k : Nat, d.instant =
    start.instant + tickStep (matchSeconds.getD inForce.comparesSeconds) * k
  start_le : start.instant ≤ d.instant
  lt_last : d.instant < last.instant
  accepted : ∀ s : Session, s.settings = some inForce →
    outcome (accepts p (.dateTime d) ref matchSeconds) host s = (.ok true, s)

/-- Without zones every tick that a scan may find is a genuine date. -/
theorem genuine_naive {start last : DateTime} (hstart : start.zone = none)
    (hlast : last.zone = none) {matchSeconds : Option Bool} {ref : Option ZoneRef}
    (href : ∀ r ∈ ref, ∃ z, host.zones.resolve r = .ok z) {scan : Scan}
    (hscan : scan = ⟨p, none, matchSeconds.getD inForce.comparesSeconds, last.wall⟩)
    {t : WallTime} (ht : t ∈ (start.wall.ticksUntil scan.stop scan.step).filter scan.hits) :
    Genuine host inForce p start last matchSeconds ref (.naive t) := by
  subst hscan
  rw [List.mem_filter, WallTime.mem_ticksUntil (Scan.step_pos _)] at ht
  obtain ⟨⟨hbefore, k, hk⟩, hhit⟩ := ht
  have hnonneg := Int.mul_nonneg
    (Int.le_of_lt (tickStep_bounds (matchSeconds.getD inForce.comparesSeconds)).1)
    (Int.natCast_nonneg k)
  have hbehind : (DateTime.naive t).instant = start.instant +
      tickStep (matchSeconds.getD inForce.comparesSeconds) * k := by
    rw [DateTime.instant_of_zone_eq_none hstart]
    exact hk
  refine ⟨hstart.symm, ⟨k, hbehind⟩, by omega, ?_, fun s hs => ?_⟩
  · rw [DateTime.instant_of_zone_eq_none hlast]
    exact hbefore
  · rw [outcome_accepts_of_shown hs (outcome_dateTimeIn_of_isNaive rfl href)]
    rw [Scan.hits_eq_of_read (show _ = some (DateTime.naive t) from rfl)] at hhit
    exact congrArg (Except.ok · , s) hhit

/-- With zones what the clock of the start shows at such a tick is a genuine date. -/
theorem genuine_aware {start last : DateTime} {home clock : TimeZone} {first stop : WallTime}
    (hstart : start.zone = some home) (hround : home.rules.RoundTrips)
    (hknows : host.zones.Knows home) {matchSeconds : Option Bool} {ref : Option ZoneRef}
    (hclock : host.zones.evaluationZone home ref = .ok clock) (hfirst : start.toUtc? = some first)
    (hstop : last.toUtc? = some stop) {scan : Scan}
    (hscan : scan = ⟨p, some clock, matchSeconds.getD inForce.comparesSeconds, stop⟩)
    {t : WallTime} (ht : t ∈ (first.ticksUntil scan.stop scan.step).filter scan.hits)
    {d : DateTime} (hd : DateTime.ofUtc? home t = some d) :
    Genuine host inForce p start last matchSeconds ref d := by
  subst hscan
  rw [List.mem_filter, WallTime.mem_ticksUntil (Scan.step_pos _)] at ht
  obtain ⟨⟨hbefore, k, hk⟩, hhit⟩ := ht
  obtain ⟨shown, hshown, hadmits⟩ := (Option.any_eq_true _ _).mp hhit
  rw [Scan.read_of_clock rfl] at hshown
  have hinstant := DateTime.instant_of_toUtc? (DateTime.toUtc?_of_ofUtc? hround hd)
  have hnonneg := Int.mul_nonneg
    (Int.le_of_lt (tickStep_bounds (matchSeconds.getD inForce.comparesSeconds)).1)
    (Int.natCast_nonneg k)
  have hbehind : d.instant = start.instant +
      tickStep (matchSeconds.getD inForce.comparesSeconds) * k := by
    rw [hinstant, DateTime.instant_of_toUtc? hfirst]
    exact hk
  refine ⟨?_, ⟨k, hbehind⟩, by omega, ?_, fun s hs => ?_⟩
  · rw [(DateTime.ofUtc?_eq_some hd).2, hstart]
  · rw [hinstant, DateTime.instant_of_toUtc? hstop]
    exact hbefore
  · rw [outcome_accepts_of_shown hs (outcome_dateTimeIn_of_ofUtc? hround hknows hclock hd hshown)]
    exact congrArg (Except.ok · , s) hadmits

/-- The zone on whose clock an enumeration with zones looks for matches. -/
theorem exists_evaluationZone_of_enumerate {w : Window} {zones : ZoneTable} {home : TimeZone}
    {matchSeconds : Option Bool} {ref : Option ZoneRef} {found : Enumeration}
    (hhome : w.start.zone = some home)
    (h : w.enumerate zones inForce p matchSeconds ref = .ok found) :
    ∃ clock, zones.evaluationZone home ref = .ok clock ∧
      w.enumerateAware home clock p (matchSeconds.getD inForce.comparesSeconds)
        inForce.tickLimit = .ok found := by
  unfold Window.enumerate at h
  simp only [hhome] at h
  cases ref with
  | none => exact ⟨home, rfl, h⟩
  | some r =>
    simp only at h
    cases hclock : zones.resolve r with
    | error e =>
      rw [hclock] at h
      cases h
    | ok clock =>
      rw [hclock] at h
      exact ⟨clock, hclock, h⟩

/-- An enumeration that succeeds lists genuine dates, in ascending order and no more than are
wanted. -/
theorem dates_genuine {start last : DateTime} {stop : Option Instant} {count : Int}
    {matchSeconds : Option Bool} {ref : Option ZoneRef} {listed : List DateTime}
    (hlast : Window.endOf start stop = .ok last)
    (href : ∀ r ∈ ref, ∃ z, host.zones.resolve r = .ok z)
    (hround : ∀ z ∈ start.zone, z.rules.RoundTrips)
    (hknows : ∀ z ∈ start.zone, host.zones.Knows z)
    (h : outcome (dates p (.dateTime start) stop count matchSeconds ref) host s =
      (.ok listed, behind)) :
    ∃ inForce, behind.settings = some inForce ∧ (listed.length : Int) ≤ count ∧
      listed.Pairwise (fun d e => d.instant < e.instant) ∧
      ∀ d ∈ listed, Genuine host inForce p start last matchSeconds ref d := by
  obtain ⟨w, inForce, found, hcheck, hinForce, hfound, rfl⟩ := exists_enumerate_of_outcome_dates h
  obtain ⟨rfl, hend, hkind, hpos, hcount⟩ := Window.check_eq_ok_cases hcheck
  obtain rfl : w.stop = last := Except.ok.inj (hend.symm.trans hlast)
  refine ⟨inForce, hinForce, ?_⟩
  cases hzone : w.start.zone with
  | none =>
    have hstop : w.stop.zone = none := by
      simpa [DateTime.isNaive, hzone] using hkind.symm
    simp only [Window.enumerate, hzone] at hfound
    obtain ⟨budget, result, hrun, hdates⟩ := Window.exists_run_of_enumerateNaive hfound
    obtain ⟨more, hticks, hlength, hsub⟩ := Scan.run_sublist _ _ _ _ hrun (by omega)
    obtain rfl : result.ticks = more := hticks
    rw [hdates]
    refine ⟨?_, ?_, ?_⟩
    · rw [List.length_map]
      omega
    · rw [List.pairwise_map]
      exact Scan.ascending_of_sublist hsub
    · intro d hd
      obtain ⟨t, ht, rfl⟩ := List.mem_map.mp hd
      exact genuine_naive hzone hstop href rfl (hsub.subset ht)
  | some home =>
    obtain ⟨clock, hclock, haware⟩ := exists_evaluationZone_of_enumerate hzone hfound
    obtain ⟨first, lastTick, budget, result, hfirst, hlastTick, hrun, hdates⟩ :=
      Window.exists_run_of_enumerateAware haware
    obtain ⟨more, hticks, hlength, hsub⟩ := Scan.run_sublist _ _ _ _ hrun (by omega)
    obtain rfl : result.ticks = more := hticks
    have hhome := hround home hzone
    have hshown := map_eq_of_mapM hdates
    refine ⟨?_, ?_, ?_⟩
    · have hsame := congrArg List.length hshown
      rw [List.length_map, List.length_map] at hsame
      omega
    · exact DateTime.ascending_of_map_ofUtc? hhome (Scan.ascending_of_sublist hsub) hshown
    · intro d hd
      obtain ⟨t, ht, htd⟩ := List.mem_map.mp (hshown ▸ List.mem_map_of_mem hd)
      exact genuine_aware hzone hhome (hknows home hzone) hclock hfirst hlastTick rfl
        (hsub.subset ht) htd

/-! ### The night of the change in London -/

/-- One minute before and on each of two evening hours of 26 October. -/
def eveningHours : Pattern where
  expression := "0,59 19,20 26 10 *"
  alternatives := [{
    layout := .standard
    minute := .values (.ofList [0, 59])
    hour := .values (.ofList [19, 20])
    dayOfMonth := .values (.ofList [26])
    month := .values (.ofList [10]) }]

/-- No more than three ticks. -/
def threeTicks : Settings where
  maxScanTicks := .int 3
  ticks_pos := .inr rfl

/-- Evening in Toronto, while the clock of London is set back: of five dates that are wanted
three ticks give two, the second with the earlier reading. -/
theorem dates_genuine_setBack :
    let start : DateTime := ⟨⟨63865591110000000, by decide, by decide⟩, some .london, false⟩
    let last : DateTime := ⟨⟨63865593000000000, by decide, by decide⟩, some .london, false⟩
    let host : Host := ⟨[("Europe/London", TimeZone.london.rules),
      ("America/Toronto", TimeZone.toronto.rules)], {}⟩
    let ref : Option ZoneRef := some (.name "America/Toronto")
    let listed : List DateTime :=
      [⟨⟨63865591170000000, by decide, by decide⟩, some .london, false⟩,
        ⟨⟨63865587630000000, by decide, by decide⟩, some .london, true⟩]
    ∃ behind, outcome (dates eveningHours (.dateTime start) (some (.dateTime last)) 5 none ref)
        host { settings := some threeTicks } = (.ok listed, behind) ∧
      ∃ inForce, behind.settings = some inForce ∧ (listed.length : Int) ≤ 5 ∧
        listed.Pairwise (fun d e => d.instant < e.instant) ∧
        ∀ d ∈ listed, Genuine host inForce eveningHours start last none ref d := by
  intro start last host ref listed
  have h := outcome_eq_of_toOption host (s := { settings := some threeTicks })
    (c := dates eveningHours (.dateTime start) (some (.dateTime last)) 5 none ref) (a := listed)
    (by decide +kernel)
  refine ⟨_, h, dates_genuine rfl ?_ ?_ ?_ h⟩
  · intro r hr
    obtain rfl := Option.some.inj hr
    exact ⟨.toronto, rfl⟩
  · intro z hz
    cases hz
    exact TimeZone.roundTrips_london
  · intro z hz name rules hnamed
    cases hz
    cases hnamed
    rfl

end Call

end CronSchedule
