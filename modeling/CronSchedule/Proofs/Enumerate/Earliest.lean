import CronSchedule.Proofs.Enumerate.NextNaive

/-!
# The earliest match behind a reading

Without zones a search is settled by what matching answers at single readings: the window
runs from the first whole second, or minute, behind the reading as far as the horizon, and
the result is the first reading of the window that is accepted when it is matched by itself.

The start is said here by its place among the whole readings and not by how it is computed:
a start that repeated the reading, or left out the first candidate, would not do.

* `Call.Accepts` — matching a single reading answers yes;
* `Call.Earliest` — the first whole reading of a stretch that is accepted;
* `Call.next_earliest` — a search returns it, and nothing exactly when there is none.
-/

namespace CronSchedule.Call

/-- The pattern accepts the reading when it is matched by itself. -/
def Accepts (host : Host) (s : Session) (p : Pattern) (withSeconds : Bool) (t : WallTime) :
    Prop :=
  outcome (accepts p (.dateTime (.naive t)) none (some withSeconds)) host s = (.ok true, s)

/-- The first whole second, or minute, from `first` on and before `stop` that the pattern
accepts. -/
structure Earliest (host : Host) (s : Session) (p : Pattern) (withSeconds : Bool)
    (first stop : Int) (t : WallTime) : Prop where
  whole : t.micros % tickStep withSeconds = 0
  first_le : first ≤ t.micros
  lt_stop : t.micros < stop
  accepted : Accepts host s p withSeconds t
  least : ∀ u : WallTime, u.micros % tickStep withSeconds = 0 → first ≤ u.micros →
    u.micros < t.micros → ¬ Accepts host s p withSeconds u

variable {host : Host} {s : Session} {p : Pattern} {withSeconds : Bool}

theorem accepts_iff {t : WallTime} :
    Accepts host s p withSeconds t ↔ p.admits withSeconds t = true := by
  rw [Accepts, outcome_accepts_dateTime]
  constructor
  · intro h
    exact Except.ok.inj (congrArg Prod.fst h)
  · intro h
    exact congrArg (Except.ok · , s) h

/-- Among the ticks from a whole reading on the first that passes is the earliest. -/
theorem find?_eq_some_iff_earliest {first stop t : WallTime}
    (hwhole : first.micros % tickStep withSeconds = 0) :
    (first.ticksUntil stop (tickStep withSeconds)).find? (p.admits withSeconds) = some t ↔
      Earliest host s p withSeconds first.micros stop.micros t := by
  have hstep := (tickStep_bounds withSeconds).1
  simp only [WallTime.find?_ticksUntil_eq_some_iff hstep,
    WallTime.mem_ticksUntil_of_whole hstep hwhole]
  constructor
  · rintro ⟨⟨htwhole, hle, hlt⟩, hpass, hfirst⟩
    refine ⟨htwhole, hle, hlt, accepts_iff.mpr hpass, fun u hu hge hless haccepts => ?_⟩
    have hrefused := hfirst u ⟨hu, hge, Int.lt_trans hless hlt⟩ hless
    rw [accepts_iff.mp haccepts] at hrefused
    cases hrefused
  · intro h
    refine ⟨⟨h.whole, h.first_le, h.lt_stop⟩, accepts_iff.mp h.accepted, ?_⟩
    rintro u ⟨hu, hge, -⟩ hless
    rw [Bool.eq_false_iff]
    exact fun hpass => h.least u hu hge hless (accepts_iff.mpr hpass)

/-- None of the ticks from a whole reading on passes exactly when no whole reading of the
window is accepted. -/
theorem find?_eq_none_iff_not_accepts {first stop : WallTime}
    (hwhole : first.micros % tickStep withSeconds = 0) :
    (first.ticksUntil stop (tickStep withSeconds)).find? (p.admits withSeconds) = none ↔
      ∀ t : WallTime, t.micros % tickStep withSeconds = 0 → first.micros ≤ t.micros →
        t.micros < stop.micros → ¬ Accepts host s p withSeconds t := by
  have hstep := (tickStep_bounds withSeconds).1
  simp only [List.find?_eq_none, WallTime.mem_ticksUntil_of_whole hstep hwhole, accepts_iff]
  constructor
  · intro h t ht hle hlt
    exact h t ⟨ht, hle, hlt⟩
  · rintro h t ⟨ht, hle, hlt⟩
    exact h t ht hle hlt

/-- Without zones and without a limit on ticks, a search behind a reading returns the earliest
whole second, or minute, behind it and within the horizon that is accepted when it is matched
by itself, and leaves the session as it is.  It returns nothing exactly when there is none;
what it returns lies behind the reading, and nothing that is accepted lies between. -/
theorem next_earliest {inForce : Settings} (hs : s.settings = some inForce)
    (hcap : inForce.tickLimit = none) {span : Int}
    (hdays : inForce.searchHorizonDays.days = .ok span) (hpos : 0 < span) {after : DateTime}
    (hzone : after.zone = none) {matchSeconds : Option Bool} {first : WallTime}
    (hfirst : WallTime.FirstBehind (p.searchesSeconds matchSeconds) after.wall first)
    (hend : first.micros + span ≤ lastMidnight) (host : Host) :
    ∃ found, outcome (next p after matchSeconds) host s = (.ok found, s) ∧
      (∀ d, found = some d ↔ ∃ t, d = .naive t ∧
        Earliest host s p (p.searchesSeconds matchSeconds) first.micros (first.micros + span) t) ∧
      (found = none ↔ ∀ t : WallTime, t.micros % tickStep (p.searchesSeconds matchSeconds) = 0 →
        first.micros ≤ t.micros → t.micros < first.micros + span →
          ¬ Accepts host s p (p.searchesSeconds matchSeconds) t) ∧
      ∀ d ∈ found, after.wall.micros < d.wall.micros ∧
        ∀ u : WallTime, u.micros % tickStep (p.searchesSeconds matchSeconds) = 0 →
          after.wall.micros < u.micros → u.micros < d.wall.micros →
            ¬ Accepts host s p (p.searchesSeconds matchSeconds) u := by
  obtain ⟨stop, hwindow, hstop⟩ := hfirst.exists_searchWindow hdays hpos hend
  rw [← hstop]
  let found := (first.ticksUntil stop (tickStep (p.searchesSeconds matchSeconds))).find?
    (p.admits (p.searchesSeconds matchSeconds))
  have houtcome : outcome (next p after matchSeconds) host s =
      (.ok (found.map .naive), s) := by
    rw [outcome_next hs, p.next_naive hzone hwindow hcap rfl host.zones]
    simp [found]
  have hearliest (d : DateTime) : found.map .naive = some d ↔ ∃ t, d = .naive t ∧
      Earliest host s p (p.searchesSeconds matchSeconds) first.micros stop.micros t := by
    rw [Option.map_eq_some_iff]
    constructor
    · rintro ⟨t, ht, rfl⟩
      exact ⟨t, rfl, (find?_eq_some_iff_earliest hfirst.whole).mp ht⟩
    · rintro ⟨t, rfl, ht⟩
      exact ⟨t, (find?_eq_some_iff_earliest hfirst.whole).mpr ht, rfl⟩
  refine ⟨found.map .naive, houtcome, hearliest, ?_, fun d hd => ?_⟩
  · rw [Option.map_eq_none_iff]
    exact find?_eq_none_iff_not_accepts hfirst.whole
  · obtain ⟨t, rfl, ht⟩ := (hearliest d).mp hd
    refine ⟨Int.lt_of_lt_of_le hfirst.lt ht.first_le, fun u hu hbehind hless => ?_⟩
    exact ht.least u hu (hfirst.le u hu hbehind) hless

/-- Half a minute before noon of 29 February 2024 the next noon of such a day is that of the
same day: the search starts at noon. -/
theorem next_earliest_leapDayNoon :
    outcome (next .leapDayNoon (.naive ⟨63844804770500000, by decide, by decide⟩) none) {}
        { settings := some {} } =
      (.ok (some (.naive ⟨63844804800000000, by decide, by decide⟩)), { settings := some {} }) := by
  let noon : WallTime := ⟨63844804800000000, by decide, by decide⟩
  let after : DateTime := .naive ⟨63844804770500000, by decide, by decide⟩
  have hs : Session.settings { settings := some {} } = some {} := rfl
  have hfirst : WallTime.FirstBehind (Pattern.searchesSeconds .leapDayNoon none) after.wall noon :=
    WallTime.firstBehind_iff.mpr (by decide)
  obtain ⟨found, houtcome, hfound, -, -⟩ :=
    next_earliest hs rfl rfl (by decide) rfl hfirst (by decide) {}
  have hnoon : Earliest {} { settings := some {} } .leapDayNoon false noon.micros
      (noon.micros + 1464 * microsPerDay) noon :=
    ⟨by decide, by decide, by decide, accepts_iff.mpr (by decide),
      fun _ _ hle hlt => absurd hlt (Int.not_lt.mpr hle)⟩
  rw [houtcome, (hfound _).mpr ⟨_, rfl, hnoon⟩]

end CronSchedule.Call
