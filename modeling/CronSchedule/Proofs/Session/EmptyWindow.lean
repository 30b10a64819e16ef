import CronSchedule.Proofs.Session.Ending
import CronSchedule.Proofs.Session.Later
import CronSchedule.Proofs.Zone.Folds

/-!
# Windows that are refused as empty

A window is scanned from the instant of its start to that of its end, and is refused as empty
where its start does not come before its end.  Two ends with different zones are compared by their
instants, and so the check and the scan agree.  Two ends with one named zone are compared by their
readings alone: on a clock that is moved the later reading may be the earlier instant, and one
reading may stand for two instants.  Then the check refuses a window with ticks, or takes one
without any.

* `Call.outcome_dates_eq_emptyWindow_iff` — the check of its window is the only place where an
  enumeration fails as an empty window does;
* `DateTime.isBefore_iff_of_sharesClock`, `DateTime.isBefore_iff_of_apart` — how ends are compared;
* `TimeZone.ChecksPlainly` — windows are refused exactly when they do not end at a later instant;
* `TimeZone.ChecksPlainly.offsetOfWall_eq` — then no reading has two offsets;
* `TimeZone.checksPlainly_iff` — the zones where windows are refused so are those that no change
  moves.
-/

namespace CronSchedule

/-! ### The error of an empty window -/

namespace Call

/-- Behind the check of its window an enumeration fails only as a search does. -/
theorem failsOnly_dates_of_check {start : Instant} {stop : Option Instant} {count : Int}
    {w : Window} (hcheck : Window.check start stop count = .ok w) (host : Host) (s : Session)
    (p : Pattern) (matchSeconds : Option Bool) (timezone : Option ZoneRef) :
    FailsOnly Error.OfSearch
      (outcome (dates p start stop count matchSeconds timezone) host s).1 := by
  refine failsOnly_bind (failsOnly_ofResult (hcheck ▸ .ok w) s) fun w s => ?_
  refine failsOnly_bind failsOnly_settings fun inForce s => ?_
  refine failsOnly_bind (FailsOnly.ok host) fun h s => ?_
  refine failsOnly_bind (failsOnly_ofResult (w.failsOnly_enumerate _ _ _ _ _) s) fun found s => ?_
  rw [outcome_bind, outcome_warn]
  exact .ok _

/-- An enumeration is refused for an empty window exactly when the check of its window says so,
whether settings are in force or have to be loaded. -/
theorem outcome_dates_eq_emptyWindow_iff (host : Host) (s : Session) (p : Pattern)
    (start : Instant) (stop : Option Instant) (count : Int) (matchSeconds : Option Bool)
    (timezone : Option ZoneRef) :
    (outcome (dates p start stop count matchSeconds timezone) host s).1 =
        .error (.argument .emptyWindow) ↔
      Window.check start stop count = .error (.argument .emptyWindow) := by
  cases hcheck : Window.check start stop count with
  | error e =>
    rw [dates, hcheck, outcome_bind, outcome_ofResult]
    exact ⟨fun h => congrArg Except.error (Except.error.inj h),
      fun h => congrArg Except.error (Except.error.inj h)⟩
  | ok w =>
    refine ⟨fun h => ?_, fun h => by cases h⟩
    exact (failsOnly_dates_of_check hcheck host s p matchSeconds timezone _ h).elim

end Call

/-- Two ends of one kind are refused as an empty window exactly when the first is not before the
second. -/
theorem Window.check_eq_emptyWindow_iff {start stop : DateTime} {count : Int}
    (hkind : start.isNaive = stop.isNaive) (hcount : 1 ≤ count) :
    check (.dateTime start) (some (.dateTime stop)) count = .error (.argument .emptyWindow) ↔
      start.isBefore stop = false := by
  cases hbefore : start.isBefore stop with
  | true => simp [check_eq_ok hkind hcount hbefore]
  | false => simp [check_eq_error hkind hcount hbefore]

/-! ### The order of two ends -/

namespace DateTime

variable {a b : DateTime}

theorem isBefore_iff_of_sharesClock (h : a.sharesClock b = true) :
    a.isBefore b = true ↔ a.wall.micros < b.wall.micros := by
  rw [isBefore, if_pos h, decide_eq_true_eq]

theorem isBefore_iff_of_apart (h : a.sharesClock b = false) :
    a.isBefore b = true ↔ a.instant < b.instant := by
  rw [isBefore, if_neg (by simp [h]), decide_eq_true_eq, instant, instant]

end DateTime

/-- Two zones that the table knows are one if they have one name. -/
theorem ZoneTable.Knows.eq_of_isSame_of_knows {zones : ZoneTable} {y z : TimeZone}
    (hy : zones.Knows y) (hz : zones.Knows z) (hsame : y.isSame z = true) : z = y := by
  cases y with
  | fixed offset => cases hsame
  | named name rules =>
    cases z with
    | fixed offset => cases hsame
    | named other rules' =>
      obtain rfl : name = other := eq_of_beq hsame
      have hrules := (hz name rules' rfl).symm.trans (hy name rules rfl)
      rw [Option.some.inj hrules]

/-! ### Checks by instants -/

/-- A window that starts on the clock of the zone, in the years 2 to 9998, is refused as empty
exactly when its end is not a later instant, whatever clock its end is read from. -/
def TimeZone.ChecksPlainly (z : TimeZone) : Prop :=
  ∀ (host : Host) (s : Session) (expression : String) (p : Pattern) (start stop : DateTime)
    (other : TimeZone) (count : Int) (matchSeconds : Option Bool) (timezone : Option ZoneRef),
    Pattern.compile expression = .ok p → start.zone = some z → stop.zone = some other →
    host.zones.Knows z → host.zones.Knows other →
    (innerStart ≤ start.wall.micros ∧ start.wall.micros < innerEnd) →
    (innerStart ≤ stop.wall.micros ∧ stop.wall.micros < innerEnd) → 1 ≤ count →
      ((Call.outcome (Call.dates p (.dateTime start) (some (.dateTime stop)) count matchSeconds
          timezone) host s).1 = .error (.argument .emptyWindow) ↔ stop.instant ≤ start.instant)

namespace TimeZone

variable {z : TimeZone}

/-- Where no change moves the clock, the order of two readings is that of their instants. -/
theorem checksPlainly_of_forall (hstill : ∀ c ∈ z.rules.changes, c.2.offset = c.1) :
    z.ChecksPlainly := by
  intro host s _ p start stop other count matchSeconds timezone _ hstart hstop hknows hknowsOther
    _ _ hcount
  have hkind : start.isNaive = stop.isNaive := by simp [DateTime.isNaive, hstart, hstop]
  rw [Call.outcome_dates_eq_emptyWindow_iff, Window.check_eq_emptyWindow_iff hkind hcount,
    ← Bool.not_eq_true, ← Int.not_lt, not_iff_not]
  cases hshares : start.sharesClock stop with
  | false => exact DateTime.isBefore_iff_of_apart hshares
  | true =>
    have hsame : z.isSame other = true := by
      simpa [DateTime.sharesClock, hstart, hstop] using hshares
    obtain rfl := hknows.eq_of_isSame_of_knows hknowsOther hsame
    have hone := ZoneRules.forall_changes_iff.mp hstill
    rw [DateTime.isBefore_iff_of_sharesClock hshares, DateTime.instant_of_zone_eq_some hstart,
      DateTime.instant_of_zone_eq_some hstop, hone.offsetOfWall, hone.offsetOfWall]
    omega

/-- Where windows are refused by their instants, no reading has two offsets: a window between the
two passes of one is refused whichever is its start. -/
theorem ChecksPlainly.offsetOfWall_eq {name : String} {rules : ZoneRules}
    (h : (named name rules).ChecksPlainly) {w : WallTime} (hstart : innerStart ≤ w.micros)
    (hend : w.micros < innerEnd) :
    rules.offsetOfWall (unixSeconds w) false = rules.offsetOfWall (unixSeconds w) true := by
  let pass (late : Bool) : DateTime := ⟨w, some (named name rules), late⟩
  let host : Host := { zones := [(name, rules)] }
  have hknows : host.zones.Knows (named name rules) := by
    intro other rules' heq
    cases heq
    exact List.lookup_cons_self
  have hrefused (early late : Bool) : (pass late).instant ≤ (pass early).instant := by
    refine (h host {} "* * * * *" .everyMinute (pass early) (pass late) _ 1 none none rfl rfl rfl
      hknows hknows ⟨hstart, hend⟩ ⟨hstart, hend⟩ (Int.le_refl 1)).mp ?_
    have hkind : (pass early).isNaive = (pass late).isNaive := rfl
    rw [Call.outcome_dates_eq_emptyWindow_iff,
      Window.check_eq_emptyWindow_iff hkind (Int.le_refl 1), ← Bool.not_eq_true,
      DateTime.isBefore_iff_of_sharesClock (by simp [pass, DateTime.sharesClock, isSame])]
    exact Int.lt_irrefl _
  have hle := hrefused false true
  have hge := hrefused true false
  rw [DateTime.instant_of_zone_eq_some (z := named name rules) rfl,
    DateTime.instant_of_zone_eq_some (z := named name rules) rfl] at hle hge
  simp only [pass, rules_named, microsPerSecond] at hle hge
  omega

/-- Windows that start on the clock of a zone are refused by their instants exactly when no change
moves the clock. -/
theorem checksPlainly_iff (hz : z.rules.Ascending) (hwithinDay : z.rules.WithinDay)
    (hinner : z.ChangesInner 1) :
    z.ChecksPlainly ↔ ∀ c ∈ z.rules.changes, c.2.offset = c.1 := by
  refine ⟨fun h => ?_, checksPlainly_of_forall⟩
  cases z with
  | fixed offset =>
    intro c hc
    cases hc
  | named name rules =>
    by_contra hmoved
    obtain ⟨t, ht, wall, hlow, hhigh, hne⟩ :=
      ZoneRules.exists_offsetOfWall_ne hz hwithinDay hmoved
    obtain ⟨hearly, hlate⟩ := hinner t ht
    have hnear : innerStart ≤ (wall + unixEpoch) * microsPerSecond ∧
        (wall + unixEpoch) * microsPerSecond < innerEnd := by
      simp only [rules_named, secondsPerDay, microsPerDay, microsPerSecond] at *
      omega
    obtain ⟨w, hw, hseconds, -⟩ := exists_unixSeconds hnear.1 (Int.le_of_lt hnear.2)
    have heq := h.offsetOfWall_eq (w := w) (by omega) (by omega)
    rw [hseconds] at heq
    exact hne heq

/-- In London the clock is put forward and set back, and some window is refused, or taken, against
the order of its instants. -/
theorem checksPlainly_iff_london :
    (london.rules.Ascending ∧ london.rules.WithinDay ∧ london.ChangesInner 1) ∧
      (london.ChecksPlainly ↔ ∀ c ∈ london.rules.changes, c.2.offset = c.1) ∧
      ¬ london.ChecksPlainly := by
  have hz : london.rules.Ascending := by
    unfold ZoneRules.Ascending
    decide
  have hwithinDay : london.rules.WithinDay := ⟨by decide, by decide⟩
  have hinner : london.ChangesInner 1 := by
    unfold ChangesInner
    decide
  have hiff := checksPlainly_iff hz hwithinDay hinner
  have hmoved : ¬ ∀ c ∈ london.rules.changes, c.2.offset = c.1 := by decide
  exact ⟨⟨hz, hwithinDay, hinner⟩, hiff, fun h => hmoved (hiff.mp h)⟩

end TimeZone

/-! ### The night of the change in London -/

/-- From a quarter to two on 27 October 2024 to a quarter past one, the second time that the clock
of London shows it, it is half an hour, and the window is refused as empty. -/
theorem Call.dates_everyMinute_setBack :
    let host : Host := { zones := [("Europe/London", TimeZone.london.rules)] }
    let s : Session := { settings := some {} }
    let start : DateTime := ⟨⟨63865590300000000, by decide, by decide⟩, some .london, false⟩
    let stop : DateTime := ⟨⟨63865588500000000, by decide, by decide⟩, some .london, true⟩
    Pattern.compile "* * * * *" = .ok .everyMinute ∧
      outcome (dates .everyMinute (.dateTime start) (some (.dateTime stop)) 1 none none) host s =
        (.error (.argument .emptyWindow), s) ∧
      stop.instant = start.instant + 30 * microsPerMinute ∧
      ¬ stop.instant ≤ start.instant := by
  intro host s start stop
  exact ⟨rfl, rfl, by decide, by decide⟩

end CronSchedule
