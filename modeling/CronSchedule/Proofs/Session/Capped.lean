import CronSchedule.Proofs.Enumerate.Walk
import CronSchedule.Proofs.Session.Genuine

/-!
# Limits on ticks

The limit on ticks is looked at before each tick is tested, behind the check that the stop is
not reached, while the count ends the loop behind the match that completes it.  So the ties
fall to silence: a limit that is reached with the last match, or with the last tick before the
stop, cuts nothing and is not mentioned.

An enumeration comes down to one loop, whatever its zones, and a limit changes nothing about
it but where it is left.

* `Window.Loops` — the loop behind an enumeration: its scan, its first tick and how its ticks
  are written as dates;
* `Window.exists_loops_of_enumerate`, `Window.Loops.enumerate_eq` — an enumeration succeeds
  exactly as its loop does;
* `Call.dates_capped` — under a limit a call returns the beginning of what it returns without
  one, and warns exactly when the limit is what ended its loop.
-/

namespace CronSchedule

/-! ### The loop of an enumeration -/

namespace Window

/-- The loop behind an enumeration: the scan, the tick that it starts from, and the date that
is written for a tick. -/
inductive Loops (w : Window) (zones : ZoneTable) (p : Pattern) (withSeconds : Bool)
    (ref : Option ZoneRef) : Scan → WallTime → (WallTime → Option DateTime) → Prop
  | naive : w.start.zone = none →
      Loops w zones p withSeconds ref ⟨p, none, withSeconds, w.stop.wall⟩ w.start.wall
        fun tick => some (.naive tick)
  | aware {home clock : TimeZone} {first stop : WallTime} : w.start.zone = some home →
      zones.evaluationZone home ref = .ok clock → w.start.toUtc? = some first →
      w.stop.toUtc? = some stop →
      Loops w zones p withSeconds ref ⟨p, some clock, withSeconds, stop⟩ first
        (DateTime.ofUtc? home)

/-- The warning that a limit ended the loop before a tick. -/
def capWarning (w : Window) (p : Pattern) (ticks : Nat) (next : WallTime) : CapWarning :=
  ⟨p.expression, ticks, ⟨next, w.start.zone.map fun _ => .utc, false⟩⟩

variable {w : Window} {zones : ZoneTable} {settings : Settings} {p : Pattern}
  {matchSeconds : Option Bool} {ref : Option ZoneRef} {scan : Scan} {first : WallTime}
  {shown : WallTime → Option DateTime}

/-- Behind an enumeration that succeeds there is a loop. -/
theorem exists_loops_of_enumerate {ds : List DateTime} {warning : Option CapWarning}
    (h : w.enumerate zones settings p matchSeconds ref = .ok ⟨ds, warning⟩) :
    ∃ scan first shown result,
      w.Loops zones p (matchSeconds.getD settings.comparesSeconds) ref scan first shown ∧
      scan.run (settings.tickLimit.getD (scan.gridSize first)) w.count first [] = .ok result ∧
      result.ticks.mapM shown = some ds ∧
      warning = result.cut.map (w.capWarning p (settings.tickLimit.getD (scan.gridSize first))) := by
  cases hzone : w.start.zone with
  | none =>
    simp only [enumerate, hzone] at h
    obtain ⟨result, hrun, hdates, hwarning⟩ := scan_of_enumerateNaive h _ rfl
    obtain rfl : ds = result.ticks.map .naive := hdates
    refine ⟨_, _, _, result, .naive hzone, hrun, List.mapM_pure, hwarning.trans ?_⟩
    unfold capWarning
    rw [hzone]
    rfl
  | some home =>
    obtain ⟨clock, hclock, haware⟩ := Call.exists_evaluationZone_of_enumerate hzone h
    obtain ⟨first, last, result, hfirst, hlast, hrun, hdates, hwarning⟩ :=
      scan_of_enumerateAware haware
    refine ⟨_, first, _, result, .aware hzone hclock hfirst hlast, hrun, hdates,
      hwarning.trans ?_⟩
    unfold capWarning
    rw [hzone]
    rfl

/-- The enumeration of a loop that succeeds. -/
theorem Loops.enumerate_eq
    (h : w.Loops zones p (matchSeconds.getD settings.comparesSeconds) ref scan first shown)
    {limit : Nat} (hlimit : limit = settings.tickLimit.getD (scan.gridSize first)) {result : Found}
    (hrun : scan.run limit w.count first [] = .ok result) {ds : List DateTime}
    (hdates : result.ticks.mapM shown = some ds) :
    w.enumerate zones settings p matchSeconds ref =
      .ok ⟨ds, result.cut.map (w.capWarning p limit)⟩ := by
  cases h with
  | naive hzone =>
    have hds : result.ticks.map .naive = ds := Option.some.inj (List.mapM_pure.symm.trans hdates)
    simp only [enumerate, hzone, enumerateNaive_of_run _ rfl hlimit hrun, ← hds]
    unfold capWarning
    rw [hzone]
    rfl
  | aware hzone hclock hfirst hlast =>
    rw [enumerate_of_zone hzone hclock, enumerateAware_of_run hfirst hlast _ rfl hlimit hrun hdates]
    unfold capWarning
    rw [hzone]
    rfl

end Window

/-! ### Calls under a limit -/

/-- A window that passes its check wants at least one match. -/
theorem Window.count_pos_of_check {start : Instant} {stop : Option Instant} {count : Int}
    {w : Window} (h : check start stop count = .ok w) : 0 < w.count := by
  cases start with
  | dateTime d =>
    obtain ⟨-, -, -, hpos, hcount⟩ := check_eq_ok_cases h
    omega
  | timestamp n => cases h
  | fractional x => cases h
  | other kind => cases h

/-- The dates for the first of some ticks are the first of the dates. -/
theorem exists_mapM_prefix {α β : Type} {f : α → Option β} {xs ys : List α} {ds : List β}
    (h : ys.mapM f = some ds) (hfront : xs <+: ys) : ∃ es, xs.mapM f = some es ∧ es <+: ds := by
  obtain ⟨rest, rfl⟩ := hfront
  rw [List.mapM_append] at h
  obtain ⟨es, hes, h⟩ := Option.bind_eq_some_iff.mp h
  obtain ⟨more, -, h⟩ := Option.bind_eq_some_iff.mp h
  exact ⟨es, hes, more, Option.some.inj h⟩

namespace Call

/-- A call that lists dates is an enumeration of the window of its arguments. -/
theorem outcome_dates_eq_ok_iff {inForce : Settings} {s : Session} (hs : s.settings = some inForce)
    {host : Host} {p : Pattern} {start : Instant} {stop : Option Instant} {count : Int}
    {matchSeconds : Option Bool} {ref : Option ZoneRef} {listed : List DateTime}
    {behind : Session} :
    outcome (dates p start stop count matchSeconds ref) host s = (.ok listed, behind) ↔
      ∃ w warning, Window.check start stop count = .ok w ∧
        w.enumerate host.zones inForce p matchSeconds ref = .ok ⟨listed, warning⟩ ∧
        behind = { s with warnings := s.warnings ++ warning.toList } := by
  rw [outcome_dates hs]
  constructor
  · intro h
    cases hmatched : p.matchedDates host.zones inForce start stop count matchSeconds ref with
    | error e =>
      rw [hmatched] at h
      cases h
    | ok found =>
      rw [hmatched] at h
      cases h
      obtain ⟨w, hcheck, hfound⟩ := bind_eq_ok_iff.mp hmatched
      exact ⟨w, found.warning, hcheck, hfound, rfl⟩
  · rintro ⟨w, warning, hcheck, hfound, rfl⟩
    have hmatched : p.matchedDates host.zones inForce start stop count matchSeconds ref =
        .ok ⟨listed, warning⟩ := bind_eq_ok_iff.mpr ⟨w, hcheck, hfound⟩
    rw [hmatched]

/-- Where the call without a limit succeeds, so does the one with a limit, and it returns the
beginning of the list.  Its loop is left behind at most as many ticks as the limit says; there is
one warning when the limit is reached with matches wanted and a tick before the stop, and none
else, and without a warning nothing is missing. -/
theorem dates_capped {uncapped capped : Settings} {s t : Session} (hs : s.settings = some uncapped)
    (ht : t.settings = some capped) (hnone : uncapped.tickLimit = none) {n : Nat}
    (hlimit : capped.tickLimit = some n)
    (hsame : capped.comparesSeconds = uncapped.comparesSeconds) {host : Host} {p : Pattern}
    {start : Instant} {stop : Option Instant} {count : Int} {matchSeconds : Option Bool}
    {ref : Option ZoneRef} {listed : List DateTime} {behind : Session}
    (h : outcome (dates p start stop count matchSeconds ref) host s = (.ok listed, behind)) :
    ∃ cut logged, outcome (dates p start stop count matchSeconds ref) host t =
        (.ok cut, { t with warnings := t.warnings ++ logged }) ∧
      behind = s ∧ cut <+: listed ∧ logged.length ≤ 1 ∧ (logged = [] → cut = listed) ∧
      ∃ w scan first shown k place, Window.check start stop count = .ok w ∧
        w.Loops host.zones p (matchSeconds.getD capped.comparesSeconds) ref scan first shown ∧
        scan.LeftAt w.count n ⟨first, []⟩ k place ∧
        place.found.reverse.mapM shown = some cut ∧
        (logged ≠ [] ↔
          k = n ∧ place.found.length < w.count ∧ place.tick.micros < scan.stop.micros) ∧
        ∀ warning ∈ logged, warning = w.capWarning p n place.tick := by
  obtain ⟨w, warning, hcheck, hfound, rfl⟩ := (outcome_dates_eq_ok_iff hs).mp h
  obtain ⟨scan, first, shown, result, hloops, hrun, hdates, hwarning⟩ :=
    Window.exists_loops_of_enumerate hfound
  rw [← hsame] at hloops
  have hpos := Window.count_pos_of_check hcheck
  -- without a limit the loop ends by itself, so that nothing is logged
  rw [hnone, Option.getD_none] at hrun
  obtain ⟨_, whole, hwhole, rfl⟩ :=
    (Scan.run_eq_ok_iff (a := ⟨first, []⟩) (scan.gridSize first) hpos).mp hrun
  have hover := Scan.LeftAt.isOver (a := ⟨first, []⟩) hwhole
  rw [if_pos hover] at hwarning
  obtain rfl : warning = none := hwarning
  -- with the limit it is left on the way
  obtain ⟨k, place, hleft, hsuffix, hend⟩ := hwhole.shorten hover n
  have hcut := (Scan.run_eq_ok_iff n hpos).mpr ⟨k, place, hleft, rfl⟩
  obtain ⟨cut, hcutDates, hfront⟩ := exists_mapM_prefix hdates (List.reverse_prefix.mpr hsuffix)
  have hcapped := hloops.enumerate_eq (by rw [hlimit, Option.getD_some]) hcut hcutDates
  generalize hlogged : (if scan.IsOver w.count place then none else some place.tick).map
    (w.capWarning p n) = logged at hcapped
  have hsilent : logged.toList = [] ↔ scan.IsOver w.count place := by
    rw [Option.toList_eq_nil_iff, ← hlogged, Option.map_eq_none_iff]
    split
    · rename_i hc
      exact iff_of_true rfl hc
    · rename_i hc
      exact iff_of_false (Option.some_ne_none _) hc
  refine ⟨cut, logged.toList, (outcome_dates_eq_ok_iff ht).mpr ⟨w, logged, hcheck, hcapped, rfl⟩,
    by rw [Option.toList_none, List.append_nil], hfront, Option.length_toList_le, ?_,
    w, scan, first, shown, k, place, hcheck, hloops, hleft, hcutDates, ?_, ?_⟩
  · intro hnothing
    rw [hend (hsilent.mp hnothing), hdates] at hcutDates
    exact (Option.some.inj hcutDates).symm
  · rw [Ne, hsilent, hleft.not_isOver_iff]
  · intro warning hmem
    rw [← hlogged] at hmem
    split at hmem
    · cases hmem
    · exact List.mem_singleton.mp hmem

/-- Evening in Toronto, while the clock of London is set back: of the three dates that are listed
without a limit three ticks give two, and a warning. -/
theorem dates_capped_setBack :
    let start : DateTime := ⟨⟨63865591110000000, by decide, by decide⟩, some .london, false⟩
    let last : DateTime := ⟨⟨63865593000000000, by decide, by decide⟩, some .london, false⟩
    let host : Host := ⟨[("Europe/London", TimeZone.london.rules),
      ("America/Toronto", TimeZone.toronto.rules)], {}⟩
    let ref : Option ZoneRef := some (.name "America/Toronto")
    let listed : List DateTime :=
      [⟨⟨63865591170000000, by decide, by decide⟩, some .london, false⟩,
        ⟨⟨63865587630000000, by decide, by decide⟩, some .london, true⟩,
        ⟨⟨63865591170000000, by decide, by decide⟩, some .london, true⟩]
    let call := dates eveningHours (.dateTime start) (some (.dateTime last)) 5 none ref
    let t : Session := { settings := some threeTicks }
    outcome call host { settings := some {} } = (.ok listed, { settings := some {} }) ∧
      ∃ cut logged, outcome call host t = (.ok cut, { t with warnings := t.warnings ++ logged }) ∧
        cut <+: listed ∧ cut.length = 2 ∧ logged.length = 1 := by
  intro start last host ref listed call t
  have hlisted : outcome call host { settings := some {} } =
      (.ok listed, (outcome call host { settings := some {} }).2) :=
    outcome_eq_of_toOption host (by decide +kernel)
  have hs : Session.settings { settings := some {} } = some {} := rfl
  have ht : t.settings = some threeTicks := rfl
  have hwanted : (outcome call host t).1.toOption.map List.length = some 2 := by decide +kernel
  have hwarned : (outcome call host t).2.warnings.length = 1 := by decide +kernel
  obtain ⟨cut, logged, hcut, hbehind, hfront, -, -, -⟩ := dates_capped hs ht rfl rfl rfl hlisted
  generalize outcome call host t = result at hwanted hwarned hcut ⊢
  subst hcut
  exact ⟨hlisted.trans (congrArg (Prod.mk _) hbehind), cut, logged, rfl, hfront,
    Option.some.inj hwanted, hwarned⟩

end Call

end CronSchedule
