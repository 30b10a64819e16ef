import CronSchedule.Proofs.Enumerate.Aware

/-!
# What a scan finds are matches

A scan may pass over a match on a clock that crosses a midnight, and a limit on ticks may cut
it short.  What it does find is found rightly on every clock and under every limit: the ticks
are a sublist of the matches among all ticks of the window, so they ascend, lie whole steps
behind the start and before the stop, and the clock shows a match at each.

* `Scan.run_cases` — what a scan does at one tick;
* `Scan.run_sublist` — what a scan finds, by induction on its budget;
* `Window.scan_of_enumerateNaive`, `Window.scan_of_enumerateAware` — the scan behind an
  enumeration that succeeds, `Window.exists_run_of_enumerateNaive` and
  `Window.exists_run_of_enumerateAware` — the same without its limit.
-/

namespace CronSchedule

/-! ### The scan -/

namespace Scan

variable {s : Scan}

/-- A skip goes ahead by whole steps. -/
theorem skipDay?_eq_add {tick wall next : WallTime} (h : s.skipDay? tick wall = some next) :
    ∃ k : Nat, next.micros = tick.micros + s.step * k := by
  unfold skipDay? at h
  obtain ⟨midnight, -, h⟩ := Option.bind_eq_some_iff.mp h
  obtain ⟨target, -, h⟩ := Option.bind_eq_some_iff.mp h
  refine ⟨(max (s.stepsTo tick target) 1).toNat, ?_⟩
  rw [WallTime.add?_eq_some_iff.mp h, Int.toNat_of_nonneg (by omega)]

/-- Before the stop, a scan that succeeds goes on from a tick whole steps ahead without a
match, or it records the tick as a match and ends or goes on behind it. -/
theorem run_cases {budget wanted : Nat} {tick : WallTime} {found : List WallTime}
    {result : Found} (hlt : tick.micros < s.stop.micros)
    (h : s.run (budget + 1) wanted tick found = .ok result) :
    (∃ (next : WallTime) (k : Nat), next.micros = tick.micros + s.step * k ∧
      s.run budget wanted next found = .ok result) ∨
    (s.hits tick = true ∧ result.ticks = (tick :: found).reverse) ∨
    (s.hits tick = true ∧ 1 < wanted ∧ ∃ next : WallTime, next.micros = tick.micros + s.step ∧
      s.run budget (wanted - 1) next (tick :: found) = .ok result) := by
  rw [run, if_neg (by omega)] at h
  cases hread : s.read tick with
  | none =>
    rw [hread] at h
    cases h
  | some shown =>
    simp only [hread] at h
    obtain ⟨dateAccepted, hdate⟩ := Option.isSome_iff_exists.mp
      (s.pattern.isSome_acceptsDate (shown.wall.daysInMonth?_reading s.withSeconds))
    have hanswer := s.pattern.accepts_reading s.withSeconds shown.wall
    rw [← hits_eq_of_read hread] at hanswer
    simp only [hdate, hanswer] at h
    cases dateAccepted with
    | false =>
      cases hskip : s.skipDay? tick shown.wall with
      | none =>
        rw [hskip] at h
        cases h
      | some next =>
        rw [hskip] at h
        obtain ⟨k, hk⟩ := skipDay?_eq_add hskip
        exact .inl ⟨next, k, hk, h⟩
    | true =>
      simp only at h
      split at h
      · rename_i hlast
        rw [Bool.and_eq_true] at hlast
        refine .inr (.inl ⟨hlast.1, ?_⟩)
        rw [← Except.ok.inj h]
      · rename_i hlast
        cases hstep : tick.add? s.step with
        | none =>
          rw [hstep] at h
          cases h
        | some next =>
          rw [hstep] at h
          have hnext := WallTime.add?_eq_some_iff.mp hstep
          cases hhit : s.hits tick with
          | false =>
            rw [hhit] at h
            exact .inl ⟨next, 1, by simpa using hnext, h⟩
          | true =>
            rw [hhit] at h hlast
            refine .inr (.inr ⟨rfl, ?_, next, hnext, h⟩)
            simpa using hlast

/-- The matches from a later tick on are among those from an earlier one on. -/
theorem filter_ticksUntil_sublist {tick next : WallTime} {k : Nat}
    (h : next.micros = tick.micros + s.step * k) :
    ((next.ticksUntil s.stop s.step).filter s.hits).Sublist
      ((tick.ticksUntil s.stop s.step).filter s.hits) := by
  obtain ⟨front, hfront, -⟩ := WallTime.exists_ticksUntil_append s.step_pos s.stop k h
  rw [hfront]
  exact (List.sublist_append_right _ _).filter _

/-- The first of the matches from a tick on is the tick itself when it is one. -/
theorem cons_sublist_of_hits {tick next : WallTime} {more : List WallTime}
    (hlt : tick.micros < s.stop.micros) (hhit : s.hits tick = true)
    (hnext : tick.add? s.step = some next)
    (hmore : more.Sublist ((next.ticksUntil s.stop s.step).filter s.hits)) :
    (tick :: more).Sublist ((tick.ticksUntil s.stop s.step).filter s.hits) := by
  rw [WallTime.ticksUntil_of_lt s.step_pos hlt hnext, List.filter_cons_of_pos hhit]
  exact hmore.cons_cons tick

/-- A tick before the stop that is a match is among the matches from itself on. -/
theorem singleton_sublist_of_hits {tick : WallTime} (hlt : tick.micros < s.stop.micros)
    (hhit : s.hits tick = true) :
    [tick].Sublist ((tick.ticksUntil s.stop s.step).filter s.hits) := by
  rw [List.singleton_sublist, List.mem_filter, WallTime.mem_ticksUntil s.step_pos]
  exact ⟨⟨hlt, 0, by simp⟩, hhit⟩

/-- What a scan finds is among the matches of its window, and no more than is wanted. -/
theorem run_sublist :
    ∀ (budget wanted : Nat) (tick : WallTime) (found : List WallTime) {result : Found},
      s.run budget wanted tick found = .ok result → 1 ≤ wanted →
      ∃ more, result.ticks = found.reverse ++ more ∧ more.length ≤ wanted ∧
        more.Sublist ((tick.ticksUntil s.stop s.step).filter s.hits) := by
  intro budget
  induction budget with
  | zero =>
    intro wanted tick found result h _
    refine ⟨[], ?_, Nat.zero_le _, List.nil_sublist _⟩
    rw [run] at h
    split at h <;> cases h <;> simp
  | succ budget ih =>
    intro wanted tick found result h hwanted
    by_cases hstop : s.stop.micros ≤ tick.micros
    · rw [run_of_le hstop] at h
      cases h
      exact ⟨[], by simp, Nat.zero_le _, List.nil_sublist _⟩
    have hlt : tick.micros < s.stop.micros := Int.not_le.mp hstop
    rcases run_cases hlt h with ⟨next, k, hk, hrun⟩ | ⟨hhit, hticks⟩ |
      ⟨hhit, hmany, next, hnext, hrun⟩
    · obtain ⟨more, hticks, hlength, hsub⟩ := ih wanted next found hrun hwanted
      exact ⟨more, hticks, hlength, hsub.trans (filter_ticksUntil_sublist hk)⟩
    · refine ⟨[tick], ?_, hwanted, singleton_sublist_of_hits hlt hhit⟩
      rw [hticks, List.reverse_cons]
    · obtain ⟨more, hticks, hlength, hsub⟩ := ih (wanted - 1) next _ hrun (by omega)
      refine ⟨tick :: more, ?_, ?_, ?_⟩
      · rw [hticks, List.reverse_cons, List.append_assoc, List.singleton_append]
      · rw [List.length_cons]
        omega
      · exact cons_sublist_of_hits hlt hhit (WallTime.add?_eq_some_iff.mpr hnext) hsub

/-- Nothing that a scan finds lies before its start. -/
theorem le_of_mem_run {budget wanted : Nat} {first : WallTime} {result : Found}
    (h : s.run budget wanted first [] = .ok result) (hwanted : 1 ≤ wanted) {t : WallTime}
    (ht : t ∈ result.ticks) : first.micros ≤ t.micros := by
  obtain ⟨more, hticks, -, hsub⟩ := run_sublist _ _ _ _ h hwanted
  obtain rfl : result.ticks = more := hticks
  have hmem := (List.mem_filter.mp (hsub.subset ht)).1
  exact (WallTime.bounds_of_mem_ticksUntil s.step_pos hmem).1

end Scan

/-! ### Windows -/

namespace Window

variable {w : Window} {p : Pattern} {withSeconds : Bool} {cap : Option Nat} {found : Enumeration}

/-- Without zones the dates of an enumeration are the ticks that a scan finds, and its warning
names the tick at which the scan was cut. -/
theorem scan_of_enumerateNaive (h : w.enumerateNaive p withSeconds cap = .ok found) (scan : Scan)
    (hscan : scan = ⟨p, none, withSeconds, w.stop.wall⟩) :
    ∃ result, scan.run (cap.getD (scan.gridSize w.start.wall)) w.count w.start.wall [] =
        .ok result ∧
      found.dates = result.ticks.map .naive ∧
      found.warning = result.cut.map fun tick =>
        ⟨p.expression, cap.getD (scan.gridSize w.start.wall), .naive tick⟩ := by
  subst hscan
  obtain ⟨result, hrun, h⟩ := bind_eq_ok_iff.mp h
  cases h
  exact ⟨result, liftFault_eq_ok_iff.mp hrun, rfl, rfl⟩

/-- With zones the dates are what the clock of the window's start shows at these ticks, and the
tick at which the scan was cut is named on the clock of UTC. -/
theorem scan_of_enumerateAware {home clock : TimeZone}
    (h : w.enumerateAware home clock p withSeconds cap = .ok found) :
    ∃ first last result, w.start.toUtc? = some first ∧ w.stop.toUtc? = some last ∧
      Scan.run ⟨p, some clock, withSeconds, last⟩
        (cap.getD (Scan.gridSize ⟨p, some clock, withSeconds, last⟩ first)) w.count first [] =
          .ok result ∧
      result.ticks.mapM (DateTime.ofUtc? home) = some found.dates ∧
      found.warning = result.cut.map fun tick =>
        ⟨p.expression, cap.getD (Scan.gridSize ⟨p, some clock, withSeconds, last⟩ first),
          ⟨tick, some .utc, false⟩⟩ := by
  obtain ⟨first, hfirst, h⟩ := bind_eq_ok_iff.mp h
  obtain ⟨last, hlast, h⟩ := bind_eq_ok_iff.mp h
  obtain ⟨result, hrun, h⟩ := bind_eq_ok_iff.mp h
  obtain ⟨dates, hdates, h⟩ := bind_eq_ok_iff.mp h
  cases h
  exact ⟨first, last, result, withinCalendar_eq_ok_iff.mp hfirst,
    withinCalendar_eq_ok_iff.mp hlast, liftFault_eq_ok_iff.mp hrun,
    mapM_withinCalendar_iff.mp hdates, rfl⟩

/-- Without zones there is a scan behind an enumeration. -/
theorem exists_run_of_enumerateNaive (h : w.enumerateNaive p withSeconds cap = .ok found) :
    ∃ budget result, Scan.run ⟨p, none, withSeconds, w.stop.wall⟩ budget w.count w.start.wall [] =
      .ok result ∧ found.dates = result.ticks.map .naive := by
  obtain ⟨result, hrun, hdates, -⟩ := scan_of_enumerateNaive h _ rfl
  exact ⟨_, result, hrun, hdates⟩

/-- With zones there is one as well. -/
theorem exists_run_of_enumerateAware {home clock : TimeZone}
    (h : w.enumerateAware home clock p withSeconds cap = .ok found) :
    ∃ first last budget result, w.start.toUtc? = some first ∧ w.stop.toUtc? = some last ∧
      Scan.run ⟨p, some clock, withSeconds, last⟩ budget w.count first [] = .ok result ∧
      result.ticks.mapM (DateTime.ofUtc? home) = some found.dates := by
  obtain ⟨first, last, result, hfirst, hlast, hrun, hdates, -⟩ := scan_of_enumerateAware h
  exact ⟨first, last, _, result, hfirst, hlast, hrun, hdates⟩

end Window

end CronSchedule
