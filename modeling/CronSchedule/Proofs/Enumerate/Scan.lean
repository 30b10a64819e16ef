import CronSchedule.Enumerate.Scan
import CronSchedule.Proofs.Enumerate.Ticks
import CronSchedule.Proofs.Pattern.Answer

/-!
# A scan finds what a plain search finds

A scan passes over the ticks up to the next midnight of its clock when it meets a date
that cannot match.  That loses nothing exactly as long as no tick on the way would have
matched, and this is what `Scan.Faithful` asks for, together with the calendar not ending
before the scan does.

* `Scan.hits` — whether the scan's clock shows a match at a tick;
* `Scan.Faithful` — from a first tick on, every skip passes over refused ticks only;
* `Scan.run_eq_of_faithful` — a faithful scan that is given enough ticks finds the first
  matches among all ticks of its window, and is not cut.
-/

namespace CronSchedule.Scan

/-- Whether the scan's clock shows a match at the tick. -/
def hits (s : Scan) (tick : WallTime) : Bool :=
  (s.read tick).any fun shown => s.pattern.admits s.withSeconds shown.wall

theorem hits_eq_of_read {s : Scan} {tick : WallTime} {shown : DateTime}
    (h : s.read tick = some shown) :
    s.hits tick = s.pattern.admits s.withSeconds shown.wall := by
  rw [hits, h, Option.any_some]

/-- From `first` on up to the stop the clock shows a reading at every tick, a tick has a
next one, and the ticks before the target of a skip are no matches. -/
structure Faithful (s : Scan) (first : WallTime) : Prop where
  reads : ∀ t : WallTime, first.micros ≤ t.micros → t.micros < s.stop.micros →
    ∃ shown, s.read t = some shown
  steps : ∀ t : WallTime, first.micros ≤ t.micros → t.micros < s.stop.micros →
    ∃ next, t.add? s.step = some next
  skips : ∀ (t : WallTime) (shown : DateTime), first.micros ≤ t.micros →
    t.micros < s.stop.micros → s.read t = some shown →
    s.pattern.acceptsDate (shown.wall.reading s.withSeconds) = some false →
    ∃ midnight target next, WallTime.midnight? (shown.wall.day + 1) = some midnight ∧
      s.ofClock? midnight = some target ∧
      t.add? (s.step * max (s.stepsTo t target) 1) = some next ∧
      ∀ u : WallTime, t.micros ≤ u.micros → u.micros < target.micros →
        u.micros < s.stop.micros → s.hits u = false

variable {s : Scan} {first : WallTime}

/-! ### Single ticks -/

/-- At the stop a scan returns what it has found. -/
theorem run_of_le {tick : WallTime} (h : s.stop.micros ≤ tick.micros) (budget wanted : Nat)
    (found : List WallTime) : s.run budget wanted tick found = .ok ⟨found.reverse, none⟩ := by
  cases budget <;> simp [run, h]

/-- A tick whose date is refused is followed by the target of its skip. -/
theorem run_of_refused {tick next : WallTime} {shown : DateTime}
    (hlt : tick.micros < s.stop.micros) (hread : s.read tick = some shown)
    (hrefused : s.pattern.acceptsDate (shown.wall.reading s.withSeconds) = some false)
    (hskip : s.skipDay? tick shown.wall = some next) (budget wanted : Nat)
    (found : List WallTime) :
    s.run (budget + 1) wanted tick found = s.run budget wanted next found := by
  rw [run, if_neg (by omega)]
  simp only [hread, hrefused, hskip]

/-- A tick on an accepted date is kept if it is a match, and followed by the next one unless it is
the last match that is wanted. -/
theorem run_of_accepted {tick : WallTime} {shown : DateTime}
    (hlt : tick.micros < s.stop.micros) (hread : s.read tick = some shown)
    (haccepted : s.pattern.acceptsDate (shown.wall.reading s.withSeconds) = some true)
    (budget wanted : Nat) (found : List WallTime) :
    s.run (budget + 1) wanted tick found =
      if s.hits tick && wanted ≤ 1 then .ok ⟨(tick :: found).reverse, none⟩
      else
        match tick.add? s.step with
        | none => .error .beyondCalendar
        | some next =>
          if s.hits tick then s.run budget (wanted - 1) next (tick :: found)
          else s.run budget wanted next found := by
  have hanswer := s.pattern.accepts_reading s.withSeconds shown.wall
  rw [← hits_eq_of_read hread] at hanswer
  rw [run, if_neg (by omega)]
  cases tick.add? s.step <;> simp only [hread, haccepted, hanswer]

/-- Where one more match is wanted, the first that is met is the last. -/
theorem run_of_hits {tick : WallTime} (hlt : tick.micros < s.stop.micros)
    (hhit : s.hits tick = true) (budget : Nat) (found : List WallTime) :
    s.run (budget + 1) 1 tick found = .ok ⟨(tick :: found).reverse, none⟩ := by
  obtain ⟨shown, hread, hadmits⟩ := (Option.any_eq_true _ _).mp hhit
  have haccepts := Pattern.admits_eq_true_iff.mp hadmits
  have hdate :=
    Pattern.acceptsDate_of_accepts (shown.wall.daysInMonth?_reading s.withSeconds) haccepts
  rw [run, if_neg (by omega)]
  simp [hread, hdate, haccepts]

/-- Before the stop there is a tick in the window. -/
theorem exists_gridSize (s : Scan) {tick : WallTime} (hlt : tick.micros < s.stop.micros) :
    ∃ budget, s.gridSize tick = budget + 1 := by
  have : 0 < s.stepsTo tick s.stop :=
    (WallTime.lt_neg_ediv_iff s.step_pos).mpr (by simpa using hlt)
  exact Nat.exists_eq_add_one.mpr (by rw [gridSize]; omega)

/-! ### Skips -/

/-- A skip stays in the calendar when a step from the tick and a step from the target do. -/
theorem exists_add?_skip (s : Scan) {t target : WallTime} (ht : t.micros + s.step < calendarEnd)
    (htarget : target.micros + s.step ≤ calendarEnd) :
    ∃ next, t.add? (s.step * max (s.stepsTo t target) 1) = some next := by
  have hpos := s.step_pos
  have hnonneg := t.nonneg
  by_cases hone : s.stepsTo t target ≤ 1
  · rw [show max (s.stepsTo t target) 1 = 1 by omega, Int.mul_one]
    exact ⟨⟨t.micros + s.step, by omega, ht⟩, WallTime.add?_eq_some_iff.mpr rfl⟩
  · have hbefore : t.micros + s.step * (s.stepsTo t target - 1) < target.micros := by
      rw [← WallTime.lt_neg_ediv_iff hpos, stepsTo]
      omega
    rw [Int.mul_sub, Int.mul_one] at hbefore
    have hbehind : 0 ≤ s.step * s.stepsTo t target :=
      Int.mul_nonneg (Int.le_of_lt hpos) (by omega)
    rw [show max (s.stepsTo t target) 1 = s.stepsTo t target by omega]
    exact ⟨⟨t.micros + s.step * s.stepsTo t target, by omega, by omega⟩,
      WallTime.add?_eq_some_iff.mpr rfl⟩

/-- A skip does not end before its target. -/
theorem le_of_add?_skip {t target next : WallTime}
    (h : t.add? (s.step * max (s.stepsTo t target) 1) = some next) :
    target.micros ≤ next.micros := by
  rw [WallTime.add?_eq_some_iff.mp h, ← Int.not_lt, ← WallTime.lt_neg_ediv_iff s.step_pos,
    ← stepsTo]
  omega

/-- A skip whose target lies whole steps ahead leads to the target. -/
theorem skipDay?_eq_some (s : Scan) {t wall midnight target : WallTime}
    (hmidnight : WallTime.midnight? (wall.day + 1) = some midnight)
    (htarget : s.ofClock? midnight = some target) {k : Int} (hk : 1 ≤ k)
    (hsteps : target.micros = t.micros + s.step * k) : s.skipDay? t wall = some target := by
  have hcount : s.stepsTo t target = k := by
    have hdiff : t.micros - target.micros = -k * s.step := by
      rw [hsteps, Int.neg_mul, Int.mul_comm k]
      omega
    rw [stepsTo, hdiff, Int.mul_ediv_cancel _ (Int.ne_of_gt s.step_pos), Int.neg_neg]
  have hadd : t.add? (s.step * max (s.stepsTo t target) 1) = some target := by
    rw [hcount, show max k 1 = k by omega]
    exact WallTime.add?_eq_some_iff.mpr hsteps
  simp [skipDay?, hmidnight, htarget, hadd]

/-- A tick whose date is refused is no match. -/
theorem hits_eq_false_of_refused {t : WallTime} {shown : DateTime} (hread : s.read t = some shown)
    (hrefused : s.pattern.acceptsDate (shown.wall.reading s.withSeconds) = some false) :
    s.hits t = false := by
  rw [hits_eq_of_read hread]
  exact Pattern.admits_eq_false_of_sameDay hrefused rfl

/-- A skip goes over ticks before its target only, but for the first. -/
theorem filter_ticksUntil_of_skip (s : Scan) {hit : WallTime → Bool} {t target next : WallTime}
    (hnext : t.add? (s.step * max (s.stepsTo t target) 1) = some next) (hfirst : hit t = false)
    (hclear : ∀ u : WallTime, t.micros ≤ u.micros → u.micros < target.micros →
      u.micros < s.stop.micros → hit u = false) :
    t.micros + s.step ≤ next.micros ∧
      (t.ticksUntil s.stop s.step).filter hit = (next.ticksUntil s.stop s.step).filter hit := by
  have hpos := s.step_pos
  have hmicros := WallTime.add?_eq_some_iff.mp hnext
  refine ⟨?_, ?_⟩
  · have hone : s.step * 1 ≤ s.step * max (s.stepsTo t target) 1 :=
      Int.mul_le_mul_of_nonneg_left (by omega) (Int.le_of_lt hpos)
    rw [Int.mul_one] at hone
    omega
  · have hcast : ((max (s.stepsTo t target) 1).toNat : Int) = max (s.stepsTo t target) 1 := by
      omega
    refine WallTime.filter_ticksUntil_of_forall hpos (max (s.stepsTo t target) 1).toNat
      (by rw [hcast, hmicros]) ?_
    intro j u hj hu hustop
    have hgrid := Int.mul_nonneg (Int.le_of_lt hpos) (Int.natCast_nonneg j)
    -- the first of the ticks is refused by itself; the others lie before the target
    rcases Nat.eq_zero_or_pos j with rfl | hjpos
    · have : u = t := WallTime.ext (by simpa using hu)
      rw [this]
      exact hfirst
    · refine hclear u (by omega) ?_ hustop
      have hsteps : (j : Int) < -((t.micros - target.micros) / s.step) := by
        rw [stepsTo] at hj
        omega
      rw [hu]
      exact (WallTime.lt_neg_ediv_iff hpos).mp hsteps

/-- Where a faithful scan skips, the matches from the tick on are those from its
successor on. -/
theorem Faithful.skipDay (h : s.Faithful first) {t : WallTime} {shown : DateTime}
    (hfirst : first.micros ≤ t.micros) (hstop : t.micros < s.stop.micros)
    (hread : s.read t = some shown)
    (hrefused : s.pattern.acceptsDate (shown.wall.reading s.withSeconds) = some false) :
    ∃ next, s.skipDay? t shown.wall = some next ∧ t.micros + s.step ≤ next.micros ∧
      (t.ticksUntil s.stop s.step).filter s.hits =
        (next.ticksUntil s.stop s.step).filter s.hits := by
  obtain ⟨midnight, target, next, hmidnight, htarget, hnext, hclear⟩ :=
    h.skips t shown hfirst hstop hread hrefused
  refine ⟨next, by simp [skipDay?, hmidnight, htarget, hnext], ?_⟩
  exact s.filter_ticksUntil_of_skip hnext (hits_eq_false_of_refused hread hrefused) hclear

/-- One more tick makes the window one tick smaller. -/
theorem gridSize_lt_of_le (s : Scan) {t next : WallTime} (hstop : t.micros < s.stop.micros)
    (hnext : t.micros + s.step ≤ next.micros) : s.gridSize next < s.gridSize t := by
  have hpos := s.step_pos
  have hone : 0 < s.stepsTo t s.stop :=
    (WallTime.lt_neg_ediv_iff hpos).mpr (by simpa using hstop)
  have hlt : s.stepsTo next s.stop < s.stepsTo t s.stop := by
    refine (WallTime.lt_neg_ediv_iff hpos).mpr ?_
    -- `stepsTo next` steps from one step further on would still stay before the stop
    have hself : ¬ s.stepsTo next s.stop < -((next.micros - s.stop.micros) / s.step) :=
      Int.lt_irrefl _
    have hlast : s.stepsTo next s.stop - 1 < -((next.micros - s.stop.micros) / s.step) := by
      rw [stepsTo]
      omega
    have := (WallTime.lt_neg_ediv_iff hpos).mp hlast
    rw [Int.mul_sub, Int.mul_one] at this
    omega
  rw [gridSize, gridSize]
  omega

/-- A faithful scan finds the first matches among all ticks, and is not cut. -/
theorem run_eq_of_faithful (h : s.Faithful first) :
    ∀ (budget wanted : Nat) (tick : WallTime) (found : List WallTime),
      first.micros ≤ tick.micros → s.gridSize tick ≤ budget → 1 ≤ wanted →
      s.run budget wanted tick found =
        .ok ⟨found.reverse ++ ((tick.ticksUntil s.stop s.step).filter s.hits).take wanted,
          none⟩ := by
  have hpos := s.step_pos
  intro budget
  induction budget with
  | zero =>
    intro wanted tick found hfirst hbudget hwanted
    by_cases hstop : s.stop.micros ≤ tick.micros
    · simp [run_of_le hstop, WallTime.ticksUntil_of_le hpos hstop]
    · obtain ⟨size, hsize⟩ := s.exists_gridSize (Int.not_le.mp hstop)
      omega
  | succ budget ih =>
    intro wanted tick found hfirst hbudget hwanted
    by_cases hstop : s.stop.micros ≤ tick.micros
    · simp [run_of_le hstop, WallTime.ticksUntil_of_le hpos hstop]
    have hlt : tick.micros < s.stop.micros := by omega
    obtain ⟨shown, hread⟩ := h.reads tick hfirst hlt
    obtain ⟨dateAccepted, hdate⟩ := Option.isSome_iff_exists.mp
      (s.pattern.isSome_acceptsDate (shown.wall.daysInMonth?_reading s.withSeconds))
    cases dateAccepted with
    | false =>
      obtain ⟨next, hskip, hbehind, hsame⟩ := h.skipDay hfirst hlt hread hdate
      have hsmaller := s.gridSize_lt_of_le hlt hbehind
      rw [run_of_refused hlt hread hdate hskip,
        ih wanted next found (by omega) (by omega) hwanted, hsame]
    | true =>
      obtain ⟨next, hnext⟩ := h.steps tick hfirst hlt
      have hbehind : tick.micros + s.step ≤ next.micros :=
        Int.le_of_eq (WallTime.add?_eq_some_iff.mp hnext).symm
      have hsmaller := s.gridSize_lt_of_le hlt hbehind
      rw [WallTime.ticksUntil_of_lt hpos hlt hnext, run_of_accepted hlt hread hdate, hnext]
      dsimp only
      cases hhit : s.hits tick with
      | false =>
        simp only [Bool.false_and, Bool.false_eq_true, if_false]
        rw [ih wanted next found (by omega) (by omega) hwanted,
          List.filter_cons_of_neg (by simp [hhit])]
      | true =>
        rw [List.filter_cons_of_pos hhit]
        by_cases hlast : wanted ≤ 1
        · obtain rfl : wanted = 1 := by omega
          simp
        · obtain ⟨more, rfl⟩ : ∃ more, wanted = more + 2 := ⟨wanted - 2, by omega⟩
          simp only [Bool.true_and, decide_eq_true_eq, hlast, if_false, if_true]
          rw [ih _ next _ (by omega) (by omega) (by omega)]
          simp

end CronSchedule.Scan
