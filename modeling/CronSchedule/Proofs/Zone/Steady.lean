import CronSchedule.Proofs.Zone.Clock
import CronSchedule.Proofs.Zone.Forward
import Mathlib.Data.Int.LeastGreatest

/-!
# Clocks on which a later reading is a later instant

A reading is turned into an instant by an offset, and two readings keep their order as long
as the later one is not read with a greater offset.  Every change of the clock breaks this.
Put forward, the clock skips readings that are taken with the offset before the change, and
the first one behind them with a greater.  Set back, it shows readings twice, and the reading
behind a second pass is taken for one of the first.  The one exception is a clock that is set
back by a single second: the reading behind the repeated one is no reading of the first pass.

* `ZoneRules.Steady` — no change but such, `ZoneRules.steady_iff_of_wholeMinutes` — with offsets
  of whole minutes none at all;
* `ZoneRules.OffsetsFall` — the order of readings, a second at a time;
* `ZoneRules.Steady.offsetOfWall_le` — on a steady clock a later reading has no greater
  offset;
* `ZoneRules.OffsetsFall.bounds_of_mem_changes` — where offsets fall around a change, the
  change is one that a steady clock makes.
-/

namespace CronSchedule

/-! ### The last change that has started by two measures -/

section LastChange

variable {started started' : Int → Transition → Bool} {before : Int} {ts : List Transition}

/-- Where no change raises the offset, none that is found has one above the first. -/
theorem offset_le_of_lastChange (hdown : ∀ c ∈ changesFrom before ts, c.2.offset ≤ c.1)
    {c : Int × Transition} (h : lastChange started before ts = some c) : c.2.offset ≤ before := by
  induction ts generalizing before with
  | nil => cases h
  | cons t ts ih =>
    obtain ⟨hfirst, hrest⟩ := List.forall_mem_cons.mp hdown
    rw [lastChange_cons, Option.or_eq_some_iff] at h
    rcases h with h | ⟨-, h⟩
    · exact Int.le_trans (ih hrest h) hfirst
    · obtain ⟨-, h⟩ := Option.ite_none_right_eq_some.mp h
      obtain rfl := Option.some.inj h
      exact hfirst

/-- Where no change raises the offset, the measure by which more changes have started gives
the lower one. -/
theorem offset_le_of_started (hdown : ∀ c ∈ changesFrom before ts, c.2.offset ≤ c.1)
    (hmore : ∀ c ∈ changesFrom before ts, started c.1 c.2 = true → started' c.1 c.2 = true) :
    ((lastChange started' before ts).elim before fun c => c.2.offset) ≤
      (lastChange started before ts).elim before fun c => c.2.offset := by
  induction ts generalizing before with
  | nil => exact Int.le_refl before
  | cons t ts ih =>
    obtain ⟨hfirst, hdownRest⟩ := List.forall_mem_cons.mp hdown
    obtain ⟨hmoreFirst, hmoreRest⟩ := List.forall_mem_cons.mp hmore
    have ih := ih hdownRest hmoreRest
    rw [lastChange_cons, lastChange_cons]
    cases hfound : lastChange started t.offset ts with
    | some c =>
      cases hfound' : lastChange started' t.offset ts with
      | some c' => simpa [hfound, hfound'] using ih
      | none =>
        -- the change found by the first measure has started by the second
        obtain ⟨hmem, hstarted⟩ := lastChange_eq_some hfound
        have := hmoreRest c hmem hstarted
        rw [lastChange_eq_none_iff.mp hfound' c hmem] at this
        cases this
    | none =>
      cases hfound' : lastChange started' t.offset ts with
      | some c' =>
        have hlower := offset_le_of_lastChange hdownRest hfound'
        by_cases hstarted : started before t = true
        · simpa [hstarted] using hlower
        · simpa [hstarted] using Int.le_trans hlower hfirst
      | none =>
        by_cases hstarted : started before t = true
        · simp [hstarted, hmoreFirst hstarted]
        · by_cases hstarted' : started' before t = true
          · simpa [hstarted, hstarted'] using hfirst
          · simp [hstarted, hstarted']

end LastChange

namespace ZoneRules

variable {z : ZoneRules}

/-! ### Steady clocks -/

/-- No change moves the clock, but that it may be set back by a single second. -/
def Steady (z : ZoneRules) : Prop :=
  ∀ c ∈ z.changes, c.2.offset ≤ c.1 ∧ c.1 ≤ c.2.offset + 1

/-- With offsets of whole minutes a steady clock is one that no change moves. -/
theorem steady_iff_of_wholeMinutes (hz : z.Ascending) (hminutes : z.WholeMinutes) :
    z.Steady ↔ ∀ c ∈ z.changes, c.2.offset = c.1 := by
  refine forall₂_congr fun c hc => ?_
  have hbehind := hminutes.of_mem_changes hc
  have hbefore := hminutes.offset (c.2.since - 1)
  rw [(offset_of_mem_changes hz hc).1] at hbefore
  omega

theorem offsetOfWall_eq_elim (z : ZoneRules) (wall : Int) (late : Bool) :
    z.offsetOfWall wall late =
      (lastChange (fun before t => decide
        (t.since + (if late then min before t.offset else max before t.offset) ≤ wall))
          z.initial z.transitions).elim z.initial fun c => c.2.offset := by
  rw [offsetOfWall]
  split <;> rename_i h <;> rw [h] <;> rfl

/-- On a steady clock a reading has no greater offset than an earlier one, whichever pass of
the clock the earlier belongs to. -/
theorem Steady.offsetOfWall_le (h : z.Steady) {k l : Int} (hlt : k < l) (late : Bool) :
    z.offsetOfWall l false ≤ z.offsetOfWall k late := by
  rw [offsetOfWall_eq_elim, offsetOfWall_eq_elim]
  refine offset_le_of_started (fun c hc => (h c hc).1) fun c hc hstarted => ?_
  obtain ⟨hdown, hsecond⟩ := h c hc
  simp only [decide_eq_true_eq, Bool.false_eq_true, if_false] at hstarted ⊢
  split at hstarted <;> omega

/-! ### Offsets that fall -/

/-- Between two readings, none has a greater offset than the one a second earlier. -/
def OffsetsFall (z : ZoneRules) (low high : Int) : Prop :=
  ∀ k, low ≤ k → k < high → ∀ late, z.offsetOfWall (k + 1) false ≤ z.offsetOfWall k late

/-- Then none has a greater offset than any earlier one. -/
theorem OffsetsFall.le {low high : Int} (h : z.OffsetsFall low high) {k l : Int} (hlow : low ≤ k)
    (hlt : k < l) (hhigh : l ≤ high) (late : Bool) :
    z.offsetOfWall l false ≤ z.offsetOfWall k late := by
  induction l, hlt using Int.leInduction with
  | base => exact h k hlow (by omega) late
  | succ l hlt ih => exact Int.le_trans (h l (by omega) (by omega) false) (ih (by omega))

/-! ### Around a change -/

/-- At a change that does not set the clock back the reading repeats none. -/
theorem offsetAt_snd_of_mem_changes (hz : z.Ascending) {c : Int × Transition}
    (hmem : c ∈ z.changes) (hforward : c.1 ≤ c.2.offset) : (z.offsetAt c.2.since).2 = false := by
  obtain ⟨last, hlast, hbehind⟩ : ∃ last, lastChange (fun _ t => decide (t.since ≤ c.2.since))
      z.initial z.transitions = some last ∧ (last = c ∨ c.2.since < last.2.since) :=
    exists_lastChange hz hmem (by simp)
  have hstarted := (lastChange_eq_some hlast).2
  rw [offsetAt, hlast]
  simp only [decide_eq_true_eq, gt_iff_lt, decide_eq_false_iff_not] at hstarted ⊢
  rcases hbehind with rfl | hbehind <;> omega

/-- A reading that repeats an earlier one is shown less than the length of the setback behind
the change. -/
theorem exists_setBack_of_offsetAt_snd {x : Int} (h : (z.offsetAt x).2 = true) :
    ∃ c ∈ z.changes, c.2.since ≤ x ∧ x + z.offset x < c.2.since + c.1 := by
  rw [offset]
  rw [offsetAt] at h ⊢
  split at h
  · cases h
  · rename_i before t hlast
    obtain ⟨hmem, hstarted⟩ := lastChange_eq_some hlast
    simp only [decide_eq_true_eq, gt_iff_lt] at h hstarted
    exact ⟨(before, t), hmem, hstarted, by simp only; omega⟩

/-- Whatever the clock shows at an instant, it has shown a reading as late for the first time,
and one that repeats none. -/
theorem exists_first_reading (hz : z.Ascending) (hwithinDay : z.WithinDay) (x : Int) :
    ∃ y ≤ x, (z.offsetAt y).2 = false ∧ x + z.offset x ≤ y + z.offset y := by
  obtain ⟨y, hreached, hleast⟩ := Int.exists_least_of_bdd
    (P := fun y => x + z.offset x ≤ y + z.offset y)
    ⟨x + z.offset x - secondsPerDay, fun y hy => by
      have := (hwithinDay.offset y).2
      omega⟩
    ⟨x, Int.le_refl _⟩
  refine ⟨y, hleast x (Int.le_refl _), Bool.eq_false_iff.mpr fun hlate => ?_, hreached⟩
  -- a repeated reading was reached before the change, and `y` is the first to do so
  obtain ⟨c, hmem, hle, hlt⟩ := exists_setBack_of_offsetAt_snd hlate
  have hearlier := hleast (c.2.since - 1) (by
    rw [(offset_of_mem_changes hz hmem).1]
    omega)
  omega

/-- Where offsets fall around a change, the change is one that a steady clock makes. -/
theorem OffsetsFall.bounds_of_mem_changes (hz : z.Ascending) (hwithinDay : z.WithinDay)
    (hround : z.RoundTrips) {c : Int × Transition} (hmem : c ∈ z.changes)
    (h : z.OffsetsFall (c.2.since - 2 * secondsPerDay) (c.2.since + 2 * secondsPerDay)) :
    c.2.offset ≤ c.1 ∧ c.1 ≤ c.2.offset + 1 := by
  obtain ⟨hbefore, hbehind⟩ := offset_of_mem_changes hz hmem
  have hbeforeDay := hwithinDay.offset (c.2.since - 1)
  have hbehindDay := hwithinDay.offset c.2.since
  rw [hbefore] at hbeforeDay
  rw [hbehind] at hbehindDay
  have hday : 1 < secondsPerDay := by decide
  constructor
  · -- put forward: the first reading behind the change against the last one before it
    by_contra hforward
    have hfall := h.le (k := c.2.since - 1 + c.1) (l := c.2.since + c.2.offset) (by omega)
      (by omega) (by omega) (z.offsetAt (c.2.since - 1)).2
    have hold := hround (c.2.since - 1)
    have hnew := hround c.2.since
    rw [hbefore] at hold
    rw [hbehind, offsetAt_snd_of_mem_changes hz hmem (by omega)] at hnew
    omega
  · -- set back: a reading as late as the last one before the change against the first behind it
    by_contra hback
    obtain ⟨y, hy, hfirst, hreached⟩ := exists_first_reading hz hwithinDay (c.2.since - 1)
    have hyDay := (hwithinDay.offset y).2
    rw [hbefore] at hreached
    have hfall := h.le (k := c.2.since + c.2.offset) (l := y + z.offset y) (by omega) (by omega)
      (by omega) (z.offsetAt c.2.since).2
    have hold := hround y
    have hnew := hround c.2.since
    rw [hfirst] at hold
    rw [hbehind] at hnew
    omega

end ZoneRules

end CronSchedule
