import CronSchedule.Proofs.Zone.Clock

/-!
# Clocks that pass over no midnight

A change may fall on a midnight in many ways: it leads from a midnight to a later time, back
from one to the time before, back to the midnight that began the date, or from one midnight to
the next over a whole day.  In all of them the midnight is an end of the stretch of readings
that the change skips or repeats, and never inside it.

On such a clock dates only advance, and the look-up of a midnight gives the instant at which a
date is over: up to it the clock keeps the date, and from it on the clock has left the date for
good.  The first is `ZoneRules.keepsDates_of_forall`, which speaks of instants before the one
found.  The second comes from `ZoneRules.exists_le_firstReading`: by that instant the clock has
shown the midnight or a later time, and dates do not come back.

* `Transition.PassesMidnight` — a midnight lies inside the stretch of a change;
* `ZoneRules.Orderly` — no change does that, the changes lie four days apart, and offsets are
  less than a day;
* `ZoneRules.Orderly.dayAt_eq_iff` — a date is over from the first reading of the next midnight
  on, and no earlier;
* `ZoneRules.Orderly.dayAt_le_add_two` — within a day the date advances by two at most.
-/

namespace CronSchedule

/-- A midnight lies strictly between what the clock shows right before the change and what it
shows at it. -/
def Transition.PassesMidnight (before : Int) (t : Transition) : Prop :=
  ∃ day : Int, min (t.since + before) (t.since + t.offset) < day * secondsPerDay ∧
    day * secondsPerDay < max (t.since + before) (t.since + t.offset)

/-- It is enough to look at the first midnight behind the earlier of the two. -/
theorem Transition.passesMidnight_iff {before : Int} {t : Transition} :
    t.PassesMidnight before ↔
      (min (t.since + before) (t.since + t.offset) / secondsPerDay + 1) * secondsPerDay <
        max (t.since + before) (t.since + t.offset) := by
  simp only [PassesMidnight, secondsPerDay]
  constructor
  · rintro ⟨day, hbehind, hbefore⟩
    omega
  · intro h
    exact ⟨_, by omega, h⟩

instance (before : Int) (t : Transition) : Decidable (t.PassesMidnight before) :=
  decidable_of_iff' _ Transition.passesMidnight_iff

/-- A change that crosses a midnight passes over one. -/
theorem Transition.CrossesMidnight.passesMidnight {before : Int} {t : Transition}
    (h : t.CrossesMidnight before) : t.PassesMidnight before := by
  rw [passesMidnight_iff]
  simp only [CrossesMidnight, nextMidnight, secondsPerDay] at h ⊢
  omega

namespace ZoneRules

/-- The changes lie at least four days apart. -/
def FourDaysApart (z : ZoneRules) : Prop :=
  z.transitions.Pairwise fun t u => t.since + 4 * secondsPerDay ≤ u.since

instance (z : ZoneRules) : Decidable z.FourDaysApart :=
  inferInstanceAs (Decidable (z.transitions.Pairwise _))

/-- Offsets are less than a day, the changes lie at least four days apart, and none of them
passes over a midnight. -/
structure Orderly (z : ZoneRules) : Prop where
  withinDay : z.WithinDay
  fourDaysApart : z.FourDaysApart
  not_passesMidnight : ∀ c ∈ z.changes, ¬ c.2.PassesMidnight c.1

/-- A clock without changes is orderly. -/
theorem orderly_of_fixed {offset : Int} (h : offset.natAbs < 86400) : Orderly ⟨offset, []⟩ := by
  refine ⟨⟨?_, fun t ht => by cases ht⟩, List.Pairwise.nil, fun c hc => by cases hc⟩
  simp only [secondsPerDay]
  omega

theorem FourDaysApart.ascending {z : ZoneRules} (h : z.FourDaysApart) : z.Ascending := by
  refine h.imp fun hle => ?_
  simp only [secondsPerDay] at hle
  omega

namespace Orderly

variable {z : ZoneRules}

theorem not_crossesMidnight (h : z.Orderly) : ∀ c ∈ z.changes, ¬ c.2.CrossesMidnight c.1 :=
  fun c hc hcross => h.not_passesMidnight c hc hcross.passesMidnight

theorem dayAt_le (h : z.Orderly) {x y : Int} (hxy : x ≤ y) : z.dayAt x ≤ z.dayAt y :=
  dayAt_mono h.fourDaysApart.ascending
    (fun c hc => Int.not_lt.mp fun hback => h.not_crossesMidnight c hc (.inl hback)) x y hxy

/-- A date is over exactly when the clock has first shown the midnight behind it. -/
theorem dayAt_eq_iff (h : z.Orderly) {x y : Int} (hxy : x ≤ y) :
    z.dayAt y = z.dayAt x ↔ y < z.firstReading ((z.dayAt x + 1) * secondsPerDay) := by
  have hascending := h.fourDaysApart.ascending
  constructor
  · intro hsame
    refine Int.not_le.mp fun hlate => ?_
    -- the midnight has been shown at some instant up to `y`, and dates do not come back
    obtain ⟨v, hv, hshown, -⟩ :=
      exists_le_firstReading hascending ((z.dayAt x + 1) * secondsPerDay)
    have hbehind := h.dayAt_le (Int.le_trans hv hlate)
    have hdef : z.dayAt v = (v + z.offset v) / secondsPerDay := rfl
    simp only [secondsPerDay] at hshown hdef
    omega
  · exact keepsDates_of_forall hascending h.not_crossesMidnight x y hxy

/-- Within a day the date advances by two at most: one change at most falls into it, and that
leads no further than to the next midnight. -/
theorem dayAt_le_add_two (h : z.Orderly) {x y : Int} (hxy : x ≤ y) (hyx : y ≤ x + secondsPerDay) :
    z.dayAt y ≤ z.dayAt x + 2 := by
  obtain ⟨-, hapart, hchanges⟩ := h
  obtain ⟨before, ts⟩ := z
  induction ts generalizing before with
  | nil =>
    rw [dayAt, dayAt, offset_eq_initial (by simp), offset_eq_initial (by simp)]
    simp only [secondsPerDay] at hyx ⊢
    omega
  | cons t ts ih =>
    obtain ⟨hbehind, htail⟩ := List.pairwise_cons.mp hapart
    have hascending : Ascending ⟨before, t :: ts⟩ := FourDaysApart.ascending hapart
    by_cases hy : y < t.since
    · rw [dayAt_cons_of_lt hascending (by omega : x < t.since), dayAt_cons_of_lt hascending hy]
      simp only [secondsPerDay] at hyx ⊢
      omega
    rw [dayAt_cons_of_le before ts (by omega : t.since ≤ y)]
    by_cases hx : x < t.since
    · -- the change comes in between, and no other before `y`
      have hcalm : dayAt ⟨t.offset, ts⟩ y = (y + t.offset) / secondsPerDay := by
        rw [dayAt, offset_eq_initial]
        intro u hu
        have := hbehind u hu
        simp only [secondsPerDay] at this hyx
        omega
      have hentered : t.since + t.offset ≤
          ((t.since + before) / secondsPerDay + 1) * secondsPerDay := by
        refine Int.not_lt.mp fun hpassed => ?_
        refine hchanges (before, t) List.mem_cons_self
          ⟨(t.since + before) / secondsPerDay + 1, ?_⟩
        simp only [secondsPerDay] at hpassed ⊢
        omega
      rw [dayAt_cons_of_lt hascending hx, hcalm]
      simp only [secondsPerDay] at hentered hyx ⊢
      omega
    · rw [dayAt_cons_of_le before ts (by omega)]
      exact ih t.offset htail fun c hc => hchanges c (List.mem_cons_of_mem _ hc)

end Orderly

end ZoneRules

end CronSchedule
