import CronSchedule.Proofs.Zone.Changes

/-!
# Dates on the clock of a zone

On the clock of a zone a date can be left and entered again, and its last midnight can be
missing.  Both come from changes that cross a midnight: the clock is set back behind the
midnight that began the date, or forward over the midnight that would have ended it.

The instant from which a date is over is looked up by its reading, as the instant at which
the clock first shows the next midnight.  `ZoneRules.keepsDates_iff` says when that look-up
can be trusted: up to the instant found the clock never shows another date, at any date of
the zone, exactly when no change crosses a midnight.

* `ZoneRules.dayAt` — the date at an instant, as the number of its day since 1970;
* `nextMidnight`, `Transition.CrossesMidnight` — the changes that do harm;
* `ZoneRules.dayAt_mono` — where no change goes back behind a midnight dates only advance;
* `ZoneRules.KeepsDates` — the date stays up to the first reading of the next midnight.
-/

namespace CronSchedule

/-- Seconds of a day. -/
def secondsPerDay : Int := 86400

/-- The first midnight at or behind a reading, in seconds. -/
def nextMidnight (wall : Int) : Int := ((wall - 1) / secondsPerDay + 1) * secondsPerDay

/-- The clock is set back behind the midnight that began the date shown before the change,
or forward over the midnight that would have ended it. -/
def Transition.CrossesMidnight (before : Int) (t : Transition) : Prop :=
  let left := t.since + before
  let entered := t.since + t.offset
  entered < nextMidnight left - secondsPerDay ∨
    left < nextMidnight left ∧ nextMidnight left < entered

instance (before : Int) (t : Transition) : Decidable (t.CrossesMidnight before) := by
  unfold Transition.CrossesMidnight
  infer_instance

namespace ZoneRules

/-- The number of the day that the clock shows at an instant, counted from 1970. -/
def dayAt (z : ZoneRules) (instant : Int) : Int := (instant + z.offset instant) / secondsPerDay

/-- From any instant on the clock keeps its date until it first shows the next midnight. -/
def KeepsDates (z : ZoneRules) : Prop :=
  ∀ x y : Int, x ≤ y → y < z.firstReading ((z.dayAt x + 1) * secondsPerDay) →
    z.dayAt y = z.dayAt x

/-! ### Dates advance -/

theorem dayAt_cons_of_lt {before : Int} {t : Transition} {ts : List Transition}
    (hz : Ascending ⟨before, t :: ts⟩) {instant : Int} (h : instant < t.since) :
    dayAt ⟨before, t :: ts⟩ instant = (instant + before) / secondsPerDay := by
  rw [dayAt, offset_cons_of_lt hz h]

theorem dayAt_cons_of_le (before : Int) {t : Transition} (ts : List Transition) {instant : Int}
    (h : t.since ≤ instant) :
    dayAt ⟨before, t :: ts⟩ instant = dayAt ⟨t.offset, ts⟩ instant := by
  rw [dayAt, dayAt, offset_cons_of_le before ts h]

/-- The dates that the clock shows right before a change and at it. -/
theorem dayAt_of_mem_changes {z : ZoneRules} (hz : z.Ascending) {before : Int} {t : Transition}
    (h : (before, t) ∈ z.changes) :
    z.dayAt (t.since - 1) = (t.since + before - 1) / secondsPerDay ∧
      z.dayAt t.since = (t.since + t.offset) / secondsPerDay := by
  obtain ⟨hold, hnew⟩ := offset_of_mem_changes hz h
  rw [dayAt, dayAt, hold, hnew]
  exact ⟨by congr 1; omega, rfl⟩

/-- Where no change goes back behind a midnight dates only advance. -/
theorem dayAt_mono {z : ZoneRules} (hz : z.Ascending)
    (hforward : ∀ c ∈ z.changes,
      nextMidnight (c.2.since + c.1) - secondsPerDay ≤ c.2.since + c.2.offset) :
    ∀ x y : Int, x ≤ y → z.dayAt x ≤ z.dayAt y := by
  obtain ⟨before, ts⟩ := z
  induction ts generalizing before with
  | nil =>
    intro x y hxy
    rw [dayAt, dayAt, offset_eq_initial (by simp), offset_eq_initial (by simp)]
    simp only [secondsPerDay]
    omega
  | cons t ts ih =>
    obtain ⟨hbehind, htail⟩ := ascending_cons_iff.mp hz
    have ih := ih t.offset htail fun c hc => hforward c (List.mem_cons_of_mem _ hc)
    intro x y hxy
    by_cases hy : y < t.since
    · rw [dayAt_cons_of_lt hz (by omega), dayAt_cons_of_lt hz hy]
      simp only [secondsPerDay]
      omega
    rw [dayAt_cons_of_le before ts (by omega : t.since ≤ y)]
    by_cases hx : x < t.since
    · -- up to the change by the old offset, over it by the hypothesis, then on by induction
      have hchange := hforward (before, t) List.mem_cons_self
      have hrest : dayAt ⟨t.offset, ts⟩ t.since ≤ dayAt ⟨t.offset, ts⟩ y :=
        ih _ _ (by omega)
      have hstart : dayAt ⟨t.offset, ts⟩ t.since = (t.since + t.offset) / secondsPerDay := by
        rw [dayAt, offset_eq_initial hbehind]
      rw [dayAt_cons_of_lt hz hx]
      simp only [nextMidnight, secondsPerDay] at hchange hstart ⊢
      omega
    · rw [dayAt_cons_of_le before ts (by omega)]
      exact ih x y hxy

/-! ### The first reading of a midnight -/

/-- Right before the first reading of a time the clock is not ahead of it, unless a change
skips the time. -/
theorem offset_before_firstReading {z : ZoneRules} (hz : z.Ascending) (wall : Int) :
    z.offset (z.firstReading wall - 1) ≤ z.offsetOfWall wall false ∨
      ∃ c ∈ z.changes, c.2.since + c.1 < wall ∧ wall < c.2.since + c.2.offset := by
  obtain ⟨before, ts⟩ := z
  induction ts generalizing before with
  | nil =>
    rw [offset_eq_initial (by simp), offsetOfWall_of_none (by simp [changes, changesFrom])]
    exact .inl (Int.le_refl _)
  | cons t ts ih =>
    obtain ⟨hbehind, htail⟩ := ascending_cons_iff.mp hz
    rcases passed_or_forall wall before t ts with hpassed | hnone
    · rw [offsetOfWall_cons hpassed, firstReading_cons hpassed]
      by_cases hlate : t.since ≤ firstReading ⟨t.offset, ts⟩ wall - 1
      · rw [offset_cons_of_le before ts hlate]
        rcases ih t.offset htail with h | ⟨c, hc, hskipped⟩
        · exact .inl h
        · exact .inr ⟨c, List.mem_cons_of_mem _ hc, hskipped⟩
      · -- the clock shows the reading no earlier than a change it has passed, so right at `t`
        rw [offset_cons_of_lt hz (by omega)]
        left
        rcases hpassed with h | ⟨c, hc, h⟩
        · simp only [passed, decide_eq_true_eq] at h
          rw [firstReading] at hlate
          omega
        · have hbound := (le_firstReading_of_passed htail hc h).1
          have := hbehind c.2 (mem_of_mem_changesFrom hc)
          omega
    · have hhead := hnone (before, t) List.mem_cons_self
      rw [firstReading, offsetOfWall_of_none hnone]
      by_cases hearly : wall - before - 1 < t.since
      · rw [offset_cons_of_lt hz hearly]
        exact .inl (Int.le_refl _)
      · simp only [passed, decide_eq_false_iff_not] at hhead
        exact .inr ⟨(before, t), List.mem_cons_self, by simp only; omega, by simp only; omega⟩

/-- By the first reading of a time the clock has shown that time or a later one; right at
that instant it does so for one of two reasons. -/
theorem exists_le_firstReading {z : ZoneRules} (hz : z.Ascending) (wall : Int) :
    ∃ v ≤ z.firstReading wall, wall ≤ v + z.offset v ∧
      (v = z.firstReading wall → z.offset v = z.offsetOfWall wall false ∨
        z.offset (v - 1) = z.offsetOfWall wall false) := by
  obtain ⟨before, ts⟩ := z
  induction ts generalizing before with
  | nil =>
    rw [firstReading, offsetOfWall_of_none (by simp [changes, changesFrom])]
    refine ⟨wall - before, Int.le_refl _, ?_, fun _ => .inl ?_⟩
    · rw [offset_eq_initial (by simp)]
      simp
    · rw [offset_eq_initial (by simp)]
  | cons t ts ih =>
    obtain ⟨hbehind, htail⟩ := ascending_cons_iff.mp hz
    have hstart : offset ⟨before, t :: ts⟩ t.since = t.offset := by
      rw [offset_cons_of_le before ts (Int.le_refl _), offset_eq_initial hbehind]
    rcases passed_or_forall wall before t ts with hpassed | hnone
    · obtain ⟨v, hv, hshown, hexact⟩ := ih t.offset htail
      rw [offsetOfWall_cons hpassed, firstReading_cons hpassed]
      by_cases hlate : t.since ≤ v
      · refine ⟨v, hv, by rw [offset_cons_of_le before ts hlate]; exact hshown, fun heq => ?_⟩
        by_cases hlater : t.since ≤ v - 1
        · rw [offset_cons_of_le before ts hlate, offset_cons_of_le before ts hlater]
          exact hexact heq
        · -- right at `t` the zone behind it has had its first offset all along
          obtain rfl : v = t.since := by omega
          left
          rw [hstart]
          rw [offset_eq_initial hbehind,
            offset_eq_initial fun u hu => Int.lt_trans (by omega) (hbehind u hu)] at hexact
          exact (hexact heq).elim id id
      · -- the zone behind `t` is ahead of the reading before `t`, hence at `t` as well
        rw [offset_eq_initial fun u hu => Int.lt_trans (by omega) (hbehind u hu)] at hshown
        simp only at hshown
        have hbefore : t.since < firstReading ⟨t.offset, ts⟩ wall := by
          rcases hpassed with h | ⟨c, hc, h⟩
          · simp only [passed, decide_eq_true_eq] at h
            omega
          · have hbound := (le_firstReading_of_passed htail hc h).1
            have := hbehind c.2 (mem_of_mem_changesFrom hc)
            omega
        exact ⟨t.since, by omega, by rw [hstart]; omega, fun heq => by omega⟩
    · have hhead := hnone (before, t) List.mem_cons_self
      rw [firstReading, offsetOfWall_of_none hnone]
      by_cases hearly : wall - before < t.since
      · have hoffset := offset_cons_of_lt hz hearly
        exact ⟨wall - before, Int.le_refl _, by rw [hoffset]; omega, fun _ => .inl hoffset⟩
      · simp only [passed, decide_eq_false_iff_not] at hhead
        simp only
        refine ⟨t.since, by omega, by rw [hstart]; omega, fun _ => .inr ?_⟩
        exact offset_cons_of_lt hz (by omega)

/-! ### When dates stay -/

/-- Where no change crosses a midnight the clock keeps its dates. -/
theorem keepsDates_of_forall {z : ZoneRules} (hz : z.Ascending)
    (hchanges : ∀ c ∈ z.changes, ¬ c.2.CrossesMidnight c.1) : z.KeepsDates := by
  have hmono := dayAt_mono hz fun c hc =>
    Int.not_lt.mp fun h => hchanges c hc (.inl h)
  intro x y hxy hy
  refine Decidable.byContradiction fun hne => ?_
  have hlater : z.dayAt x + 1 ≤ z.dayAt y := by
    have := hmono x y hxy
    omega
  have hlast := hmono y (z.firstReading ((z.dayAt x + 1) * secondsPerDay) - 1) (by omega)
  have hahead : (z.dayAt x + 1) * secondsPerDay ≤
      z.firstReading ((z.dayAt x + 1) * secondsPerDay) - 1 +
        z.offset (z.firstReading ((z.dayAt x + 1) * secondsPerDay) - 1) := by
    generalize z.firstReading ((z.dayAt x + 1) * secondsPerDay) - 1 = last at hlast ⊢
    simp only [dayAt, secondsPerDay] at hlast hlater ⊢
    omega
  rcases offset_before_firstReading hz ((z.dayAt x + 1) * secondsPerDay) with
    h | ⟨c, hc, hleft, hentered⟩
  · rw [firstReading] at hahead h
    omega
  · -- the change skips the midnight and starts from one, so the date is never shown
    obtain ⟨hold, hnew⟩ := dayAt_of_mem_changes hz hc
    have hcross := hchanges c hc
    simp only [Transition.CrossesMidnight, nextMidnight, secondsPerDay]
      at hcross hleft hentered hold hnew
    by_cases hx : x < c.2.since
    · have := hmono x (c.2.since - 1) (by omega)
      omega
    · have := hmono c.2.since x (by omega)
      omega

/-- Midnight of the day behind the date shown right before a change. -/
theorem nextMidnight_eq {z : ZoneRules} (hz : z.Ascending) {before : Int} {t : Transition}
    (h : (before, t) ∈ z.changes) :
    nextMidnight (t.since + before) = (z.dayAt (t.since - 1) + 1) * secondsPerDay := by
  rw [(dayAt_of_mem_changes hz h).1, nextMidnight]

/-- A change that goes back behind a midnight comes before the first reading of the next. -/
theorem lt_firstReading_of_back {z : ZoneRules} (hz : z.Ascending) {before : Int} {t : Transition}
    (hmem : (before, t) ∈ z.changes)
    (hback : t.since + t.offset < nextMidnight (t.since + before) - secondsPerDay) :
    t.since < z.firstReading (nextMidnight (t.since + before)) := by
  have hpassed : passed (nextMidnight (t.since + before)) before t = true := by
    rw [passed, decide_eq_true_eq]
    simp only [nextMidnight, secondsPerDay] at hback ⊢
    omega
  obtain ⟨hle, hne⟩ := le_firstReading_of_passed hz hmem hpassed
  simp only [nextMidnight, secondsPerDay] at hback hle hne ⊢
  omega

/-- The clock keeps its dates as soon as it keeps them over every change, and then no
change crosses a midnight. -/
theorem not_crossesMidnight_of_forall {z : ZoneRules} (hz : z.Ascending)
    (hkept : ∀ c ∈ z.changes, c.2.since < z.firstReading (nextMidnight (c.2.since + c.1)) →
      z.dayAt c.2.since = z.dayAt (c.2.since - 1)) :
    ∀ c ∈ z.changes, ¬ c.2.CrossesMidnight c.1 := by
  -- first no change goes back, so dates only advance
  have hforward : ∀ c ∈ z.changes,
      nextMidnight (c.2.since + c.1) - secondsPerDay ≤ c.2.since + c.2.offset := by
    intro c hc
    refine Int.not_lt.mp fun hback => ?_
    have hkept := hkept c hc (lt_firstReading_of_back hz hc hback)
    obtain ⟨hold, hnew⟩ := dayAt_of_mem_changes hz hc
    simp only [nextMidnight, secondsPerDay] at hback hold hnew
    omega
  have hmono := dayAt_mono hz hforward
  intro c hc hcross
  obtain ⟨hold, hnew⟩ := dayAt_of_mem_changes hz hc
  rcases hcross with hback | ⟨hleft, hentered⟩
  · have := hforward c hc
    omega
  by_cases hfirst : c.2.since < z.firstReading (nextMidnight (c.2.since + c.1))
  · have := hkept c hc hfirst
    simp only [nextMidnight, secondsPerDay] at hleft hentered hold hnew
    omega
  · -- the clock has shown the midnight already, but on the date before it
    obtain ⟨v, hv, hshown, hexact⟩ :=
      exists_le_firstReading hz (nextMidnight (c.2.since + c.1))
    obtain ⟨hbefore, hbehind⟩ := offset_of_mem_changes hz hc
    rw [firstReading] at hfirst hv hexact
    by_cases hv' : v ≤ c.2.since - 1
    · have := hmono v (c.2.since - 1) hv'
      simp only [dayAt, nextMidnight, secondsPerDay] at this hshown hold
      omega
    · obtain rfl : v = c.2.since := by omega
      have := hexact (by omega)
      rw [hbefore, hbehind] at this
      omega

/-- The clock keeps its dates exactly when no change crosses a midnight. -/
theorem keepsDates_iff {z : ZoneRules} (hz : z.Ascending) :
    z.KeepsDates ↔ ∀ c ∈ z.changes, ¬ c.2.CrossesMidnight c.1 := by
  refine ⟨fun h => not_crossesMidnight_of_forall hz fun c hc hfirst => ?_,
    keepsDates_of_forall hz⟩
  rw [nextMidnight_eq hz hc] at hfirst
  exact h (c.2.since - 1) c.2.since (by omega) hfirst

end ZoneRules

end CronSchedule
