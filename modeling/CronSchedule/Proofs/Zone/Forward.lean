import CronSchedule.Proofs.Zone.Dates

/-!
# Clocks that are never set back

A reading that the clock shows twice stands for two instants, and one that it skips for
none.  On a clock that is never set back no reading is shown twice, and the reading a step
behind that of an instant is taken for the instant a step later, a skipped one included.
Where the clock is set back the reading that follows the last one before the change is taken
for an instant behind the change: what the clock shows from the change on is passed over.

* `ZoneRules.NeverBack`, `ZoneRules.WholeMinutes` — the clock and its offsets;
* `ZoneRules.RoundTrips` — an instant is found again from what the clock shows at it;
* `ZoneRules.offsetOfWall_step` — the reading a step later on a clock that is never set
  back;
* `ZoneRules.exists_first_back`, `ZoneRules.lt_firstReading_of_setBack` — the first change
  that sets the clock back, and what it makes of the next reading.
-/

namespace CronSchedule.ZoneRules

/-- The clock is never set back. -/
def NeverBack (z : ZoneRules) : Prop := ∀ c ∈ z.changes, c.1 ≤ c.2.offset

/-- The offsets are whole minutes. -/
abbrev WholeMinutes (z : ZoneRules) : Prop := z.AllOffsets fun offset => offset % 60 = 0

/-- The offset at an instant is found again from the reading and whether it repeats an
earlier one. -/
def RoundTrips (z : ZoneRules) : Prop :=
  ∀ x : Int, z.offsetOfWall (x + z.offset x) (z.offsetAt x).2 = z.offset x

/-! ### Repeated readings -/

/-- A reading repeats an earlier one only behind a change that sets the clock back. -/
theorem offsetAt_snd_eq_false {z : ZoneRules} {x : Int}
    (h : ∀ c ∈ z.changes, c.2.since ≤ x → c.1 ≤ c.2.offset) : (z.offsetAt x).2 = false := by
  rw [offsetAt]
  split
  · rfl
  · rename_i before t hlast
    obtain ⟨hmem, hstarted⟩ := lastChange_eq_some hlast
    have hforward := h _ hmem (by simpa using hstarted)
    simp only [decide_eq_true_eq] at hstarted
    simp only [gt_iff_lt, decide_eq_false_iff_not]
    simp only at hforward
    omega

/-! ### Clocks that are never set back -/

theorem neverBack_cons_iff {before : Int} {t : Transition} {ts : List Transition} :
    NeverBack ⟨before, t :: ts⟩ ↔ before ≤ t.offset ∧ NeverBack ⟨t.offset, ts⟩ :=
  List.forall_mem_cons

/-- On such a clock offsets only grow. -/
theorem NeverBack.initial_le {z : ZoneRules} (h : z.NeverBack) :
    z.AllOffsets fun offset => z.initial ≤ offset := by
  obtain ⟨before, ts⟩ := z
  refine ⟨Int.le_refl _, ?_⟩
  induction ts generalizing before with
  | nil =>
    intro t ht
    cases ht
  | cons u ts ih =>
    obtain ⟨hfirst, hrest⟩ := neverBack_cons_iff.mp h
    intro t ht
    rcases List.mem_cons.mp ht with rfl | ht
    · exact hfirst
    · exact Int.le_trans hfirst (ih u.offset hrest t ht)

/-- The reading up to a minute behind that of an instant is read with the offset at the
instant. -/
theorem offsetOfWall_step {z : ZoneRules} (hz : z.Ascending) (hforward : z.NeverBack)
    (hminutes : z.WholeMinutes) {x k : Int} (hk : 0 ≤ k ∧ k ≤ 60) :
    z.offsetOfWall (x + z.offset x + k) false = z.offset x := by
  obtain ⟨before, ts⟩ := z
  induction ts generalizing before with
  | nil =>
    rw [offsetOfWall_of_none (by simp [changes, changesFrom]), offset_eq_initial (by simp)]
  | cons t ts ih =>
    obtain ⟨hbehind, htail⟩ := ascending_cons_iff.mp hz
    obtain ⟨hfirst, hrest⟩ := neverBack_cons_iff.mp hforward
    have hminutesRest : WholeMinutes ⟨t.offset, ts⟩ :=
      ⟨hminutes.transitions t List.mem_cons_self,
        fun u hu => hminutes.transitions u (List.mem_cons_of_mem _ hu)⟩
    have ih := ih t.offset htail hrest hminutesRest
    by_cases hx : t.since ≤ x
    · -- the change is passed, so the zone behind it decides
      have hgrown := hrest.initial_le.offset x
      rw [offset_cons_of_le before ts hx, offsetOfWall_cons, ih]
      left
      simp only [passed, decide_eq_true_eq]
      simp only at hgrown
      omega
    have hbefore : offset ⟨before, t :: ts⟩ x = before := offset_cons_of_lt hz (by omega)
    have hlater : ∀ c ∈ changes ⟨t.offset, ts⟩, x < c.2.since ∧ t.offset ≤ c.2.offset :=
      fun c hc => ⟨Int.lt_trans (by omega) (hbehind c.2 (mem_of_mem_changesFrom hc)),
        hrest.initial_le.of_mem_changes hc⟩
    rw [hbefore]
    by_cases hjump : before = t.offset
    · -- a change that changes nothing
      have hsame : offset ⟨t.offset, ts⟩ x = before := by
        rw [offset_eq_initial fun u hu => Int.lt_trans (by omega) (hbehind u hu), hjump]
      rw [hsame] at ih
      rcases passed_or_forall (x + before + k) before t ts with hpassed | hnone
      · rw [offsetOfWall_cons hpassed, ih]
      · exact offsetOfWall_of_none hnone
    · -- the clock jumps by a minute at least, and no change is passed
      have hminute : before + 60 ≤ t.offset := by
        have := hminutes.initial
        have := hminutesRest.initial
        simp only at *
        omega
      refine offsetOfWall_of_none fun c hc => ?_
      simp only [passed, decide_eq_false_iff_not]
      rcases List.mem_cons.mp hc with rfl | hc
      · simp only
        omega
      · have := hlater c hc
        omega

/-- An instant is found again on a clock that is never set back. -/
theorem NeverBack.roundTrips {z : ZoneRules} (hforward : z.NeverBack) (hz : z.Ascending)
    (hminutes : z.WholeMinutes) : z.RoundTrips := by
  intro x
  rw [offsetAt_snd_eq_false fun c hc _ => hforward c hc, ← Int.add_zero (x + z.offset x)]
  exact offsetOfWall_step hz hforward hminutes ⟨Int.le_refl 0, by decide⟩

/-! ### The first change that sets the clock back -/

/-- Where the clock is set back there is a first change that does so. -/
theorem exists_first_back {z : ZoneRules} (hz : z.Ascending) (h : ¬ z.NeverBack) :
    ∃ c ∈ z.changes, c.2.offset < c.1 ∧
      ∀ d ∈ z.changes, d.2.since < c.2.since → d.1 ≤ d.2.offset := by
  obtain ⟨before, ts⟩ := z
  induction ts generalizing before with
  | nil => exact absurd (fun c hc => by cases hc) h
  | cons t ts ih =>
    obtain ⟨hbehind, htail⟩ := ascending_cons_iff.mp hz
    by_cases hfirst : before ≤ t.offset
    · obtain ⟨c, hc, hback, hforward⟩ :=
        ih t.offset htail fun hrest => h (neverBack_cons_iff.mpr ⟨hfirst, hrest⟩)
      refine ⟨c, List.mem_cons_of_mem _ hc, hback, fun d hd hlt => ?_⟩
      rcases List.mem_cons.mp hd with rfl | hd
      · exact hfirst
      · exact hforward d hd hlt
    · refine ⟨(before, t), List.mem_cons_self, Int.not_le.mp hfirst, fun d hd hlt => ?_⟩
      rcases List.mem_cons.mp hd with rfl | hd
      · exact absurd hlt (Int.lt_irrefl _)
      · have := hbehind d.2 (mem_of_mem_changesFrom hd)
        simp only at hlt
        omega

/-- Where a change sets the clock back, the reading that would have come next is first shown
behind the change. -/
theorem lt_firstReading_of_setBack {z : ZoneRules} (hz : z.Ascending) {before : Int}
    {t : Transition} (hmem : (before, t) ∈ z.changes) (hback : t.offset < before) :
    t.since < z.firstReading (t.since + before) := by
  have hpassed : passed (t.since + before) before t = true := by
    rw [passed, decide_eq_true_eq]
    omega
  obtain ⟨hle, hne⟩ := le_firstReading_of_passed hz hmem hpassed
  omega

end CronSchedule.ZoneRules
