import CronSchedule.Proofs.Zone.Steady

/-!
# Readings with two offsets

The offset for a reading depends on which of two passes is meant only near a change.  Of a clock
that moves, some reading has two offsets: take the lowest offset of all, and the first change that
leaves it or comes to it.  When the clock shows, by the lowest offset, the instant of this change,
it has begun for the second pass and not for the first, and no later change has for either.

* `ZoneRules.forall_changes_iff` — a clock that no change moves has one offset;
* `ZoneRules.exists_offsetOfWall_apart` — the reading at the first change that leaves the lowest
  offset or comes to it;
* `ZoneRules.exists_offsetOfWall_ne` — a clock that is moved has a reading with two offsets.
-/

namespace CronSchedule.ZoneRules

variable {z : ZoneRules} {before m : Int} {t : Transition} {ts : List Transition}

/-- No change moves the clock exactly when all offsets are the one it starts with. -/
theorem forall_changes_iff :
    (∀ c ∈ z.changes, c.2.offset = c.1) ↔ z.AllOffsets (· = z.initial) := by
  obtain ⟨initial, ts⟩ := z
  have hrest : (∀ c ∈ changesFrom initial ts, c.2.offset = c.1) ↔
      ∀ t ∈ ts, t.offset = initial := by
    induction ts generalizing initial with
    | nil => simp [changesFrom]
    | cons t ts ih =>
      rw [changesFrom, List.forall_mem_cons, List.forall_mem_cons, ih]
      exact and_congr_right fun h => by rw [h]
  exact ⟨fun h => ⟨rfl, hrest.mp h⟩, fun h => hrest.mpr h.transitions⟩

/-- A property of every offset is one of both offsets of every change. -/
theorem AllOffsets.changes {P : Int → Prop} (h : z.AllOffsets P) :
    ∀ c ∈ z.changes, P c.1 ∧ P c.2.offset := by
  obtain ⟨initial, ts⟩ := z
  induction ts generalizing initial with
  | nil => simp [ZoneRules.changes, changesFrom]
  | cons t ts ih =>
    obtain ⟨hfirst, hrest⟩ := List.forall_mem_cons.mp h.transitions
    exact List.forall_mem_cons.mpr ⟨⟨h.initial, hfirst⟩, ih t.offset ⟨hfirst, hrest⟩⟩

/-! ### The offset for a reading, a change at a time -/

/-- The offset of the last change that has started is looked up a change at a time. -/
theorem elim_lastChange_cons (started : Int → Transition → Bool) (before : Int) (t : Transition)
    (ts : List Transition) :
    ((lastChange started before (t :: ts)).elim before fun c => c.2.offset) =
      (lastChange started t.offset ts).elim (if started before t then t.offset else before)
        fun c => c.2.offset := by
  rw [lastChange_cons]
  cases lastChange started t.offset ts with
  | some c => rfl
  | none => cases started before t <;> rfl

/-- A reading has the offset that it has on the clock behind the first change, but that it may come
before all changes. -/
theorem offsetOfWall_cons_eq (before : Int) (t : Transition) (ts : List Transition) (wall : Int)
    (late : Bool) :
    offsetOfWall ⟨before, t :: ts⟩ wall late = offsetOfWall ⟨t.offset, ts⟩ wall late ∨
      offsetOfWall ⟨before, t :: ts⟩ wall late = before ∧
        offsetOfWall ⟨t.offset, ts⟩ wall late = t.offset := by
  rw [offsetOfWall_eq_elim, offsetOfWall_eq_elim, elim_lastChange_cons]
  cases lastChange _ t.offset ts with
  | some c => exact .inl rfl
  | none =>
    by_cases hstarted :
      t.since + (if late then min before t.offset else max before t.offset) ≤ wall
    · exact .inl (by simp [hstarted])
    · exact .inr (by simp [hstarted])

/-- A reading at which no later change has started for either pass has the offset of the first
change if that has started. -/
theorem offsetOfWall_cons_of_forall {wall : Int}
    (h : ∀ c ∈ changesFrom t.offset ts, wall < c.2.since + min c.1 c.2.offset) (late : Bool) :
    offsetOfWall ⟨before, t :: ts⟩ wall late =
      if t.since + (if late then min before t.offset else max before t.offset) ≤ wall
      then t.offset else before := by
  have hnone : lastChange (fun before t => decide
      (t.since + (if late then min before t.offset else max before t.offset) ≤ wall))
        t.offset ts = none := by
    rw [lastChange_eq_none_iff]
    intro c hc
    have := h c hc
    rw [decide_eq_false_iff_not]
    split <;> omega
  rw [offsetOfWall_eq_elim, elim_lastChange_cons, hnone, Option.elim_none]
  simp only [decide_eq_true_eq]

/-! ### Clocks that are moved -/

/-- Where a clock leaves its lowest offset or comes to it, some reading has the offset for the
first pass still on the side of the one the clock starts with, and that for the second on the
other. -/
theorem exists_offsetOfWall_apart (hz : Ascending ⟨before, ts⟩)
    (hleast : AllOffsets (m ≤ ·) ⟨before, ts⟩) {u : Transition} (hu : u ∈ ts)
    (hside : ¬ (u.offset = m ↔ before = m)) :
    ∃ t ∈ ts, (offsetOfWall ⟨before, ts⟩ (t.since + m) false = m ↔ before = m) ∧
      ¬ (offsetOfWall ⟨before, ts⟩ (t.since + m) true = m ↔ before = m) := by
  induction ts generalizing before with
  | nil => cases hu
  | cons t ts ih =>
    obtain ⟨hbehind, hascending⟩ := ascending_cons_iff.mp hz
    obtain ⟨hfirst, hrest⟩ := List.forall_mem_cons.mp hleast.transitions
    have htail : AllOffsets (m ≤ ·) ⟨t.offset, ts⟩ := ⟨hfirst, hrest⟩
    by_cases hsame : t.offset = m ↔ before = m
    · -- the first change stays on its side, and the clock behind it starts there
      have hmem : u ∈ ts := (List.mem_cons.mp hu).resolve_left fun h => hside (h ▸ hsame)
      obtain ⟨v, hv, hearly, hlate⟩ := ih hascending htail hmem (by rwa [hsame])
      have hsides (late : Bool) : offsetOfWall ⟨before, t :: ts⟩ (v.since + m) late = m ↔
          offsetOfWall ⟨t.offset, ts⟩ (v.since + m) late = m := by
        rcases offsetOfWall_cons_eq before t ts (v.since + m) late with h | ⟨h, h'⟩
        · rw [h]
        · rw [h, h', hsame]
      refine ⟨v, List.mem_cons_of_mem t hv, ?_, ?_⟩
      · rw [hsides, hearly, hsame]
      · rwa [hsides, ← hsame]
    · -- the first change is the one: of its two offsets one is the lowest and one is not
      have hlow : m ≤ before := hleast.initial
      have hlater : ∀ c ∈ changesFrom t.offset ts,
          t.since + m < c.2.since + min c.1 c.2.offset := by
        intro c hc
        have hsince := hbehind c.2 (mem_of_mem_changesFrom hc)
        have hoffsets := htail.changes c hc
        omega
      refine ⟨t, List.mem_cons_self, ?_, ?_⟩
      · rw [offsetOfWall_cons_of_forall hlater, if_neg]
        simp only [Bool.false_eq_true, if_false]
        omega
      · rwa [offsetOfWall_cons_of_forall hlater, if_pos]
        simp only [if_true]
        omega

/-- The lowest offset of a zone. -/
theorem exists_least_offset (z : ZoneRules) (hwithinDay : z.WithinDay) :
    ∃ m, z.AllOffsets (m ≤ ·) ∧ (z.initial = m ∨ ∃ t ∈ z.transitions, t.offset = m) := by
  obtain ⟨m, hattained, hleast⟩ := Int.exists_least_of_bdd
    (P := fun m => z.initial = m ∨ ∃ t ∈ z.transitions, t.offset = m)
    ⟨-secondsPerDay, fun m hm => by
      rcases hm with rfl | ⟨t, ht, rfl⟩
      · exact Int.le_of_lt hwithinDay.initial.1
      · exact Int.le_of_lt (hwithinDay.transitions t ht).1⟩
    ⟨z.initial, .inl rfl⟩
  exact ⟨m, ⟨hleast _ (.inl rfl), fun t ht => hleast _ (.inr ⟨t, ht, rfl⟩)⟩, hattained⟩

/-- A clock that some change moves has a reading with two offsets, less than a day from one of its
changes. -/
theorem exists_offsetOfWall_ne (hz : z.Ascending) (hwithinDay : z.WithinDay)
    (hmoved : ¬ ∀ c ∈ z.changes, c.2.offset = c.1) :
    ∃ t ∈ z.transitions, ∃ wall, t.since - secondsPerDay < wall ∧ wall < t.since + secondsPerDay ∧
      z.offsetOfWall wall false ≠ z.offsetOfWall wall true := by
  obtain ⟨m, hleast, hattained⟩ := z.exists_least_offset hwithinDay
  have hbound : -secondsPerDay < m ∧ m < secondsPerDay := by
    rcases hattained with rfl | ⟨t, ht, rfl⟩
    · exact hwithinDay.initial
    · exact hwithinDay.transitions t ht
  -- the clock starts with the lowest offset and leaves it, or comes to it later
  obtain ⟨u, hu, hside⟩ : ∃ u ∈ z.transitions, ¬ (u.offset = m ↔ z.initial = m) := by
    by_contra hsides
    push Not at hsides
    refine hmoved (forall_changes_iff.mpr ⟨rfl, fun u hu => ?_⟩)
    rcases hattained with hinitial | ⟨t, ht, htm⟩
    · rw [(hsides u hu).mpr hinitial, hinitial]
    · have hinitial := (hsides t ht).mp htm
      rw [(hsides u hu).mpr hinitial, hinitial]
  obtain ⟨t, ht, hearly, hlate⟩ := exists_offsetOfWall_apart hz hleast hu hside
  refine ⟨t, ht, t.since + m, by omega, by omega, fun heq => hlate ?_⟩
  rw [← heq]
  exact hearly

end CronSchedule.ZoneRules
