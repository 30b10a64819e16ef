import CronSchedule.Zone.Rules

/-!
# The changes of a zone

The rules of a zone read as a function of the instant, and as a function of the reading.
A zone that starts with an offset and goes on with a change and further ones is, from that
change on, the zone that starts with the new offset: every proof here recurses along this
line, and looks at one change at a time.

* `ZoneRules.changes` — the changes, each with the offset before it;
* `ZoneRules.Ascending` — the changes come one after the other;
* `ZoneRules.offset` — the offset at an instant: before the first change it is the one the
  zone starts with, from then on it is that of the rest;
* `ZoneRules.AllOffsets` — a property of every offset, whichever way it is looked up;
* `ZoneRules.firstReading` — the instant at which the clock is taken to show a reading when
  nothing says which of two is meant.
-/

namespace CronSchedule

/-- The changes of a list with the offset in force before each. -/
def changesFrom (before : Int) : List Transition → List (Int × Transition)
  | [] => []
  | t :: ts => (before, t) :: changesFrom t.offset ts

theorem mem_of_mem_changesFrom {before : Int} {ts : List Transition} {c : Int × Transition}
    (h : c ∈ changesFrom before ts) : c.2 ∈ ts := by
  induction ts generalizing before with
  | nil => cases h
  | cons t ts ih =>
    rcases List.mem_cons.mp h with rfl | h
    · exact List.mem_cons_self
    · exact List.mem_cons_of_mem t (ih h)

/-! ### The last change that has started -/

section LastChange

variable {started : Int → Transition → Bool} {before : Int} {ts : List Transition}

theorem lastChange_eq_none_iff :
    lastChange started before ts = none ↔
      ∀ c ∈ changesFrom before ts, started c.1 c.2 = false := by
  induction ts generalizing before with
  | nil => simp [changesFrom]
  | cons t ts ih =>
    rw [lastChange_cons, Option.or_eq_none_iff, ih]
    simp [changesFrom, and_comm]

/-- The last change that has started is one of the changes, and has started. -/
theorem lastChange_eq_some {c : Int × Transition}
    (h : lastChange started before ts = some c) :
    c ∈ changesFrom before ts ∧ started c.1 c.2 = true := by
  induction ts generalizing before with
  | nil => cases h
  | cons t ts ih =>
    rw [lastChange_cons, Option.or_eq_some_iff] at h
    rcases h with h | ⟨-, h⟩
    · obtain ⟨hmem, hstarted⟩ := ih h
      exact ⟨List.mem_cons_of_mem _ hmem, hstarted⟩
    · rw [Option.ite_none_right_eq_some] at h
      obtain ⟨hstarted, h⟩ := h
      obtain rfl := Option.some.inj h
      exact ⟨List.mem_cons_self, hstarted⟩

/-- Of ascending changes the last that has started is no earlier than any other that has. -/
theorem exists_lastChange (hascending : ts.Pairwise fun s t => s.since < t.since)
    {c : Int × Transition} (hmem : c ∈ changesFrom before ts) (hstarted : started c.1 c.2 = true) :
    ∃ last, lastChange started before ts = some last ∧
      (last = c ∨ c.2.since < last.2.since) := by
  induction ts generalizing before with
  | nil => cases hmem
  | cons t ts ih =>
    obtain ⟨hbehind, hascending⟩ := List.pairwise_cons.mp hascending
    rw [lastChange_cons]
    rcases List.mem_cons.mp hmem with rfl | hmem
    · cases htail : lastChange started t.offset ts with
      | none => exact ⟨(before, t), by simpa using hstarted, .inl rfl⟩
      | some last =>
        have := hbehind last.2 (mem_of_mem_changesFrom (lastChange_eq_some htail).1)
        exact ⟨last, rfl, .inr this⟩
    · obtain ⟨last, hlast, hle⟩ := ih hascending hmem
      exact ⟨last, by rw [hlast, Option.some_or], hle⟩

end LastChange

namespace ZoneRules

/-- The changes of the zone, each with the offset before it. -/
def changes (z : ZoneRules) : List (Int × Transition) := changesFrom z.initial z.transitions

/-- The changes come one after the other. -/
def Ascending (z : ZoneRules) : Prop := z.transitions.Pairwise fun s t => s.since < t.since

theorem ascending_cons_iff {before : Int} {t : Transition} {ts : List Transition} :
    Ascending ⟨before, t :: ts⟩ ↔
      (∀ u ∈ ts, t.since < u.since) ∧ Ascending ⟨t.offset, ts⟩ := by
  simp only [Ascending, List.pairwise_cons]

/-! ### The offset at an instant -/

/-- The offset at an instant. -/
def offset (z : ZoneRules) (instant : Int) : Int := (z.offsetAt instant).1

theorem offset_eq_initial {z : ZoneRules} {instant : Int}
    (h : ∀ t ∈ z.transitions, instant < t.since) : z.offset instant = z.initial := by
  have hnone : lastChange (fun _ t => decide (t.since ≤ instant)) z.initial z.transitions =
      none := by
    rw [lastChange_eq_none_iff]
    intro c hc
    simpa using h c.2 (mem_of_mem_changesFrom hc)
  rw [offset, offsetAt, hnone]

/-- Before its first change a zone has the offset it starts with. -/
theorem offset_cons_of_lt {before : Int} {t : Transition} {ts : List Transition}
    (hz : Ascending ⟨before, t :: ts⟩) {instant : Int} (h : instant < t.since) :
    offset ⟨before, t :: ts⟩ instant = before := by
  refine offset_eq_initial ?_
  intro u hu
  rcases List.mem_cons.mp hu with rfl | hu
  · exact h
  · exact Int.lt_trans h ((ascending_cons_iff.mp hz).1 u hu)

/-- From its first change on a zone is the zone that starts with the new offset. -/
theorem offset_cons_of_le (before : Int) {t : Transition} (ts : List Transition) {instant : Int}
    (h : t.since ≤ instant) :
    offset ⟨before, t :: ts⟩ instant = offset ⟨t.offset, ts⟩ instant := by
  simp only [offset, offsetAt, lastChange_cons, h, decide_true, if_true]
  cases lastChange (fun _ t => decide (t.since ≤ instant)) t.offset ts <;> rfl

/-- At a change the new offset is in force, and a second earlier the old one. -/
theorem offset_of_mem_changes {z : ZoneRules} (hz : z.Ascending) {before : Int} {t : Transition}
    (h : (before, t) ∈ z.changes) :
    z.offset (t.since - 1) = before ∧ z.offset t.since = t.offset := by
  obtain ⟨initial, ts⟩ := z
  induction ts generalizing initial with
  | nil => cases h
  | cons u ts ih =>
    obtain ⟨hbehind, htail⟩ := ascending_cons_iff.mp hz
    rcases List.mem_cons.mp h with h | h
    · obtain ⟨rfl, rfl⟩ := Prod.mk.inj h
      refine ⟨offset_cons_of_lt hz (by omega), ?_⟩
      rw [offset_cons_of_le _ _ (Int.le_refl _)]
      exact offset_eq_initial hbehind
    · have hlt := hbehind t (mem_of_mem_changesFrom h)
      obtain ⟨hold, hnew⟩ := ih u.offset htail h
      rw [offset_cons_of_le _ _ (by omega), offset_cons_of_le _ _ (by omega)]
      exact ⟨hold, hnew⟩

/-! ### The offset for a reading -/

/-- The instant at which the clock shows a reading, the first if there are two. -/
def firstReading (z : ZoneRules) (wall : Int) : Int := wall - z.offsetOfWall wall false

/-- Whether the clock has passed a change when it shows the reading for the first time. -/
def passed (wall before : Int) (t : Transition) : Bool :=
  decide (t.since + max before t.offset ≤ wall)

theorem offsetOfWall_false (z : ZoneRules) (wall : Int) :
    z.offsetOfWall wall false =
      match lastChange (passed wall) z.initial z.transitions with
      | none => z.initial
      | some (_, t) => t.offset := rfl

/-- Where no change is passed the offset is the one the zone starts with. -/
theorem offsetOfWall_of_none {z : ZoneRules} {wall : Int}
    (h : ∀ c ∈ z.changes, passed wall c.1 c.2 = false) :
    z.offsetOfWall wall false = z.initial := by
  rw [offsetOfWall_false, lastChange_eq_none_iff.mpr h]

/-- Where some change is passed the offset is that of the zone behind the first change. -/
theorem offsetOfWall_cons {before wall : Int} {t : Transition} {ts : List Transition}
    (h : passed wall before t = true ∨ ∃ c ∈ changes ⟨t.offset, ts⟩, passed wall c.1 c.2 = true) :
    offsetOfWall ⟨before, t :: ts⟩ wall false = offsetOfWall ⟨t.offset, ts⟩ wall false := by
  rw [offsetOfWall_false, offsetOfWall_false, lastChange_cons]
  cases htail : lastChange (passed wall) t.offset ts with
  | some last => rfl
  | none =>
    have hnone := lastChange_eq_none_iff.mp htail
    rcases h with h | ⟨c, hc, hpassed⟩
    · simp [h]
    · rw [hnone c hc] at hpassed
      cases hpassed

theorem firstReading_cons {before wall : Int} {t : Transition} {ts : List Transition}
    (h : passed wall before t = true ∨ ∃ c ∈ changes ⟨t.offset, ts⟩, passed wall c.1 c.2 = true) :
    firstReading ⟨before, t :: ts⟩ wall = firstReading ⟨t.offset, ts⟩ wall := by
  rw [firstReading, firstReading, offsetOfWall_cons h]

/-- The first change or one of the rest is passed, or none is. -/
theorem passed_or_forall (wall before : Int) (t : Transition) (ts : List Transition) :
    (passed wall before t = true ∨ ∃ c ∈ changes ⟨t.offset, ts⟩, passed wall c.1 c.2 = true) ∨
      ∀ c ∈ changes ⟨before, t :: ts⟩, passed wall c.1 c.2 = false := by
  by_cases h : passed wall before t = true ∨
      ∃ c ∈ changes ⟨t.offset, ts⟩, passed wall c.1 c.2 = true
  · exact .inl h
  · rw [not_or, Bool.not_eq_true, not_exists] at h
    refine .inr fun c hc => ?_
    rcases List.mem_cons.mp hc with rfl | hc
    · exact h.1
    · exact Bool.eq_false_iff.mpr fun hpassed => h.2 c ⟨hc, hpassed⟩

/-- A reading whose clock has passed a change is not shown before the change. -/
theorem le_firstReading_of_passed {z : ZoneRules} (hz : z.Ascending) {wall before : Int}
    {t : Transition} (hmem : (before, t) ∈ z.changes) (hpassed : passed wall before t = true) :
    t.since ≤ z.firstReading wall ∧
      (t.since = z.firstReading wall → before ≤ t.offset) := by
  obtain ⟨⟨before', u⟩, hlast, hle⟩ := exists_lastChange hz hmem hpassed
  have hu := (lastChange_eq_some hlast).2
  rw [firstReading, offsetOfWall_false]
  simp only [passed, decide_eq_true_eq] at hpassed hu ⊢
  rw [hlast]
  rcases hle with h | h
  · obtain ⟨rfl, rfl⟩ := Prod.mk.inj h
    simp only
    omega
  · simp only at h ⊢
    omega

/-! ### Properties of offsets -/

/-- Every offset has the property. -/
structure AllOffsets (P : Int → Prop) (z : ZoneRules) : Prop where
  initial : P z.initial
  transitions : ∀ t ∈ z.transitions, P t.offset

section AllOffsets

variable {P : Int → Prop} {z : ZoneRules}

theorem AllOffsets.of_mem_changes (h : z.AllOffsets P) {c : Int × Transition}
    (hc : c ∈ z.changes) : P c.2.offset :=
  h.transitions c.2 (mem_of_mem_changesFrom hc)

theorem AllOffsets.offset (h : z.AllOffsets P) (instant : Int) : P (z.offset instant) := by
  rw [ZoneRules.offset, offsetAt]
  split
  · exact h.initial
  · rename_i hlast
    exact h.of_mem_changes (lastChange_eq_some hlast).1

theorem AllOffsets.offsetOfWall (h : z.AllOffsets P) (wall : Int) (late : Bool) :
    P (z.offsetOfWall wall late) := by
  rw [ZoneRules.offsetOfWall]
  split
  · exact h.initial
  · rename_i hlast
    exact h.of_mem_changes (lastChange_eq_some hlast).1

end AllOffsets

end ZoneRules

end CronSchedule
