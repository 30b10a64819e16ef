/-!
# Offsets of a time zone

A zone is data: the offset it starts with and the instants, in seconds since
1 January 1970 UTC, at which another offset comes into force.

* `ZoneRules.offsetAt` — the offset at an instant, and whether the clock shows its
  reading for the second time there;
* `ZoneRules.offsetOfWall` — the offset for a reading of the zone's clock.  A reading
  that the clock shows twice belongs to the first time when `late` is false and to the
  second when it is true; one that it skips is read with the offset before the change
  when `late` is false and with the one after it when it is true.

Both look for the last change that has started by some measure, and `lastChange` is
that search.
-/

namespace CronSchedule

/-- A change of offset. -/
structure Transition where
  /-- seconds since 1970, UTC -/
  since : Int
  /-- seconds east of UTC from then on -/
  offset : Int
deriving DecidableEq, Repr

/-- The rules of a zone. -/
structure ZoneRules where
  initial : Int
  transitions : List Transition
deriving DecidableEq, Repr

/-- The last change of the list that has started, with the offset in force before it. -/
def lastChange (started : Int → Transition → Bool) (before : Int) :
    List Transition → Option (Int × Transition)
  | [] => none
  | t :: ts =>
    match lastChange started t.offset ts with
    | some change => some change
    | none => if started before t then some (before, t) else none

@[simp] theorem lastChange_nil (started : Int → Transition → Bool) (before : Int) :
    lastChange started before [] = none := rfl

theorem lastChange_cons (started : Int → Transition → Bool) (before : Int) (t : Transition)
    (ts : List Transition) :
    lastChange started before (t :: ts) =
      (lastChange started t.offset ts).or
        (if started before t then some (before, t) else none) := by
  rw [lastChange]
  cases lastChange started t.offset ts <;> rfl

namespace ZoneRules

/-- The offset at an instant, and whether the reading repeats an earlier one. -/
def offsetAt (z : ZoneRules) (instant : Int) : Int × Bool :=
  match lastChange (fun _ t => t.since ≤ instant) z.initial z.transitions with
  | none => (z.initial, false)
  | some (before, t) => (t.offset, before - t.offset > instant - t.since)

/-- The offset for a wall-clock reading, in seconds as if the clock showed UTC. -/
def offsetOfWall (z : ZoneRules) (wall : Int) (late : Bool) : Int :=
  let started (before : Int) (t : Transition) : Bool :=
    t.since + (if late then min before t.offset else max before t.offset) ≤ wall
  match lastChange started z.initial z.transitions with
  | none => z.initial
  | some (_, t) => t.offset

end ZoneRules

end CronSchedule
