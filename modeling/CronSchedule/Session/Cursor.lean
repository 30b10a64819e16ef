import CronSchedule.Session.Matching

/-!
# Cursors in a session

* `Call.step` — one step of a cursor: the next match and the cursor behind it, or
  nothing and the cursor that is done.  A step that fails leaves no other cursor;
* `Call.openCursor`, `Call.advance`, `Call.drain`, `Call.remaining` — the calls on the
  cursors that a session keeps under names.
-/

namespace CronSchedule

namespace Call

/-- One step of a cursor. -/
def step (c : Cursor) : Call (Option DateTime × Cursor) :=
  if c.isDone then return (none, c)
  else do
    let date ← next c.pattern c.position c.matchSeconds
    return (date, c.advance date)

/-- A cursor that is done stays as it is, whatever the settings. -/
theorem outcome_step_of_isDone {c : Cursor} (h : c.isDone = true) (host : Host) (s : Session) :
    outcome (step c) host s = (.ok (none, c), s) := by
  simp [step, h]

theorem outcome_step {c : Cursor} (h : c.isDone = false) (host : Host) (s : Session) :
    outcome (step c) host s =
      match outcome (next c.pattern c.position c.matchSeconds) host s with
      | (.ok date, behind) => (.ok (date, c.advance date), behind)
      | (.error e, behind) => (.error e, behind) := by
  simp only [step, h, Bool.false_eq_true, if_false, outcome_bind]
  cases outcome (next c.pattern c.position c.matchSeconds) host s with
  | mk r behind => cases r <;> rfl

/-- The cursor kept under a name. -/
def cursor (name : String) : Call Cursor := do
  match Entries.get? (← get).cursors name with
  | some c => return c
  | none => throw (.fault .noSuchCursor)

/-- Looking a cursor up changes nothing. -/
theorem outcome_cursor (name : String) (host : Host) (s : Session) :
    outcome (cursor name) host s =
      ((Entries.get? s.cursors name).elim (.error (.fault .noSuchCursor)) .ok, s) := by
  cases h : Entries.get? s.cursors name <;> simp [cursor, outcome_bind, h]

/-- Keeps a cursor under a name. -/
def keepCursor (name : String) (c : Cursor) : Call Unit :=
  modify fun s => { s with cursors := Entries.put s.cursors name c }

/-- Keeps a new cursor under a name. -/
def openCursor (name : String) (p : Pattern) (after : DateTime) (limit : Option Int)
    (matchSeconds : Option Bool) : Call (Option Nat) := do
  let c ← ofResult (Cursor.start p after limit matchSeconds)
  keepCursor name c
  return c.remaining

/-- How many matches may still be taken from a cursor. -/
def remaining (name : String) : Call (Option Nat) := return (← cursor name).remaining

/-- The next match of a cursor. -/
def advance (name : String) : Call DateTime := do
  let (date, c) ← step (← cursor name)
  keepCursor name c
  match date with
  | some d => return d
  | none => throw (.fault .exhausted)

/-- The matches left to a cursor, by at most so many steps. -/
def drainFor (name : String) : Nat → List DateTime → Call (List DateTime)
  | 0, found => return found.reverse
  | steps + 1, found => do
    let (date, c) ← step (← cursor name)
    keepCursor name c
    match date with
    | some d => drainFor name steps (d :: found)
    | none => return found.reverse

/-- Seconds in the calendar, more than any cursor has matches on a clock that shows no
reading twice. -/
def calendarSeconds : Nat := (calendarEnd / microsPerSecond).toNat

/-- All matches left to a cursor. -/
def drain (name : String) : Call (List DateTime) := do
  let c ← cursor name
  drainFor name (c.remaining.getD calendarSeconds + 1) []

end Call

end CronSchedule
