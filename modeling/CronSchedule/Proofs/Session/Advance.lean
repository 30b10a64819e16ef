import CronSchedule.Proofs.Session.Ending
import CronSchedule.Proofs.Session.Lookup
import CronSchedule.Session.Cursor

/-!
# Advancing a cursor

One call to advance a cursor ends in one of four ways.  Only a cursor that is not done searches,
and only a search that returns moves it; so the call that fails leaves the cursor where it was,
and what it leaves behind otherwise are settings it may have loaded.

* `Cursor.Advanced` — the four ways, with the cursor behind each;
* `Cursor.needsSettings` — whether the search looks settings up;
* `Call.advance_behind` — a call to advance ends in one of the four ways, and changes nothing
  else but settings that are loaded;
* `Call.outcome_drainFor_succ` — taking all matches is advancing again and again.
-/

namespace CronSchedule

/-- Writing back what is under a key changes nothing. -/
theorem Entries.put_of_get? {κ ν : Type} [BEq κ] {es : Entries κ ν} {k : κ} {v : ν}
    (h : get? es k = some v) : put es k v = es := by
  induction es with
  | nil => cases h
  | cons e es ih =>
    rw [get?_cons] at h
    unfold put
    split at h
    · next he =>
      cases h
      rw [if_pos he]
    · next he => rw [if_neg he, ih h]

/-! ### Four ways to end -/

/-- What advancing a cursor results in, with the cursor behind it. -/
inductive Cursor.Advanced (c : Cursor) : Except Error DateTime → Cursor → Prop
  /-- no search is made -/
  | done (hdone : c.isDone = true) : Advanced c (.error (.fault .exhausted)) c
  | found (hdone : c.isDone = false) (d : DateTime) : Advanced c (.ok d) (c.advance (some d))
  /-- the search has found nothing -/
  | nothing (hdone : c.isDone = false) : Advanced c (.error (.fault .exhausted)) (c.advance none)
  | failed (hdone : c.isDone = false) {e : Error} (he : e ≠ .fault .exhausted) :
    Advanced c (.error e) c

/-- Whether a search is made that gets as far as to need settings. -/
def Cursor.needsSettings (c : Cursor) : Bool :=
  !c.isDone && (c.position.firstTickAfter? (c.pattern.searchesSeconds c.matchSeconds)).isSome

namespace Call

variable {host : Host} {s : Session} {name : String} {c : Cursor}

/-- A call to advance ends in one of the four ways, and changes nothing else but settings that
are loaded. -/
theorem advance_behind (host : Host) (h : Entries.get? s.cursors name = some c) :
    ∃ c' warnings, c.Advanced (outcome (advance name) host s).1 c' ∧
      (outcome (advance name) host s).2 =
        { s with
          settings := s.settings.or (if c.needsSettings then s.loaded? host else none)
          cursors := Entries.put s.cursors name c'
          warnings } := by
  have hcursor : outcome (cursor name) host s = (.ok c, s) := by
    rw [outcome_cursor, h, Option.elim_some]
  cases hdone : c.isDone with
  | true =>
    refine ⟨c, s.warnings, ?_⟩
    simp only [advance, outcome_bind, hcursor, outcome_step_of_isDone hdone, keepCursor,
      outcome_modify, Cursor.needsSettings, hdone]
    exact ⟨.done hdone, by simp⟩
  | false =>
    obtain ⟨warnings, hbehind⟩ := looksUp_next host c.pattern c.position c.matchSeconds s
    have hend := noEnd_next host s c.pattern c.position c.matchSeconds
    simp only [advance, outcome_bind, hcursor, outcome_step hdone, Cursor.needsSettings, hdone,
      Bool.not_false, Bool.true_and]
    cases hnext : outcome (next c.pattern c.position c.matchSeconds) host s with
    | mk result behind =>
      rw [hnext] at hbehind hend
      obtain rfl : behind = _ := hbehind
      cases result with
      | error e =>
        refine ⟨c, warnings, .failed hdone (NoEnd.error_iff.mp hend), ?_⟩
        rw [Entries.put_of_get? h]
      | ok date =>
        cases date with
        | none => exact ⟨c.advance none, warnings, .nothing hdone, rfl⟩
        | some d => exact ⟨c.advance (some d), warnings, .found hdone d, rfl⟩

theorem noEnd_cursor (name : String) : NoEnd (outcome (cursor name) host s).1 := by
  rw [outcome_cursor]
  cases Entries.get? s.cursors name with
  | none => exact NoEnd.error_iff.mpr (by simp)
  | some c => exact NoEnd.ok c

/-- The failure of a step is not the end of a cursor. -/
theorem noEnd_step (c : Cursor) : NoEnd (outcome (step c) host s).1 := by
  unfold step
  split
  · exact NoEnd.ok _
  · exact noEnd_bind (noEnd_next host s _ _ _) fun date s => NoEnd.ok _

/-- Taking all matches is advancing again and again. -/
theorem outcome_drainFor_succ (steps : Nat) (taken : List DateTime) :
    outcome (drainFor name (steps + 1) taken) host s =
      match outcome (advance name) host s with
      | (.ok d, behind) => outcome (drainFor name steps (d :: taken)) host behind
      | (.error (.fault .exhausted), behind) => (.ok taken.reverse, behind)
      | (.error e, behind) => (.error e, behind) := by
  have hend : NoEnd (outcome (cursor name >>= step) host s).1 :=
    noEnd_bind (noEnd_cursor name) fun c s => noEnd_step c
  -- both take a step of the cursor, and part behind it
  rw [drainFor, advance, ← bind_assoc, ← bind_assoc, outcome_bind (cursor name >>= step),
    outcome_bind (cursor name >>= step)]
  cases hstep : outcome (cursor name >>= step) host s with
  | mk result behind =>
    rw [hstep] at hend
    cases result with
    | ok x =>
      obtain ⟨date, c⟩ := x
      cases date <;> rfl
    | error e =>
      have he : e ≠ .fault .exhausted := NoEnd.error_iff.mp hend
      simp only

end Call

end CronSchedule
