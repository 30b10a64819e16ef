/-!
# Tests that may have no answer

A field test answers yes or no, except that the length of a month has to exist before
a day can be compared with it.  `Verdict` adds the missing answer; its connectives ask
their second operand only when the first leaves the question open, so an operand that
is not asked cannot spoil the answer.

* `Verdict.and`, `Verdict.or` — the connectives;
* `Verdict.any` — whether some member of a list passes, asked from the left.
-/

namespace CronSchedule

/-- The answer of a test, none when it cannot be given. -/
abbrev Verdict := Option Bool

namespace Verdict

/-- Both tests pass. -/
@[inline] def and (a : Verdict) (b : Unit → Verdict) : Verdict :=
  match a with
  | some true => b ()
  | other => other

/-- One of the tests passes. -/
@[inline] def or (a : Verdict) (b : Unit → Verdict) : Verdict :=
  match a with
  | some false => b ()
  | other => other

@[simp] theorem and_some (a : Bool) (b : Unit → Verdict) :
    and (some a) b = if a then b () else some false := by cases a <;> rfl

@[simp] theorem or_some (a : Bool) (b : Unit → Verdict) :
    or (some a) b = if a then some true else b () := by cases a <;> rfl

@[simp] theorem and_none (b : Unit → Verdict) : and none b = none := rfl

@[simp] theorem or_none (b : Unit → Verdict) : or none b = none := rfl

/-- Some member passes the test. -/
def any {α : Type} (f : α → Verdict) : List α → Verdict
  | [] => some false
  | x :: xs => or (f x) fun _ => any f xs

@[simp] theorem any_nil {α : Type} (f : α → Verdict) : any f [] = some false := rfl

theorem any_cons {α : Type} (f : α → Verdict) (x : α) (xs : List α) :
    any f (x :: xs) = or (f x) fun _ => any f xs := rfl

/-- Where every member has an answer, `any` is the disjunction. -/
theorem any_eq_some {α : Type} {f : α → Verdict} {g : α → Bool} {xs : List α}
    (h : ∀ x ∈ xs, f x = some (g x)) : any f xs = some (xs.any g) := by
  induction xs with
  | nil => rfl
  | cons x xs ih =>
    rw [any_cons, h x (List.mem_cons_self ..), ih fun y hy => h y (List.mem_cons_of_mem _ hy)]
    cases hg : g x <;> simp [hg]

end Verdict

end CronSchedule
