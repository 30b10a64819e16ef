import CronSchedule.Error

/-!
# Whether an expression is valid

* `Pattern.problems` — the messages about an expression, none when it compiles;
* `Pattern.isValid` — whether it compiles.

Both fail only on an expression with a numeral too long to be read, since about that
there is no message.
-/

namespace CronSchedule

/-- The messages about an expression. -/
def Pattern.problems (expression : String) : Except CompileError (List String) :=
  match Pattern.compile expression with
  | .ok _ => .ok []
  | .error e =>
    match e.report? with
    | some _ => .ok [e.message]
    | none => .error e

/-- Whether an expression compiles. -/
def Pattern.isValid (expression : String) : Except CompileError Bool :=
  match Pattern.compile expression with
  | .ok _ => .ok true
  | .error e => if e.report?.isSome then .ok false else .error e

end CronSchedule
