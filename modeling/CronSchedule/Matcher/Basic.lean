import CronSchedule.Calendar.Reading
import CronSchedule.Matcher.ValueSet
import CronSchedule.Verdict

/-!
# Matchers

A matcher is what a written field is compiled to: a test of one value of a calendar
reading.  Most look at the value alone; the two that speak of the end of a month also
look at the length of the reading's month.

* `Matcher.accepts` — the test;
* `Matcher.isAny` — whether the matcher is the one that restricts nothing;
* `Matcher.text` — the written form used to show a matcher.
-/

namespace CronSchedule

/-- A test of one field value. -/
inductive Matcher where
  /-- every value -/
  | any
  /-- the members of a set -/
  | values (set : ValueSet)
  /-- the last day of the month -/
  | lastDay
  /-- the last of the month's days that fall on a weekday -/
  | lastWeekday (weekday : Int)
  /-- what some member accepts -/
  | anyOf (members : List Matcher)

namespace Matcher

def isAny : Matcher → Bool
  | any => true
  | _ => false

mutual

/-- Whether the matcher accepts the value in the reading.  A day is the last of its
weekday when the day a week later falls into the next month. -/
def accepts (r : Reading) (v : Int) : Matcher → Verdict
  | any => some true
  | values set => some (set.contains v)
  | lastDay => r.daysInMonth?.map fun length => v == length
  | lastWeekday weekday =>
    if v = weekday then r.daysInMonth?.map fun length => decide (length < r.day + 7)
    else some false
  | anyOf members => acceptsSome r v members

/-- Whether some matcher of the list accepts the value, asked from the left. -/
def acceptsSome (r : Reading) (v : Int) : List Matcher → Verdict
  | [] => some false
  | m :: ms => Verdict.or (accepts r v m) fun _ => acceptsSome r v ms

end

@[simp] theorem accepts_any (r : Reading) (v : Int) : accepts r v any = some true := by
  rw [accepts]

theorem accepts_values (r : Reading) (v : Int) (set : ValueSet) :
    accepts r v (values set) = some (set.contains v) := by rw [accepts]

theorem accepts_lastDay (r : Reading) (v : Int) :
    accepts r v lastDay = r.daysInMonth?.map fun length => v == length := by rw [accepts]

theorem accepts_lastWeekday (r : Reading) (v weekday : Int) :
    accepts r v (lastWeekday weekday) =
      if v = weekday then r.daysInMonth?.map fun length => decide (length < r.day + 7)
      else some false := by rw [accepts]

theorem accepts_anyOf (r : Reading) (v : Int) (members : List Matcher) :
    accepts r v (anyOf members) = Verdict.any (accepts r v) members := by
  rw [accepts]
  induction members with
  | nil => rw [acceptsSome]; rfl
  | cons m ms ih => rw [acceptsSome, Verdict.any_cons, ih]

/-! ### Written form -/

/-- The members of a list between brackets. -/
def bracketed (items : List String) : String :=
  "[" ++ String.intercalate ", " items ++ "]"

mutual

/-- The written form of a matcher. -/
def text : Matcher → String
  | any => "AlwaysMatcher()"
  | values set => "ValueSetMatcher(" ++ bracketed (set.values.map fun n => s!"{n}") ++ ")"
  | lastDay => "LastDayOfMonthMatcher()"
  | lastWeekday weekday => s!"LastWeekdayOfMonthMatcher({weekday})"
  | anyOf members => "AnyOfMatcher(" ++ bracketed (texts members) ++ ")"

/-- The written forms of several matchers. -/
def texts : List Matcher → List String
  | [] => []
  | m :: ms => text m :: texts ms

end

end Matcher

end CronSchedule
