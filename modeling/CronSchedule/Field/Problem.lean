import CronSchedule.Field.Basic
import CronSchedule.Text.Quoted

/-!
# What can be wrong with the text of a field

* `FieldProblem` — the rules a field's text can break, each with what it takes to
  describe the breach;
* `FieldProblem.token` — the part of the text that is at fault;
* `FieldProblem.message` — the description, with the token and the domain behind it;
* `FieldFault` — a problem, or a numeral that is too long to be read at all.
-/

namespace CronSchedule

open Text

/-- A rule that the text of a field breaks. -/
inductive FieldProblem where
  /-- nothing is written -/
  | emptyField
  /-- the list `text` has an item with nothing written -/
  | emptyItem (text : List Char)
  /-- the item holds an `L` and is none of the forms with `L` -/
  | lastForm (item : List Char)
  /-- what follows the slash is no run of digits -/
  | step (item : List Char)
  /-- what follows the slash is zero or negative -/
  | stepNotPositive (step : Int) (item : List Char)
  /-- a range with more or fewer than two ends -/
  | range (text : List Char)
  /-- a range whose first value is the greater -/
  | reversedRange (text : List Char) (first last : Int)
  /-- neither a name nor a run of digits -/
  | value (token : List Char)
  /-- a number outside the domain -/
  | outOfRange (number : Nat) (token : List Char)
deriving DecidableEq, Repr

namespace FieldProblem

/-- The part of the text at fault. -/
def token : FieldProblem → List Char
  | emptyField => []
  | emptyItem text => text
  | lastForm item => item
  | step item => item
  | stepNotPositive _ item => item
  | range text => text
  | reversedRange text _ _ => text
  | value token => token
  | outOfRange _ token => token

/-- The problem in words. -/
def detail (d : Domain) : FieldProblem → String
  | emptyField => "Empty field"
  | emptyItem text => "Empty list item in " ++ String.ofList (quotedChars text)
  | lastForm item => "Invalid L expression: " ++ String.ofList item
  | step item => "Invalid step: " ++ String.ofList item
  | stepNotPositive n _ => s!"Step must be positive: {n}"
  | range text => "Invalid range: " ++ String.ofList text
  | reversedRange text first last =>
    "Invalid range " ++ String.ofList text ++ s!": start {first} is greater than end {last}"
  | value token => "Invalid value: " ++ String.ofList (quotedChars token)
  | outOfRange number _ => s!"Value {number} out of range {d.rangeText}"

/-- The message for a problem of a field. -/
def message (field : Field) (problem : FieldProblem) : String :=
  "Invalid " ++ field.label ++ " field: " ++ problem.detail field.domain ++ " (token " ++
    String.ofList (quotedChars problem.token) ++ ", valid range " ++ field.domain.rangeText ++ ")"

end FieldProblem

/-- Why the text of a field is not read. -/
inductive FieldFault where
  | problem (problem : FieldProblem)
  | longNumeral
deriving DecidableEq, Repr

end CronSchedule
