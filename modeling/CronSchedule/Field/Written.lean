import CronSchedule.Field.Problem
import CronSchedule.Text.Blank
import CronSchedule.Text.Upper

/-!
# Reading the text of a field

A field is written as `*` or `?`, which restricts nothing, or as a list of items
between commas.  An item is a span of values, `base` or `base/step` with the base `*`,
a value or a range `first-last`, or in the two day fields one of the forms with `L`.

* `Written` — a field as it is written, `Item` — one item;
* `Field.read` — the reader, with the readers of its parts before it.

Of two faults in one text the first that the reader meets is reported: items from left
to right, and in an item the step before its base.
-/

namespace CronSchedule

open Text

/-- One item of a list. -/
inductive Item where
  /-- the values `first`, `first + step`, and so on up to `last` -/
  | span (first last step : Int)
  /-- the last day of the month -/
  | lastDay
  /-- the last of the month's days that fall on the weekday -/
  | lastWeekday (weekday : Int)
deriving DecidableEq, Repr

/-- A field as it is written. -/
inductive Written where
  | unrestricted
  | list (items : List Item)
deriving DecidableEq, Repr

namespace Field

/-! ### Values, ranges and steps -/

/-- A value: a name of the domain or a number in it. -/
def readValue (d : Domain) (token : List Char) : Except FieldFault Int :=
  let value := upper (strip token)
  match d.named? value with
  | some n => .ok n
  | none =>
    if isAsciiNumeral value then
      match asciiNumeral? value with
      | none => .error .longNumeral
      | some n =>
        if d.contains n then .ok n else .error (.problem (.outOfRange n token))
    else .error (.problem (.value token))

/-- A range `first-last`. -/
def readRange (d : Domain) (text : List Char) : Except FieldFault (Int × Int) :=
  match pieces '-' text with
  | [left, right] => do
    let first ← readValue d left
    let last ← readValue d right
    if last < first then .error (.problem (.reversedRange text first last)) else .ok (first, last)
  | _ => .error (.problem (.range text))

/-- What the values of an item lie between: `*`, a range or a value. -/
def readBase (d : Domain) (base : List Char) : Except FieldFault (Int × Int) :=
  if base = ['*'] then .ok (d.low, d.high)
  else if '-' ∈ base then readRange d base
  else (readValue d base).map fun n => (n, n)

/-- The step behind the slash of `item`. -/
def readStep (text item : List Char) : Except FieldFault Int :=
  let (negative, digits) := match text with
    | '-' :: digits => (true, digits)
    | digits => (false, digits)
  if isAsciiNumeral digits then
    match asciiNumeral? digits with
    | none => .error .longNumeral
    | some n =>
      let step : Int := if negative then -n else n
      if step ≤ 0 then .error (.problem (.stepNotPositive step item)) else .ok step
  else .error (.problem (.step item))

/-- A span with or without a step. -/
def readSpan (d : Domain) (item : List Char) : Except FieldFault Item :=
  if '/' ∈ item then do
    let step ← readStep (after '/' item) item
    let (first, last) ← readBase d (before '/' item)
    .ok (.span first last step)
  else do
    let (first, last) ← readBase d item
    .ok (.span first last 1)

/-! ### The forms with `L` -/

/-- What stands beside the `L` at the end or else at the start of an upper-case item. -/
def besideLast (item : List Char) : Option (List Char) :=
  if item.getLast? = some 'L' then some item.dropLast
  else if item.head? = some 'L' then some item.tail
  else none

/-- Whether the text beside an `L` may be read as a value. -/
def isPlain (text : List Char) : Bool :=
  !text.isEmpty && text.all fun c => c != 'L' && c != '-' && c != '/' && c != '*'

/-- An item with an `L`: in the day of the month `L` alone, in the day of the week `L`
alone for Saturday, or `L` before or behind a weekday. -/
def readLast (f : Field) (item : List Char) : Except FieldFault Item :=
  let capitals := upper item
  if f = .dayOfMonth then
    if capitals = ['L'] then .ok .lastDay else .error (.problem (.lastForm item))
  else if capitals = ['L'] then .ok (.span lastDayOfWeek lastDayOfWeek 1)
  else
    match besideLast capitals with
    | none => .error (.problem (.lastForm item))
    | some weekday =>
      if isPlain weekday then
        (readValue f.domain weekday).map fun n => .lastWeekday (f.domain.normalize n)
      else .error (.problem (.lastForm item))

/-! ### Items and fields -/

/-- One item of the list `text`. -/
def readItem (f : Field) (text item : List Char) : Except FieldFault Item :=
  let item := strip item
  if item.isEmpty then .error (.problem (.emptyItem text))
  else if f.domain.hasLast && (upper item).contains 'L' then readLast f item
  else readSpan f.domain item

/-- The text of a field. -/
def read (f : Field) (text : List Char) : Except FieldFault Written :=
  let text := strip text
  if text = ['*'] ∨ text = ['?'] then .ok .unrestricted
  else if text.isEmpty then .error (.problem .emptyField)
  else ((pieces ',' text).mapM (readItem f text)).map .list

end Field

end CronSchedule
