import CronSchedule.Text.Digit
import CronSchedule.Text.Pieces

/-!
# Reading and writing integers

Two readers, for two notations:

* `asciiNumeral?` reads the numerals of an expression, runs of ASCII digits;
* `integer?` reads the integers of a setting: a sign if there is one, then decimal
  digits of any script, single underscores between them allowed.

Both refuse a numeral of more than `numeralLimit` digits, leading zeros counted, and
`isWritable` says which integers can be written under the same limit.
-/

namespace CronSchedule.Text

/-- The most digits a numeral may have. -/
def numeralLimit : Nat := 4300

/-- The number written by digits of place value, most significant first. -/
def ofDigits (digits : List Nat) : Nat := digits.foldl (fun n d => 10 * n + d) 0

@[simp] theorem ofDigits_nil : ofDigits [] = 0 := rfl

theorem ofDigits_concat (ds : List Nat) (d : Nat) :
    ofDigits (ds ++ [d]) = 10 * ofDigits ds + d := by
  simp [ofDigits, List.foldl_append]

/-! ### Runs of ASCII digits -/

/-- Whether the text is a non-empty run of ASCII digits. -/
def isAsciiNumeral (s : List Char) : Bool := !s.isEmpty && s.all Char.isDigit

/-- The number a run of ASCII digits denotes, whatever its length. -/
def asciiValue (s : List Char) : Nat := ofDigits (s.map fun c => c.toNat - '0'.toNat)

/-- The number a run of ASCII digits denotes, none when the run is too long. -/
def asciiNumeral? (s : List Char) : Option Nat :=
  if s.length ≤ numeralLimit then some (asciiValue s) else none

theorem asciiNumeral?_eq_none_iff {s : List Char} :
    asciiNumeral? s = none ↔ numeralLimit < s.length := by
  simp [asciiNumeral?]

/-! ### Signed integers of any script -/

/-- The digits of a text of decimal digits with single underscores between them. -/
def digitRun? (s : List Char) : Option (List Nat) :=
  if (pieces '_' s).any List.isEmpty then none
  else (s.filter (· != '_')).mapM decimalValue?

/-- The sign of a numeral, and what follows it. -/
def splitSign : List Char → Bool × List Char
  | '-' :: s => (true, s)
  | '+' :: s => (false, s)
  | s => (false, s)

/-- An integer in the notation of settings. -/
def integer? (s : List Char) : Option Int :=
  let (negative, digits) := splitSign s
  match digitRun? digits with
  | none => none
  | some ds =>
    if ds.length ≤ numeralLimit then
      some (if negative then -(ofDigits ds : Int) else ofDigits ds)
    else none

/-! ### Writing -/

/-- The least number whose numeral has more digits than numerals may have. -/
def numeralEnd : Nat := Nat.pow 10 numeralLimit

/-- Whether an integer can be written: its digits are no more than a numeral may have. -/
def isWritable (n : Int) : Bool := decide (n.natAbs < numeralEnd)

/-- The digits of a number in a base up to sixteen, at least `width` of them. -/
def padded (base width n : Nat) : List Char :=
  let digits := Nat.toDigits base n
  List.replicate (width - digits.length) '0' ++ digits

end CronSchedule.Text
