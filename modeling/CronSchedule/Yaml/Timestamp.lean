import CronSchedule.Settings.Value
import CronSchedule.Yaml.Refusal

/-!
# Dates and times in plain scalars

A plain scalar that is spelt as a date, or as a date and a time, is one.  A date alone
has two digits for month and day; before a time one digit is enough.  Behind the time a
fraction of the second may stand, of which six digits count, and behind that a `Z` or an
offset from UTC.

* `timestamp?` — the value of such a scalar, or the refusal when the clock shows no such
  reading.
-/

namespace CronSchedule.Yaml

open Text

/-- The number in front, of as many digits as stand there up to `most`, at least `least`,
and the rest behind it. -/
def number? (least most : Nat) (s : List Char) : Option (Nat × List Char) :=
  let digits := (s.takeWhile Char.isDigit).take most
  if digits.length < least then none else some (asciiValue digits, s.drop digits.length)

/-- The rest behind a mark. -/
def behind? (mark : Char) : List Char → Option (List Char)
  | c :: rest => if c = mark then some rest else none
  | [] => none

/-- A date in front, and the rest behind it. -/
def date? (s : List Char) : Option (Date × List Char) := do
  let (year, s) ← number? 4 4 s
  let (month, s) ← number? 1 2 (← behind? '-' s)
  let (day, s) ← number? 1 2 (← behind? '-' s)
  return (⟨year, month, day⟩, s)

/-- What separates a time from the date before it. -/
def behindSeparator? : List Char → Option (List Char)
  | 'T' :: rest => some rest
  | 't' :: rest => some rest
  | ' ' :: rest => some (rest.dropWhile (· == ' '))
  | _ => none

/-- The microseconds of a fraction of a second. -/
def fractionMicros (digits : List Char) : Nat :=
  let six := digits.take 6
  asciiValue (six ++ List.replicate (6 - six.length) '0')

/-- An offset in seconds east of UTC, which the whole text is. -/
def offset? (s : List Char) : Option Int :=
  match s with
  | ['Z'] => some 0
  | sign :: rest => do
    let (hours, rest) ← number? 1 2 rest
    let minutes ← match rest with
      | [] => pure 0
      | _ => do
        let (minutes, rest) ← number? 2 2 (← behind? ':' rest)
        if rest.isEmpty then pure minutes else none
    let seconds : Int := hours * 3600 + minutes * 60
    if sign = '+' then some seconds else if sign = '-' then some (-seconds) else none
  | [] => none

/-- The parts of a time of day and the offset behind it, if there is one. -/
structure ClockTime where
  hour : Nat
  minute : Nat
  second : Nat
  micros : Nat
  offset : Option Int

/-- The time that the whole text is. -/
def clockTime? (s : List Char) : Option ClockTime := do
  let (hour, s) ← number? 1 2 s
  let (minute, s) ← number? 2 2 (← behind? ':' s)
  let (second, s) ← number? 2 2 (← behind? ':' s)
  let (fraction, s) := match s with
    | '.' :: s => s.span Char.isDigit
    | s => ([], s)
  let time (offset : Option Int) : ClockTime :=
    ⟨hour, minute, second, fractionMicros fraction, offset⟩
  if s.isEmpty then return time none
  else return time (some (← offset? (s.dropWhile (· == ' '))))

/-- The reading of a date and a time, on the clock of its offset. -/
def ClockTime.on (t : ClockTime) (d : Date) : Except Refusal Value :=
  match WallTime.ofParts? d t.hour t.minute t.second t.micros with
  | none => .error .noSuchReading
  | some wall =>
    if t.offset.any fun offset => 86400 ≤ offset.natAbs then .error .noSuchReading
    else .ok (.moment ⟨wall, t.offset.map .fixed, false⟩)

/-- The value of a scalar that is spelt as a date or as a date and a time. -/
def timestamp? (s : List Char) : Option (Except Refusal Value) := do
  let (date, rest) ← date? s
  if rest.isEmpty then
    if s.length ≠ 10 then none
    else return if date.isValid then .ok (.date date) else .error .noSuchReading
  else
    let time ← clockTime? (← behindSeparator? rest)
    return time.on date

end CronSchedule.Yaml
