import CronSchedule.Decimal.Shortest
import CronSchedule.Text.Quoted
import CronSchedule.Zone.DateTime

/-!
# Values that settings are given

Settings come from files and from the environment before their types are known: a
value is nothing, a truth value, a number, a text, bytes, a date, a list, a set or a map.

* `Value.written` — the written form of a value in messages, `Value.isWritable` — whether
  a value has one: an integer of too many digits has none;
* `Value.isTruthy` — whether a value counts as present;
* `Value.sameKey` — when two values are one key of a map: numbers and truth values are
  compared as numbers;
* `Value.isPositive?`, `Value.ceiling?` — the sign and the size of a number.
-/

namespace CronSchedule

open Decimal (Binary64 floatText)

/-- A value whose type is not known beforehand.  None holds itself. -/
inductive Value where
  | null
  | bool (b : Bool)
  | int (n : Int)
  | float (x : Binary64)
  | text (s : String)
  /-- a text in which half of a surrogate pair stands -/
  | ragged (s : List Text.Symbol)
  | bytes (octets : List UInt8)
  | date (d : Date)
  | moment (d : DateTime)
  /-- a pair, as it stands in a list of pairs -/
  | pair (first second : Value)
  | list (items : List Value)
  /-- a set, with its items in the order in which they are gone through -/
  | set (items : List Value)
  | map (entries : List (Value × Value))

namespace Value

/-- The value of symbols: a text, unless half of a surrogate pair stands among them. -/
def ofSymbols (s : List Text.Symbol) : Value :=
  match Text.characters? s with
  | some cs => text (String.ofList cs)
  | none => ragged s

@[simp] theorem ofSymbols_symbols (s : String) : ofSymbols (Text.symbols s) = text s := by
  have h : Text.characters? (Text.symbols s) = some s.toList :=
    Text.characters?_eq_some_iff.mpr rfl
  simp [ofSymbols, h]

/-- Whether a value is nothing. -/
def isNull : Value → Bool
  | null => true
  | _ => false

theorem isNull_iff {v : Value} : v.isNull = true ↔ v = null := by
  cases v <;> simp [isNull]

instance (v : Value) : Decidable (v = null) := decidable_of_iff _ isNull_iff

/-! ### Written form -/

/-- A name with what stands in parentheses behind it. -/
def writtenParts (name : String) (parts : List String) : String :=
  name ++ "(" ++ String.intercalate ", " parts ++ ")"

/-- The written form of an offset from UTC, as days and the seconds behind them. -/
def writtenOffset (offset : Int) : String :=
  if offset = 0 then "datetime.timezone.utc"
  else
    let days := if offset / 86400 = 0 then [] else [s!"days={offset / 86400}"]
    let seconds := if offset % 86400 = 0 then [] else [s!"seconds={offset % 86400}"]
    writtenParts "datetime.timezone" [writtenParts "datetime.timedelta" (days ++ seconds)]

/-- The written form of a date and time.  Seconds stand when they or microseconds are not
zero. -/
def writtenMoment (d : DateTime) : String :=
  let w := d.wall
  let seconds :=
    if w.microsecond ≠ 0 then [w.second, w.microsecond]
    else if w.second ≠ 0 then [w.second] else []
  let numbers := [w.date.year, w.date.month, w.date.day, w.hour, w.minute] ++ seconds
  let zone := (d.offset?.map fun offset => "tzinfo=" ++ writtenOffset offset).toList
  writtenParts "datetime.datetime" (numbers.map (fun n => s!"{n}") ++ zone)

mutual

/-- The written form of a value. -/
def written : Value → String
  | null => "None"
  | bool b => if b then "True" else "False"
  | int n => s!"{n}"
  | float x => floatText x
  | text s => Text.quoted s
  | ragged s => Text.quotedSymbols s
  | bytes octets => Text.quotedBytes octets
  | date d => writtenParts "datetime.date" [s!"{d.year}", s!"{d.month}", s!"{d.day}"]
  | moment d => writtenMoment d
  | pair v w => "(" ++ written v ++ ", " ++ written w ++ ")"
  | list items => "[" ++ String.intercalate ", " (writtenItems items) ++ "]"
  | set [] => "set()"
  | set items => "\x7b" ++ String.intercalate ", " (writtenItems items) ++ "\x7d"
  | map entries => "\x7b" ++ String.intercalate ", " (writtenEntries entries) ++ "\x7d"

/-- The written forms of the items of a list or a set. -/
def writtenItems : List Value → List String
  | [] => []
  | v :: vs => written v :: writtenItems vs

/-- The written forms of the entries of a map. -/
def writtenEntries : List (Value × Value) → List String
  | [] => []
  | (k, v) :: es => (written k ++ ": " ++ written v) :: writtenEntries es

end

mutual

/-- Whether a value can be written: every integer in it can. -/
def isWritable : Value → Bool
  | int n => Text.isWritable n
  | pair v w => isWritable v && isWritable w
  | list items => areWritable items
  | set items => areWritable items
  | map entries => areWritableEntries entries
  | _ => true

/-- Whether every value of a list can be written. -/
def areWritable : List Value → Bool
  | [] => true
  | v :: vs => isWritable v && areWritable vs

/-- Whether every key and every value of a map can be written. -/
def areWritableEntries : List (Value × Value) → Bool
  | [] => true
  | (k, v) :: es => isWritable k && isWritable v && areWritableEntries es

end

/-- A value as the whole of a message: a text stands there as it is. -/
def shown : Value → List Text.Symbol
  | text s => Text.symbols s
  | ragged s => s
  | v => Text.symbols v.written

/-! ### Presence and keys -/

/-- Whether a value counts as present: nothing, zero and whatever is empty do not. -/
def isTruthy : Value → Bool
  | null => false
  | bool b => b
  | int n => n != 0
  | float x => !x.isZero
  | text s => s != ""
  | ragged s => !s.isEmpty
  | bytes octets => !octets.isEmpty
  | date _ => true
  | moment _ => true
  | pair _ _ => true
  | list items => !items.isEmpty
  | set items => !items.isEmpty
  | map entries => !entries.isEmpty

/-- The whole number that a truth value or a number without a fraction equals. -/
def whole? : Value → Option Int
  | bool b => some (if b then 1 else 0)
  | int n => some n
  | float x =>
    if x.isNaN || x.isInfinite || x.numerator % x.denominator != 0 then none
    else
      let n : Int := x.numerator / x.denominator
      some (if x.isNegative then -n else n)
  | _ => none

/-- Whether two dates and times are one key: naive ones by their readings, aware ones by
their instants. -/
def sameMoment (a b : DateTime) : Bool :=
  a.isNaive == b.isNaive &&
    a.utcMicros?.getD a.wall.micros == b.utcMicros?.getD b.wall.micros

/-- Whether two values are one key of a map.  Lists, sets and maps are never keys, and pairs stand
in lists only. -/
def sameKey (a b : Value) : Bool :=
  match a.whole?, b.whole? with
  | some m, some n => m == n
  | some _, none => false
  | none, some _ => false
  | none, none =>
    match a, b with
    | null, null => true
    | text s, text t => s == t
    | ragged s, ragged t => s == t
    | bytes s, bytes t => s == t
    | float x, float y => x == y
    | date d, date e => d == e
    | moment d, moment e => sameMoment d e
    | _, _ => false

/-! ### Numbers -/

/-- Whether a number is positive, a truth value being one or zero; other values have no
sign.  What is no number is not below zero either and passes. -/
def isPositive? : Value → Option Bool
  | bool b => some b
  | int n => some (decide (0 < n))
  | float x => some (x.isNaN || !(x.isNegative || x.isZero))
  | _ => none

/-- The least natural number that is not below a number; none when no number is, and for
values that are no numbers. -/
def ceiling? : Value → Option Nat
  | bool b => some (if b then 1 else 0)
  | int n => some n.toNat
  | float x => if x.isNaN || x.isInfinite then none else some x.ceiling
  | _ => none

theorem ceiling?_pos {v : Value} (h : v.isPositive? = some true) {n : Nat}
    (hn : v.ceiling? = some n) : 0 < n := by
  cases v with
  | bool b =>
    simp only [isPositive?, Option.some.injEq] at h
    simp only [ceiling?, h, if_true, Option.some.injEq] at hn
    omega
  | int m =>
    simp only [isPositive?, Option.some.injEq, decide_eq_true_eq] at h
    simp only [ceiling?, Option.some.injEq] at hn
    omega
  | float x =>
    simp only [ceiling?, Option.ite_none_left_eq_some, Option.some.injEq, Bool.not_eq_true,
      Bool.or_eq_false_iff] at hn
    obtain ⟨⟨hnan, _⟩, rfl⟩ := hn
    simp only [isPositive?, hnan, Bool.false_or, Option.some.injEq, Bool.not_eq_true',
      Bool.or_eq_false_iff] at h
    exact Binary64.ceiling_pos h.2
  | _ => simp [ceiling?] at hn

end Value

end CronSchedule
