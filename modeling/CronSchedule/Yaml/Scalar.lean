import CronSchedule.Decimal.Nearest
import CronSchedule.Yaml.Timestamp

/-!
# The type of a plain scalar

A scalar without quotes is read by its spelling: nothing, a truth value, an integer, a
floating-point number, a date, or else a text.  Integers are decimal, octal behind a leading
zero, binary behind `0b`, hexadecimal behind `0x`, or to base 60 between colons, and
underscores between their digits do not count.  A floating-point number has a point;
its exponent, if there is one, has a sign.

* `isInteger`, `isDecimal`, `isSexagesimal` — the spellings;
* `resolve` — the value of a plain scalar.  Some spellings have a type and no value:
  such a scalar is refused.
-/

namespace CronSchedule.Yaml

open Text Decimal

/-! ### Spellings -/

/-- The spellings of the truth values. -/
def truthWords : List (String × Bool) :=
  [("yes", true), ("Yes", true), ("YES", true), ("no", false), ("No", false), ("NO", false),
   ("true", true), ("True", true), ("TRUE", true), ("false", false), ("False", false),
   ("FALSE", false), ("on", true), ("On", true), ("ON", true), ("off", false), ("Off", false),
   ("OFF", false)]

/-- The spellings of nothing. -/
def nullWords : List String := ["", "~", "null", "Null", "NULL"]

/-- What follows the sign, if there is one. -/
def unsigned : List Char → List Char
  | '+' :: s => s
  | '-' :: s => s
  | s => s

def isSexagesimalPart (s : List Char) : Bool :=
  match s with
  | [c] => c.isDigit
  | [c, d] => '0' ≤ c && c ≤ '5' && d.isDigit
  | _ => false

/-- Digits and underscores. -/
def isRun (digit : Char → Bool) (s : List Char) : Bool := s.all fun c => c == '_' || digit c

def isOctalDigit (c : Char) : Bool := '0' ≤ c && c ≤ '7'

def isHexDigit (c : Char) : Bool :=
  c.isDigit || ('a' ≤ c && c ≤ 'f') || ('A' ≤ c && c ≤ 'F')

/-- A decimal numeral that does not start with zero. -/
def isCounting (s : List Char) : Bool :=
  match s with
  | c :: rest => '1' ≤ c && c ≤ '9' && isRun Char.isDigit rest
  | [] => false

/-- Whether the text is spelt as an integer. -/
def isInteger (s : List Char) : Bool :=
  match unsigned s with
  | ['0'] => true
  | '0' :: 'b' :: rest => !rest.isEmpty && isRun (fun c => c == '0' || c == '1') rest
  | '0' :: 'x' :: rest => !rest.isEmpty && isRun isHexDigit rest
  | '0' :: rest => isRun isOctalDigit rest
  | rest =>
    match pieces ':' rest with
    | head :: parts => isCounting head && parts.all isSexagesimalPart
    | [] => false

/-- A sign and digits behind an `e`, or nothing. -/
def isExponent (s : List Char) : Bool :=
  match s with
  | [] => true
  | e :: sign :: digits =>
    (e == 'e' || e == 'E') && (sign == '+' || sign == '-') && !digits.isEmpty &&
      digits.all Char.isDigit
  | _ => false

/-- Digits in which the first is no underscore. -/
def isDigits (s : List Char) : Bool :=
  match s with
  | c :: rest => c.isDigit && isRun Char.isDigit rest
  | [] => false

/-- Whether the text is spelt as a floating-point number with digits. -/
def isDecimal (s : List Char) : Bool :=
  let (mantissa, exponent) := splitExponent s
  isExponent exponent && mantissa.contains '.' &&
    (isDigits (before '.' (unsigned mantissa)) && isRun Char.isDigit (after '.' mantissa)
      || (mantissa.head? == some '.' && isDigits (after '.' mantissa)))

/-- Whether the text is spelt as a floating-point number to base 60. -/
def isSexagesimal (s : List Char) : Bool :=
  s.contains '.' && isRun Char.isDigit (after '.' s) &&
    match pieces ':' (before '.' (unsigned s)) with
    | head :: part :: parts => isDigits head && (part :: parts).all isSexagesimalPart
    | _ => false

/-! ### Values -/

/-- The value of a digit of a base up to sixteen. -/
def digitValue (c : Char) : Nat :=
  if c.isDigit then c.toNat - 48 else if 'a' ≤ c then c.toNat - 87 else c.toNat - 55

/-- The number written in a base, refused when nothing is written. -/
def inBase (base : Nat) (s : List Char) : Except Refusal Nat :=
  if s.isEmpty then .error .unreadableNumeral
  else .ok (s.foldl (fun n c => base * n + digitValue c) 0)

/-- The number written in decimal digits. -/
def inTen (s : List Char) : Except Refusal Nat :=
  if isAsciiNumeral s then
    match asciiNumeral? s with
    | some n => .ok n
    | none => .error .unreadableNumeral
  else .error .unreadableNumeral

/-- The magnitude of an integer without underscores. -/
def magnitude (s : List Char) : Except Refusal Nat :=
  match s with
  | ['0'] => .ok 0
  | '0' :: 'b' :: rest => inBase 2 rest
  | '0' :: 'x' :: rest => inBase 16 rest
  | '0' :: rest => inBase 8 ('0' :: rest)
  | rest =>
    match pieces ':' rest with
    | [digits] => inTen digits
    | parts => parts.foldlM (fun n part => (inTen part).map (60 * n + ·)) 0

/-- A text with its sign applied. -/
def signed (s : List Char) (n : Nat) : Int := if s.head? = some '-' then -(n : Int) else n

/-- The sum of the parts of a number to base 60, from the last to the first, `unit` being
the place value of the first of `parts`.  Every product and sum is rounded. -/
def sexagesimalSum (total : Float) (unit : Nat) : List (List Char) → Except Refusal Float
  | [] => .ok total
  | part :: parts =>
    let place := nearest unit 0
    if place.isInf then .error .tooLarge
    else sexagesimalSum (total + ofNumeral part * place) (60 * unit) parts

/-- The magnitude of a floating-point number without sign and underscores. -/
def floatMagnitude (s : List Char) : Except Refusal Float :=
  match pieces ':' s with
  | [numeral] => .ok (ofNumeral numeral)
  | parts => sexagesimalSum 0.0 1 parts.reverse

/-- The spellings of infinity, behind a sign. -/
def infinityWords : List String := [".inf", ".Inf", ".INF"]

def nanWords : List String := [".nan", ".NaN", ".NAN"]

/-- The scalar that merges the entries of other maps into a map. -/
def mergeWord : String := "<<"

/-- The scalar that stands for itself as a key, and for nothing elsewhere. -/
def valueWord : String := "="

/-- A floating-point number as a value. -/
def ofFloat (x : Float) : Value := .float ⟨x.toBits⟩

/-- The value of a plain scalar. -/
def resolve (s : List Char) : Except Refusal Value :=
  let word := String.ofList s
  let digits := (unsigned s).filter (· != '_')
  let negative := s.head? = some '-'
  if nullWords.contains word then .ok .null
  else if let some b := truthWords.lookup word then .ok (.bool b)
  else if isInteger s then (magnitude digits).map fun n => .int (signed s n)
  else if isDecimal s || isSexagesimal s then
    (floatMagnitude digits).map fun x => ofFloat (if negative then -x else x)
  else if infinityWords.contains (String.ofList (unsigned s)) then
    .ok (ofFloat (if negative then -1.0 / 0.0 else 1.0 / 0.0))
  else if nanWords.contains word then .ok (ofFloat (0.0 / 0.0))
  else if word = mergeWord ∨ word = valueWord then .error .malformed
  else
    match timestamp? s with
    | some result => result
    | none => .ok (.text word)

end CronSchedule.Yaml
