import CronSchedule.Decimal.Binary64
import CronSchedule.Text.Numeral
import CronSchedule.Text.Pieces

/-!
# The floating-point number nearest to a decimal

`nearest digits exponent` is the double nearest to `digits * 10 ^ exponent`.  Decimals so
far out that every double is too small, or every one but zero too large, are told by
the place of their leading digit, so that no power of ten beyond those of doubles is
ever computed.

`ofNumeral` reads a numeral without a sign: digits with a point among them or none, and
behind an `e` an exponent.
-/

namespace CronSchedule.Decimal

open Text

/-- The place of the leading digit above which a decimal is beyond all finite doubles. -/
def greatestPlace : Int := 310

/-- The place of the leading digit below which a decimal rounds to zero. -/
def leastPlace : Int := -330

/-- The double nearest to `digits * 10 ^ exponent`. -/
def nearest (digits : Nat) (exponent : Int) : Float :=
  let place := exponent + (Nat.toDigits 10 digits).length
  if digits = 0 ∨ place < leastPlace then 0.0
  else if greatestPlace < place then 1.0 / 0.0
  else Float.ofScientific digits (decide (exponent < 0)) exponent.natAbs

/-! ### Numerals -/

/-- The parts of a numeral up to an `e`, and from there on. -/
def splitExponent (s : List Char) : List Char × List Char :=
  s.span fun c => c != 'e' && c != 'E'

/-- The value of the exponent part. -/
def exponentValue (s : List Char) : Int :=
  match s with
  | [] => 0
  | _ :: '-' :: digits => -(asciiValue digits : Int)
  | _ :: '+' :: digits => asciiValue digits
  | _ :: digits => asciiValue digits

/-- The double nearest to what a numeral denotes. -/
def ofNumeral (s : List Char) : Float :=
  let (mantissa, exponent) := splitExponent s
  let fraction := after '.' mantissa
  nearest (asciiValue (before '.' mantissa ++ fraction)) (exponentValue exponent - fraction.length)

end CronSchedule.Decimal
