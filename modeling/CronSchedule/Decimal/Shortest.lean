import CronSchedule.Decimal.Binary64
import CronSchedule.Text.Numeral

/-!
# The shortest decimal of a floating-point number

A floating-point number is written with the fewest digits that read back to it, and
of the decimals with so few digits the nearest to it, an exact tie going to the even
digit.

* `readsBack` — whether a decimal lies among the reals that round to the number: from
  halfway to the neighbour below to halfway to the neighbour above, the ends included
  exactly when the significand is even;
* `shortest` — the selection, on grids of one digit, two digits and so on: the first
  grid wins on which one of the two neighbours of the number reads back;
* `floatText` — the layout: positional from `1e-4` to below `1e16` with `.0` behind a
  whole number, otherwise with an exponent of at least two digits and its sign.
-/

namespace CronSchedule.Decimal

open Text

/-- The decimal `digits * 10 ^ exponent`. -/
structure Scaled where
  digits : Nat
  exponent : Int
deriving DecidableEq, Repr

/-- `digits * 10 ^ i` against `n * 2 ^ j`, exactly. -/
def compareScaled (digits : Nat) (i : Int) (n : Nat) (j : Int) : Ordering :=
  compare (digits * Nat.pow 10 i.toNat * Nat.pow 2 (-j).toNat)
    (n * Nat.pow 2 j.toNat * Nat.pow 10 (-i).toNat)

/-- Whether the decimal rounds to the magnitude of the finite number `x`. -/
def readsBack (x : Binary64) (d : Scaled) : Bool :=
  let low := 4 * x.significand - (if x.narrowBelow then 1 else 2)
  let high := 4 * x.significand + 2
  let closed := x.significand % 2 == 0
  let fromLow := compareScaled d.digits d.exponent low (x.exponent - 2)
  let fromHigh := compareScaled d.digits d.exponent high (x.exponent - 2)
  (fromLow == .gt || (closed && fromLow == .eq)) && (fromHigh == .lt || (closed && fromHigh == .eq))

/-- The magnitude of `x` in units of `10 ^ i`, as a quotient of naturals. -/
def inUnits (x : Binary64) (i : Int) : Nat × Nat :=
  (x.numerator * Nat.pow 10 (-i).toNat, x.denominator * Nat.pow 10 i.toNat)

/-- The least power of ten above the magnitude of a number that is not zero, looked
for from a lower estimate by its binary logarithm. -/
def scale (x : Binary64) : Int :=
  let estimate : Int := ((Nat.log2 x.significand : Int) + x.exponent) * 30103 / 100000
  match [estimate, estimate + 1, estimate + 2].find? fun k =>
      let (num, den) := inUnits x k
      decide (num < den) with
  | some k => k
  | none => estimate + 3

/-- The better of the two neighbours of `x` on the grid of `10 ^ i` that read back. -/
def onGrid (x : Binary64) (i : Int) : Option Scaled :=
  let (num, den) := inUnits x i
  let below : Scaled := ⟨num / den, i⟩
  let above : Scaled := ⟨num / den + 1, i⟩
  match readsBack x below, readsBack x above with
  | true, true => some (if roundHalfEven num den = num / den then below else above)
  | true, false => some below
  | false, true => some above
  | false, false => none

/-- The digits without trailing zeros, `fuel` of them at most. -/
def trimZeros : Nat → Scaled → Scaled
  | 0, d => d
  | fuel + 1, d =>
    if d.digits ≠ 0 ∧ d.digits % 10 = 0 then trimZeros fuel ⟨d.digits / 10, d.exponent + 1⟩ else d

/-- The shortest decimal of a finite number that is not zero.  Seventeen digits always
suffice, and the exact value stands behind them. -/
def shortest (x : Binary64) : Scaled :=
  let k := scale x
  match (List.range 17).findSome? fun (n : Nat) => onGrid x (k - (n + 1)) with
  | some d => trimZeros 20 d
  | none => ⟨x.numerator * Nat.pow 10 (-x.exponent).toNat / x.denominator, -(-x.exponent).toNat⟩

/-! ### Layout -/

/-- The text of a decimal: positional for exponents of the leading digit from -4 to 15. -/
def layout (d : Scaled) : List Char :=
  let ds := Nat.toDigits 10 d.digits
  let point : Int := d.exponent + ds.length
  if -3 ≤ point ∧ point ≤ 16 then
    if point ≤ 0 then '0' :: '.' :: (List.replicate (-point).toNat '0' ++ ds)
    else if ds.length ≤ point.toNat then
      ds ++ List.replicate (point.toNat - ds.length) '0' ++ ['.', '0']
    else ds.take point.toNat ++ '.' :: ds.drop point.toNat
  else
    let e := point - 1
    let mantissa := match ds with
      | [] => []
      | [c] => [c]
      | c :: rest => c :: '.' :: rest
    mantissa ++ ['e', if e < 0 then '-' else '+'] ++ padded 10 2 e.natAbs

/-- The text of a floating-point number. -/
def floatText (x : Binary64) : String :=
  if x.isNaN then "nan"
  else
    let magnitude :=
      if x.isInfinite then "inf".toList
      else if x.isZero then "0.0".toList
      else layout (shortest x)
    String.ofList (if x.isNegative then '-' :: magnitude else magnitude)

end CronSchedule.Decimal
