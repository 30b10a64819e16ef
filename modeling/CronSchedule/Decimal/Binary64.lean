/-!
# Binary floating-point numbers, exactly

A double is kept as its 64 bits.  A finite one is `± m · 2^q` with natural `m`, and
all arithmetic on it is done on `m` and `q`.

* `Binary64.significand`, `Binary64.exponent` — `m` and `q`;
* `Binary64.numerator`, `Binary64.denominator` — the magnitude as a quotient of
  naturals;
* `roundHalfEven` — a quotient rounded to the nearest natural, an exact half to the
  even one;
* `Binary64.inParts` — a number of wholes as a whole number of parts,
  `Binary64.microseconds` — a number of seconds as one of microseconds;
* `Binary64.ceiling` — the least natural number that is not below the magnitude.
-/

namespace CronSchedule.Decimal

/-! ### Rounding a quotient -/

/-- The natural nearest to `num / den`, the even one of two equally near. -/
def roundHalfEven (num den : Nat) : Nat :=
  let q := num / den
  let r := num % den
  if 2 * r < den then q
  else if 2 * r > den then q + 1
  else if q % 2 = 0 then q else q + 1

theorem roundHalfEven_of_lt {num den : Nat} (h : 2 * (num % den) < den) :
    roundHalfEven num den = num / den := by
  simp [roundHalfEven, h]

theorem roundHalfEven_of_gt {num den : Nat} (h : den < 2 * (num % den)) :
    roundHalfEven num den = num / den + 1 := by
  have : ¬ 2 * (num % den) < den := by omega
  simp [roundHalfEven, h, this]

/-- An exact half goes to an even number. -/
theorem roundHalfEven_of_eq {num den : Nat} (h : 2 * (num % den) = den) :
    roundHalfEven num den % 2 = 0 := by
  have h1 : ¬ 2 * (num % den) < den := by omega
  have h2 : ¬ 2 * (num % den) > den := by omega
  simp only [roundHalfEven, h1, h2, if_false]
  split <;> omega

/-! ### The 64 bits -/

/-- A binary floating-point number by its bits. -/
structure Binary64 where
  bits : UInt64
deriving DecidableEq, Repr

namespace Binary64

/-- The exponent field. -/
def field (x : Binary64) : Nat := ((x.bits >>> 52) &&& 0x7FF).toNat

/-- The fraction field. -/
def fraction (x : Binary64) : Nat := (x.bits &&& 0xFFFFFFFFFFFFF).toNat

def isNegative (x : Binary64) : Bool := x.bits >>> 63 == 1

def isNaN (x : Binary64) : Bool := x.field == 0x7FF && x.fraction != 0

def isInfinite (x : Binary64) : Bool := x.field == 0x7FF && x.fraction == 0

/-- The whole factor of the magnitude of a finite number. -/
def significand (x : Binary64) : Nat :=
  if x.field = 0 then x.fraction else Nat.pow 2 52 + x.fraction

/-- The power of two in the magnitude of a finite number. -/
def exponent (x : Binary64) : Int := (max x.field 1 : Nat) - 1075

/-- Whether the gap to the next smaller magnitude is half the gap to the next larger. -/
def narrowBelow (x : Binary64) : Bool := x.fraction == 0 && x.field > 1

def numerator (x : Binary64) : Nat := x.significand * Nat.pow 2 x.exponent.toNat

def denominator (x : Binary64) : Nat := Nat.pow 2 (-x.exponent).toNat

/-- Whether the number is zero, of either sign. -/
def isZero (x : Binary64) : Bool := x.field == 0 && x.fraction == 0

/-! ### Wholes in parts -/

/-- `n` rounded to 53 significant bits, halves to even. -/
def toSignificant (n : Nat) : Nat :=
  let excess := Nat.log2 n - 52
  roundHalfEven n (Nat.pow 2 excess) * Nat.pow 2 excess

/-- A finite number of wholes in parts, `parts` of which make a whole.  What stands
behind the point is multiplied in the precision of the number itself and then rounded,
halves to even; the sign is that of the number. -/
def inParts (x : Binary64) (parts : Nat) : Int :=
  let whole := x.numerator / x.denominator
  let rest := x.numerator % x.denominator
  let n := whole * parts + roundHalfEven (toSignificant (rest * parts)) x.denominator
  if x.isNegative then -(n : Int) else n

/-- A finite number of seconds in microseconds. -/
def microseconds (x : Binary64) : Int := x.inParts 1000000

/-- The least natural number that is not below the magnitude of a finite number. -/
def ceiling (x : Binary64) : Nat := (x.numerator + (x.denominator - 1)) / x.denominator

theorem denominator_pos (x : Binary64) : 0 < x.denominator := Nat.pow_pos (by decide)

theorem numerator_pos {x : Binary64} (h : x.isZero = false) : 0 < x.numerator := by
  refine Nat.mul_pos ?_ (Nat.pow_pos (by decide))
  unfold significand
  split
  · next hf =>
    simp only [isZero, hf, BEq.rfl, Bool.true_and, beq_eq_false_iff_ne, ne_eq] at h
    omega
  · have : 0 < Nat.pow 2 52 := Nat.pow_pos (by decide)
    omega

/-- A number that is not zero has no ceiling below one. -/
theorem ceiling_pos {x : Binary64} (h : x.isZero = false) : 0 < x.ceiling := by
  have hn := numerator_pos h
  have hd := x.denominator_pos
  exact Nat.div_pos (by omega) hd

end Binary64

end CronSchedule.Decimal
