import BeliefNet.Rounding

/-!
# Binary floating point with 64 bits

A double is its 64 bits: a sign, and a magnitude whose order as a number is
the order of the values. Everything is computed on the exact value
`significand * 2 ^ exponent`, with one rounding to the nearest double, ties
to the even significand.

* `Binary64.nearest` is that rounding for a quotient of natural numbers.
* `Binary64.ofScaled` is the double nearest to `coefficient * 10 ^ exponent`.
* `add`, `mul` and `div` are the operations on finite values that are not
  negative.
-/

namespace BeliefNet

/-- A double, as its bits. -/
structure Binary64 where
  bits : UInt64
  deriving DecidableEq

namespace Binary64

/-- The magnitude of the infinities; a larger one is not a number. -/
def infiniteMagnitude : Nat := 0x7ff * twoPow 52

/-- The sign bit. -/
def isNegative (x : Binary64) : Bool :=
  decide (twoPow 63 ≤ x.bits.toNat)

/-- The bits without the sign. -/
def magnitude (x : Binary64) : Nat :=
  x.bits.toNat % twoPow 63

def isNaN (x : Binary64) : Bool :=
  decide (infiniteMagnitude < x.magnitude)

def isFinite (x : Binary64) : Bool :=
  decide (x.magnitude < infiniteMagnitude)

def ofMagnitude (negative : Bool) (magnitude : Nat) : Binary64 :=
  ⟨UInt64.ofNat (if negative then twoPow 63 + magnitude else magnitude)⟩

def zero : Binary64 := ofMagnitude false 0

def infinity (negative : Bool) : Binary64 := ofMagnitude negative infiniteMagnitude

def nan : Binary64 := ofMagnitude false (infiniteMagnitude + twoPow 51)

/-- The significand of a finite value. -/
def significand (x : Binary64) : Nat :=
  if x.magnitude < twoPow 52 then x.magnitude else twoPow 52 + x.magnitude % twoPow 52

/-- The exponent of a finite value, whose magnitude is
`significand * 2 ^ exponent`. -/
def exponent (x : Binary64) : Int :=
  max (x.magnitude / twoPow 52 : Nat) 1 - 1075

/-- `num / den * base ^ exponent` as a quotient of natural numbers. -/
def scaleRatio (base num den : Nat) (exponent : Int) : Nat × Nat :=
  if 0 ≤ exponent then
    (num * Nat.pow base exponent.toNat, den)
  else
    (num, den * Nat.pow base (-exponent).toNat)

/-- The magnitude of a finite value as a quotient of natural numbers. -/
def ratio (x : Binary64) : Nat × Nat :=
  scaleRatio 2 x.significand 1 x.exponent

/-- The largest `k` with `2 ^ k ≤ num / den`, for a quotient that is not
zero. -/
def binaryOrder (num den : Nat) : Int :=
  let guess : Int := (num.log2 : Int) - den.log2
  let (low, high) := scaleRatio 2 num den (-guess)
  if low < high then guess - 1 else guess

/-- The magnitude of the double nearest to `num / den`, infinite where the
quotient is out of range. Counting the significands upward from the spacing of
the smallest values gives the bits, so a carry out of the significand needs no
case of its own. -/
def nearestMagnitude (num den : Nat) : Nat :=
  if num = 0 then
    0
  else
    let spacing := max (-1074) (binaryOrder num den - 52)
    let (num, den) := scaleRatio 2 num den (-spacing)
    min infiniteMagnitude ((spacing + 1074).toNat * twoPow 52 + roundQuotient .toEven num den)

/-- The double nearest to `num / den`, ties to the even significand. -/
def nearest (negative : Bool) (num den : Nat) : Binary64 :=
  ofMagnitude negative (nearestMagnitude num den)

/-- The double nearest to `coefficient * 10 ^ exponent`. An exponent far out
of range is decided without its power of ten. -/
def ofScaled (negative : Bool) (coefficient : Nat) (exponent : Int) : Binary64 :=
  if coefficient = 0 then
    ofMagnitude negative 0
  else if 310 < exponent then
    infinity negative
  else if coefficient.log2 + 3 * exponent < -1080 then
    ofMagnitude negative 0
  else
    let (num, den) := scaleRatio 10 coefficient 1 exponent
    nearest negative num den

/-- The sum of two finite values that are not negative. -/
def add (x y : Binary64) : Binary64 :=
  let (a, b) := x.ratio
  let (c, d) := y.ratio
  nearest false (a * d + c * b) (b * d)

/-- The product of two finite values that are not negative. -/
def mul (x y : Binary64) : Binary64 :=
  let (a, b) := x.ratio
  let (c, d) := y.ratio
  nearest false (a * c) (b * d)

/-- The quotient of two finite values that are not negative, the second not
zero. -/
def div (x y : Binary64) : Binary64 :=
  let (a, b) := x.ratio
  let (c, d) := y.ratio
  nearest false (a * d) (b * c)

/-- The integer nearest to a finite value that is not negative, a half going
up. -/
def roundToInteger (x : Binary64) : Binary64 :=
  let (a, b) := x.ratio
  nearest false (roundQuotient .awayFromZero a b) 1

/-- The value lies between 0 and 1, both included; a negative zero does, and
what is not a number does not. -/
def InUnit (x : Binary64) : Prop :=
  x.magnitude = 0 ∨ (x.isNegative = false ∧ x.magnitude ≤ 1023 * twoPow 52)

instance (x : Binary64) : Decidable x.InUnit :=
  inferInstanceAs (Decidable (_ ∨ _))

/-- The order of the values; what is not a number is below nothing. -/
def le (x y : Binary64) : Bool :=
  let signed (z : Binary64) : Int := if z.isNegative then -z.magnitude else z.magnitude
  !x.isNaN && !y.isNaN && decide (signed x ≤ signed y)

end Binary64

end BeliefNet
