import BeliefNet.Binary64.Basic

/-!
# The fewest digits that read back

A finite double is written with the fewest significant digits whose nearest
double is that double again; among those of the same length the nearest one is
taken, and a rule decides a tie.

* `Binary64.shortest` selects the digits.
* `Binary64.Digits` is their form: no zero at the end, and the place of the
  point.
-/

namespace BeliefNet.Binary64

/-- The number `0.d1 d2 ... * 10 ^ point`. -/
structure Digits where
  /-- Decimal digits; the last is not zero. -/
  digits : List Char
  point : Int
  deriving DecidableEq

/-- `coefficient * 10 ^ exponent` as digits. -/
def Digits.ofScaled (coefficient : Nat) (exponent : Int) : Digits :=
  let digits := Nat.toDigits 10 coefficient
  ⟨(digits.reverse.dropWhile (· == '0')).reverse, exponent + digits.length⟩

/-- The largest `k` with `10 ^ k ≤ num / den`, for a quotient that is not
zero. -/
def decimalOrder (num den : Nat) : Int :=
  let guess : Int := ((Nat.toDigits 10 num).length : Int) - (Nat.toDigits 10 den).length
  let (low, high) := scaleRatio 10 num den (-guess)
  if low < high then guess - 1 else guess

/-- The neighbours of `num / den` on the grid of multiples of
`10 ^ exponent`, the nearer one first. -/
def gridNeighbours (tie : TieRule) (num den : Nat) (exponent : Int) : List Nat :=
  let (num, den) := scaleRatio 10 num den (-exponent)
  if roundQuotient tie num den = num / den then
    [num / den, num / den + 1]
  else
    [num / den + 1, num / den]

/-- The nearest neighbour on that grid from which the value is read back. -/
def readBack? (x : Binary64) (tie : TieRule) (exponent : Int) : Option Nat :=
  let (num, den) := x.ratio
  (gridNeighbours tie num den exponent).find? fun coefficient =>
    decide (ofScaled x.isNegative coefficient exponent = x)

/-- The shortest digits of the magnitude of a finite value that is not zero.
Seventeen are always enough. -/
def shortest (x : Binary64) (tie : TieRule) : Digits :=
  let (num, den) := x.ratio
  let order := decimalOrder num den
  let found := (List.range 17).findSome? fun (n : Nat) =>
    (readBack? x tie (order - n)).map fun coefficient => Digits.ofScaled coefficient (order - n)
  match found with
  | some digits => digits
  | none =>
    let (num, den) := scaleRatio 10 num den (16 - order)
    Digits.ofScaled (roundQuotient tie num den) (order - 16)

end BeliefNet.Binary64
