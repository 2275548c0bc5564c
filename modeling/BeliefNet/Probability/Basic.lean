import BeliefNet.Decimal.Basic

/-!
# Probabilities in scaled decimal form

A probability is `mantissa * 10 ^ exponent` with a mantissa that is zero or
has exactly one digit before the point, so that products of many small entries
keep their significant digits. The exponent is counted in 32 bits. An operation
whose exponents leave that range has no result. The mantissa of a result is
brought back to one digit step by step, and a step that leaves the range is an
overflow, which ends the computation.

* `Probability.ofScaled` is the form of a decimal and an exponent, whatever the
  exponent; `normalize` reaches it in steps, or overflows.
* `mul`, `div` and `add` are the checked operations, and `roundDigits` keeps a
  number of significant digits.
* `mul?`, `div?`, `add?` and `roundSignificant` are the same without the bounds of
  the steps.
* `compare` is the order.
-/

namespace BeliefNet

/-- A number `mantissa * 10 ^ exponent`. -/
structure Probability where
  mantissa : Decimal
  exponent : Int
  deriving DecidableEq

namespace Probability

def zero : Probability := ⟨.zero, 0⟩

def one : Probability := ⟨.one, 0⟩

def isZero (p : Probability) : Bool :=
  p.mantissa.digits == 0

/-- The exponent, if it has 32 bits. -/
def exponent? (exponent : Int) : Option Int :=
  if -(twoPow 31 : Int) ≤ exponent ∧ exponent < twoPow 31 then some exponent else none

/-- The digits of a decimal with the point behind the first of them. -/
def leadingForm (d : Decimal) : Decimal where
  negative := d.negative
  digits := d.digits
  scale := d.leading
  digits_lt := d.digits_lt
  scale_le := d.leading_le

/-- `d * 10 ^ exponent` with one digit before the point and no zeros at the
end, whatever the exponent; zero has one form. -/
def ofScaled (d : Decimal) (exponent : Int) : Probability :=
  if d.digits = 0 then
    zero
  else
    ⟨(leadingForm d).trim, exponent + d.leading - d.scale⟩

def ofDecimal (d : Decimal) : Probability :=
  ofScaled d 0

/-! ## Moving the point -/

/-- What ends a computation: a step has left the range of the exponents. -/
inductive Overflow where
  | exponent
  deriving DecidableEq, Repr

/-- The exponent behind a step. -/
def checkStep (exponent : Int) : Except Overflow Int :=
  match exponent? exponent with
  | some exponent => .ok exponent
  | none => .error .exponent

/-- Moves the point to the left while there is more than one digit before it,
and counts the exponent up. -/
def carry (d : Decimal) (exponent : Int) : Except Overflow (Decimal × Int) :=
  if h : tenPow (d.scale + 1) ≤ d.digits then do
    carry (d.pointLeft h) (← checkStep (exponent + 1))
  else
    .ok (d, exponent)
termination_by Decimal.maxScale - d.scale
decreasing_by
  have := Decimal.scale_lt_of_le h
  show Decimal.maxScale - (d.scale + 1) < Decimal.maxScale - d.scale
  omega

/-- Moves the point to the right while there is no digit but zero before it, and
counts the exponent down. Only zero has none behind the point either. -/
def borrow (d : Decimal) (exponent : Int) : Except Overflow (Decimal × Int) :=
  if d.digits < tenPow d.scale ∧ d.scale ≠ 0 then do
    borrow d.pointRight (← checkStep (exponent - 1))
  else
    .ok (d, exponent)
termination_by d.scale
decreasing_by
  show d.scale - 1 < d.scale
  omega

/-- `d * 10 ^ exponent` with one digit before the point and no zeros at the end,
unless the exponent leaves its range on the way. -/
def normalize (d : Decimal) (exponent : Int) : Except Overflow Probability :=
  if d.digits = 0 then
    .ok zero
  else do
    let (d, exponent) ← carry d exponent
    let (d, exponent) ← borrow d exponent
    return ⟨d.trim, exponent⟩

/-! ## The operations -/

/-- What an operation finds: a number that stays as it is, or a mantissa and an
exponent that have still to be brought to their form. -/
inductive Unscaled where
  | kept (p : Probability)
  | scaled (mantissa : Decimal) (exponent : Int)

/-- The number that was found. -/
def Unscaled.exact : Unscaled → Probability
  | kept p => p
  | scaled mantissa exponent => ofScaled mantissa exponent

/-- The number that was found, brought to its form in steps. -/
def Unscaled.normalize : Unscaled → Except Overflow Probability
  | kept p => .ok p
  | scaled mantissa exponent => Probability.normalize mantissa exponent

def product (a b : Probability) : Option Unscaled :=
  if a.isZero || b.isZero then
    some (.kept zero)
  else do
    let mantissa ← a.mantissa.mul? b.mantissa
    let exponent ← exponent? (a.exponent + b.exponent)
    return .scaled mantissa exponent

def quotient (a b : Probability) : Option Unscaled :=
  if b.isZero then
    none
  else if a.isZero then
    some (.kept zero)
  else do
    let mantissa ← a.mantissa.div? b.mantissa
    let exponent ← exponent? (a.exponent - b.exponent)
    return .scaled mantissa exponent

/-- The decimal `10 ^ -shift`. -/
def unit (shift : Nat) (h : shift ≤ Decimal.maxScale) : Decimal :=
  { Decimal.one with scale := shift, scale_le := h }

/-- The sum of two numbers that are not zero, the first with an exponent that
is not smaller. A term more than 28 places below is too small to count. -/
def alignedSum? (large small : Probability) : Option Unscaled :=
  if h : (large.exponent - small.exponent).toNat ≤ Decimal.maxScale then do
    let shifted ← small.mantissa.mul? (unit (large.exponent - small.exponent).toNat h)
    let mantissa ← large.mantissa.add? shifted
    return .scaled mantissa large.exponent
  else
    some (.kept large)

/-- Zero leaves the other term as it is. -/
def sum (a b : Probability) : Option Unscaled :=
  if b.isZero then
    some (.kept a)
  else if a.isZero then
    some (.kept b)
  else if b.exponent ≤ a.exponent then
    alignedSum? a b
  else
    alignedSum? b a

/-- A half goes away from zero; zero digits leave the number as it is. -/
def significant (p : Probability) (digits : Nat) : Unscaled :=
  if p.isZero || digits == 0 then
    .kept p
  else
    .scaled (p.mantissa.round .awayFromZero (digits - 1)) p.exponent

/-- The product. -/
def mul (a b : Probability) : Option (Except Overflow Probability) :=
  (a.product b).map Unscaled.normalize

/-- The quotient; there is none by zero. -/
def div (a b : Probability) : Option (Except Overflow Probability) :=
  (a.quotient b).map Unscaled.normalize

/-- The sum. -/
def add (a b : Probability) : Option (Except Overflow Probability) :=
  (a.sum b).map Unscaled.normalize

/-- The number rounded to `digits` significant digits. -/
def roundDigits (p : Probability) (digits : Nat) : Except Overflow Probability :=
  (p.significant digits).normalize

/-- The product, whatever its exponent. -/
def mul? (a b : Probability) : Option Probability :=
  (a.product b).map Unscaled.exact

/-- The quotient, whatever its exponent. -/
def div? (a b : Probability) : Option Probability :=
  (a.quotient b).map Unscaled.exact

/-- The sum, whatever its exponent. -/
def add? (a b : Probability) : Option Probability :=
  (a.sum b).map Unscaled.exact

/-- The number rounded to `digits` significant digits, whatever its exponent. -/
def roundSignificant (p : Probability) (digits : Nat) : Probability :=
  (p.significant digits).exact

/-- The order: zero first, then by exponent, then by mantissa. -/
def compare (a b : Probability) : Ordering :=
  match a.isZero, b.isZero with
  | true, true => .eq
  | true, false => .lt
  | false, true => .gt
  | false, false =>
    (Ord.compare a.exponent b.exponent).then (a.mantissa.compare b.mantissa)

/-- The same exponent and numerically the same mantissa. -/
def same (a b : Probability) : Bool :=
  a.mantissa.compare b.mantissa == .eq && a.exponent == b.exponent

end Probability

end BeliefNet
