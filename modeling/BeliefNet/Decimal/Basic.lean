import BeliefNet.Rounding

/-!
# Decimals of bounded size

A decimal is a sign and `digits * 10 ^ -scale`, with digits of at most 96 bits
and at most 28 places. A zero has a sign too, which only its text and its double
show. Arithmetic computes the exact result and rounds it once, a half to the
even neighbour, to the most places the digits have room for; where not even the
integer fits there is no result.

* `Decimal.coefficient` is the digits with the sign, as an integer.
* `Decimal.ofRatio?` is that one rounding, used by every operation.
* `Decimal.trim` drops the zeros at the end of the fraction.
* `Decimal.round` keeps a number of places.
* `Decimal.shiftLeft?` and `Decimal.shiftRight?` move the point.
-/

namespace BeliefNet

/-- A decimal number, `digits * 10 ^ -scale` or the negative of that. The sign
and the scale are part of the value: `0.5` and `0.50` are equal as numbers and
printed differently. -/
structure Decimal where
  negative : Bool
  /-- The digits, without the point. -/
  digits : Nat
  /-- The number of digits after the point. -/
  scale : Nat
  digits_lt : digits < twoPow 96
  scale_le : scale ≤ 28
  deriving DecidableEq

namespace Decimal

/-- The largest number of places. -/
abbrev maxScale : Nat := 28

/-- The digits with the sign. -/
def coefficient (d : Decimal) : Int :=
  if d.negative then -(d.digits : Int) else d.digits

/-- The decimal with these parts, if they are within the bounds. A zero is not
negative. -/
def ofParts? (coefficient : Int) (scale : Nat) : Option Decimal :=
  if h : coefficient.natAbs < twoPow 96 ∧ scale ≤ maxScale then
    some ⟨decide (coefficient < 0), coefficient.natAbs, scale, h.1, h.2⟩
  else
    none

def zero : Decimal := ⟨false, 0, 0, by decide, by decide⟩

def one : Decimal := ⟨false, 1, 0, by decide, by decide⟩

theorem natAbs_coefficient (d : Decimal) : d.coefficient.natAbs = d.digits := by
  unfold coefficient
  split <;> simp

theorem coefficient_eq_zero (d : Decimal) : d.coefficient = 0 ↔ d.digits = 0 := by
  rw [← Int.natAbs_eq_zero, natAbs_coefficient]

/-- Numerical comparison, whatever the scales. -/
def compare (a b : Decimal) : Ordering :=
  Ord.compare (a.coefficient * tenPow b.scale) (b.coefficient * tenPow a.scale)

/-- The decimal nearest to `num / den` at the most places, `places` at most,
at which the rounded coefficient has 96 bits. -/
def ofRatio? (num : Int) (den : Nat) : Nat → Option Decimal
  | 0 => ofParts? (roundSignedQuotient .toEven num den) 0
  | places + 1 =>
    ofParts? (roundSignedQuotient .toEven (num * tenPow (places + 1)) den) (places + 1)
      <|> ofRatio? num den places

/-- The digits and scale left when the zeros at the end of a fraction of
`scale` digits are dropped. -/
def dropZeros (digits : Nat) : Nat → Nat × Nat
  | 0 => (digits, 0)
  | scale + 1 =>
    if digits % 10 = 0 then dropZeros (digits / 10) scale else (digits, scale + 1)

theorem fst_dropZeros_le (digits scale : Nat) : (dropZeros digits scale).1 ≤ digits := by
  induction scale generalizing digits with
  | zero => exact Nat.le_refl _
  | succ scale ih =>
    unfold dropZeros
    split
    · exact Nat.le_trans (ih _) (Nat.div_le_self _ _)
    · exact Nat.le_refl _

theorem snd_dropZeros_le (digits scale : Nat) : (dropZeros digits scale).2 ≤ scale := by
  induction scale generalizing digits with
  | zero => exact Nat.le_refl _
  | succ scale ih =>
    unfold dropZeros
    split
    · exact Nat.le_succ_of_le (ih _)
    · exact Nat.le_refl _

/-- The same number without zeros at the end of its fraction. -/
def trim (d : Decimal) : Decimal where
  negative := d.negative
  digits := (dropZeros d.digits d.scale).1
  scale := (dropZeros d.digits d.scale).2
  digits_lt := Nat.lt_of_le_of_lt (fst_dropZeros_le _ _) d.digits_lt
  scale_le := Nat.le_trans (snd_dropZeros_le _ _) d.scale_le

/-- The number rounded to `places` places; one with no more than that stays
as it is. The sign stays, even if nothing else does. -/
def round (d : Decimal) (tie : TieRule) (places : Nat) : Decimal :=
  if h : places < d.scale then
    { negative := d.negative
      digits := roundQuotient tie d.digits (tenPow (d.scale - places))
      scale := places
      digits_lt := Nat.lt_of_le_of_lt (roundQuotient_le tie _ (tenPow_pos _)) d.digits_lt
      scale_le := Nat.le_trans (Nat.le_of_lt h) d.scale_le }
  else
    d

theorem scale_round_le (d : Decimal) (tie : TieRule) (places : Nat) :
    (d.round tie places).scale ≤ places := by
  unfold round
  split
  · exact Nat.le_refl _
  · omega

/-- More than one digit before the point leave room for another place. -/
theorem scale_lt_of_le {d : Decimal} (h : tenPow (d.scale + 1) ≤ d.digits) :
    d.scale < maxScale := by
  refine Nat.lt_of_not_le fun hscale => ?_
  have hplaces : tenPow (maxScale + 1) ≤ tenPow (d.scale + 1) := tenPow_le_tenPow (by omega)
  have hroom : twoPow 96 ≤ tenPow (maxScale + 1) := by decide
  have := d.digits_lt
  omega

/-- A tenth of a number with more than one digit before the point. -/
def pointLeft (d : Decimal) (h : tenPow (d.scale + 1) ≤ d.digits) : Decimal :=
  { d with scale := d.scale + 1, scale_le := scale_lt_of_le h }

/-- Ten times a number with digits behind the point. -/
def pointRight (d : Decimal) : Decimal :=
  { d with scale := d.scale - 1, scale_le := Nat.le_trans (Nat.sub_le _ _) d.scale_le }

/-- The number times `10 ^ -places`, for at most 28 places. Digits that would
stand behind the 28th place are rounded, a half away from zero. -/
def shiftRight? (d : Decimal) (places : Nat) : Option Decimal :=
  if h : places ≤ maxScale then
    let kept := d.round .awayFromZero (maxScale - places)
    some { kept with
      scale := kept.scale + places
      scale_le := Nat.add_le_of_le_sub h (scale_round_le d .awayFromZero (maxScale - places)) }
  else
    none

/-- The number times `10 ^ places`, for at most 28 places and if it is not too
large. -/
def shiftLeft? (d : Decimal) (places : Nat) : Option Decimal :=
  if places ≤ d.scale then
    some { d with scale := d.scale - places, scale_le := Nat.le_trans (Nat.sub_le _ _) d.scale_le }
  else if places ≤ maxScale then
    ofParts? (d.coefficient * tenPow (places - d.scale)) 0
  else
    none

/-- The product; zero times anything is `0`. -/
def mul? (a b : Decimal) : Option Decimal :=
  if a.digits = 0 ∨ b.digits = 0 then
    some zero
  else
    ofRatio? (a.coefficient * b.coefficient) (tenPow (a.scale + b.scale))
      (min maxScale (a.scale + b.scale))

/-- The quotient, without zeros at the end of its fraction; there is none by
zero. -/
def div? (a b : Decimal) : Option Decimal :=
  if b.digits = 0 then
    none
  else
    (ofRatio? (a.coefficient * b.coefficient.sign * tenPow b.scale)
      (b.digits * tenPow a.scale) maxScale).map trim

/-- The sum, with no more places than the operand that has more. -/
def add? (a b : Decimal) : Option Decimal :=
  ofRatio? (a.coefficient * tenPow b.scale + b.coefficient * tenPow a.scale)
    (tenPow (a.scale + b.scale)) (max a.scale b.scale)

/-- The number lies between 0 and 1, both included. -/
def InUnit (d : Decimal) : Prop :=
  0 ≤ d.coefficient ∧ d.coefficient ≤ tenPow d.scale

instance (d : Decimal) : Decidable d.InUnit :=
  inferInstanceAs (Decidable (_ ∧ _))

/-- `1 - d` for a number between 0 and 1, with as many places as `d`; taking
a zero of any scale away leaves `1` as it stands. -/
def complement (d : Decimal) : Decimal :=
  if d.digits = 0 then
    one
  else
    { negative := false
      digits := tenPow d.scale - d.digits
      scale := d.scale
      digits_lt := by
        have hscale : tenPow d.scale ≤ tenPow maxScale := tenPow_le_tenPow d.scale_le
        have hroom : tenPow maxScale < twoPow 96 := by decide
        omega
      scale_le := d.scale_le }

/-- The powers of ten from `10` to `10 ^ 28`. -/
def powersOfTen : List Nat :=
  (List.range maxScale).map fun k => tenPow (k + 1)

/-- The exponent of the leading digit: the largest `k` with `10 ^ k ≤ digits`,
and 0 if there is none. -/
def leading (d : Decimal) : Nat :=
  powersOfTen.countP fun power => decide (power ≤ d.digits)

theorem leading_le (d : Decimal) : d.leading ≤ maxScale := by
  have hlength : powersOfTen.length = maxScale := by simp [powersOfTen]
  rw [← hlength]
  exact List.countP_le_length

end Decimal

end BeliefNet
