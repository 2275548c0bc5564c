import Mathlib
import BeliefNet.Proofs.Probability.Normalization
import BeliefNet.Proofs.Probability.RelativeError

/-!
# Products and quotients of probabilities

Both operations round one quotient of the digits of the mantissas
(`exists_mul?`, `exists_div?`). From that follow, while the exponents stay away
from the ends of their range:

* the relative error of a product and of a quotient is that of one rounding
  (`exists_mul?_within`, `exists_div?_within`);
* a quotient by a number that is not smaller is at most one, and by the same
  number it is one (`exists_div?_le_one`, `div?_self`).
-/

namespace BeliefNet

/-- A product is rounded to as many places as there are, or to as many as it
needs. -/
theorem Decimal.mul_places (a b : Decimal) :
    min maxScale (a.scale + b.scale) = maxScale ∨
      ∃ m : ℕ, (((a.digits * b.digits : ℕ) : ℚ) / (tenPow (a.scale + b.scale) : ℕ)) *
        10 ^ min maxScale (a.scale + b.scale) = m := by
  rcases min_choice maxScale (a.scale + b.scale) with hmin | hmin
  · exact .inl hmin
  · refine .inr ⟨a.digits * b.digits, ?_⟩
    rw [hmin, natCast_tenPow, div_mul_cancel₀]
    positivity

namespace Decimal.IsMantissa

variable {a b : Decimal}

/-- The quotient that a product rounds. -/
theorem mul_ratio (ha : a.IsMantissa) (hb : b.IsMantissa) :
    ((a.digits * b.digits : ℕ) : ℚ) / (tenPow (a.scale + b.scale) : ℕ) = a.toRat * b.toRat := by
  rw [toRat_eq_of_nonneg ha.negative, toRat_eq_of_nonneg hb.negative, natCast_tenPow, pow_add,
    div_mul_div_comm]
  push_cast
  rfl

/-- The quotient that a quotient rounds. -/
theorem div_ratio (ha : a.IsMantissa) (hb : b.IsMantissa) :
    ((a.digits * tenPow b.scale : ℕ) : ℚ) / (b.digits * tenPow a.scale : ℕ) =
      a.toRat / b.toRat := by
  have hdigits : (b.digits : ℚ) ≠ 0 := by exact_mod_cast hb.digits_ne_zero
  rw [toRat_eq_of_nonneg ha.negative, toRat_eq_of_nonneg hb.negative]
  push_cast
  rw [natCast_tenPow, natCast_tenPow]
  field_simp

/-- A product of mantissas is below a hundred and so has room. -/
theorem exists_mul? (ha : a.IsMantissa) (hb : b.IsMantissa) :
    ∃ d, a.mul? b = some d ∧ Rounded (a.digits * b.digits) (tenPow (a.scale + b.scale))
      (min maxScale (a.scale + b.scale)) d := by
  have hfit : roundQuotient .toEven (a.digits * b.digits) (tenPow (a.scale + b.scale)) <
      twoPow 96 := by
    refine Nat.lt_of_le_of_lt (roundQuotient_le_of_le _ (tenPow_pos _) (n := 100) ?_) (by decide)
    calc a.digits * b.digits
        ≤ 10 ^ (a.scale + 1) * 10 ^ (b.scale + 1) := Nat.mul_le_mul ha.lt_pow.le hb.lt_pow.le
      _ = 100 * tenPow (a.scale + b.scale) := by rw [tenPow_eq]; ring
  unfold mul?
  rw [if_neg (by simp [ha.digits_ne_zero, hb.digits_ne_zero]),
    coefficient_of_nonneg ha.negative, coefficient_of_nonneg hb.negative, ← Nat.cast_mul]
  exact exists_ofRatio? (tenPow_pos _) hfit (min_le_left _ _)

/-- A quotient of mantissas is below ten and so has room. -/
theorem exists_div? (ha : a.IsMantissa) (hb : b.IsMantissa) :
    ∃ d, a.div? b = some d.trim ∧
      Rounded (a.digits * tenPow b.scale) (b.digits * tenPow a.scale) maxScale d := by
  have hden : 0 < b.digits * tenPow a.scale :=
    Nat.mul_pos (Nat.pos_of_ne_zero hb.digits_ne_zero) (tenPow_pos _)
  have hfit : roundQuotient .toEven (a.digits * tenPow b.scale) (b.digits * tenPow a.scale) <
      twoPow 96 := by
    refine Nat.lt_of_le_of_lt (roundQuotient_le_of_le _ hden (n := 10) ?_) (by decide)
    calc a.digits * tenPow b.scale
        ≤ 10 ^ (a.scale + 1) * b.digits := Nat.mul_le_mul ha.lt_pow.le hb.pow_le
      _ = 10 * (b.digits * tenPow a.scale) := by rw [tenPow_eq]; ring
  obtain ⟨d, hd, hrounded⟩ := exists_ofRatio? hden hfit (Nat.le_refl maxScale)
  refine ⟨d, ?_, hrounded⟩
  unfold div?
  rw [if_neg hb.digits_ne_zero, coefficient_of_nonneg ha.negative,
    coefficient_of_nonneg hb.negative,
    Int.sign_eq_one_of_pos (by exact_mod_cast Nat.pos_of_ne_zero hb.digits_ne_zero), mul_one,
    ← Nat.cast_mul, hd]
  rfl

end Decimal.IsMantissa

namespace Probability

open Decimal (Rounded maxScale)

/-- The exponents from which no carry leaves 32 bits. -/
def SafeExponent (exponent : Int) : Prop := -2 ^ 31 + 28 ≤ exponent ∧ exponent < 2 ^ 31 - 28

theorem SafeExponent.inRange {exponent : Int} (h : SafeExponent exponent) : InRange exponent := by
  unfold SafeExponent at h
  unfold InRange
  omega

/-- Roundings, fewer than `10 ^ 20`, move the exponent down by one at most, and
not up past a power of ten. -/
theorem Normal.exponent_of_within {p : Probability} (h : p.Normal) {k : Nat} {x : ℚ}
    (low high : ℤ) (hwithin : Within k x p.toRat) (hk : k ≤ 10 ^ 20) (hlow : 10 ^ low ≤ x)
    (hhigh : x ≤ 10 ^ high) : low - 1 ≤ p.exponent ∧ p.exponent ≤ high := by
  have hx : 0 < x := lt_of_lt_of_le (by positivity) hlow
  have hzero : ¬p.isZero = true := by
    rw [← toRat_eq_zero_iff, hwithin.eq_zero_iff hx.le]
    exact hx.ne'
  constructor
  · refine h.le_exponent hzero ?_
    calc (10 : ℚ) ^ (low - 1)
        = 1 / 10 * 10 ^ low := by
          rw [zpow_sub_one₀ (by norm_num)]
          ring
      _ ≤ 1 / 2 * x := by
          gcongr
          norm_num
      _ ≤ p.toRat := hwithin.half_le hx.le hk
  · refine Int.lt_add_one_iff.1 (h.exponent_lt hzero ?_)
    calc p.toRat
        ≤ 2 * x := hwithin.le_two_mul hx.le hk
      _ ≤ 2 * 10 ^ high := by gcongr
      _ < 10 * 10 ^ high := by
          gcongr
          norm_num
      _ = 10 ^ (high + 1) := by
          rw [zpow_add_one₀ (by norm_num), mul_comm]

/-- A mantissa of a result that came from a rounding. -/
theorem normal_of_rounded {num den places : Nat} {d : Decimal} (h : Rounded num den places d)
    (exponent : Int) : (ofScaled d exponent).Normal :=
  normal_ofScaled fun _ => h.negative

variable {a b : Probability}

@[simp]
theorem zero_mul? (b : Probability) : zero.mul? b = some zero := by
  simp [mul?, product, isZero_zero, Unscaled.exact]

theorem mul?_of_isZero (hzero : b.isZero = true) : a.mul? b = some zero := by
  simp [mul?, product, hzero, Unscaled.exact]

/-- The product of two numbers that are not zero, if the exponents allow it. -/
theorem mul?_eq {d : Decimal} (ha : ¬a.isZero = true) (hb : ¬b.isZero = true)
    (hd : a.mantissa.mul? b.mantissa = some d) :
    a.mul? b = (exponent? (a.exponent + b.exponent)).map (ofScaled d) := by
  unfold mul? product
  rw [if_neg (by simp [ha, hb]), hd]
  cases exponent? (a.exponent + b.exponent) with
  | none => rfl
  | some exponent => rfl

/-- The product of two numbers that are not zero. -/
theorem exists_mul? (ha : a.mantissa.IsMantissa) (hb : b.mantissa.IsMantissa)
    (hsafe : SafeExponent (a.exponent + b.exponent)) :
    ∃ d, Rounded (a.mantissa.digits * b.mantissa.digits)
        (tenPow (a.mantissa.scale + b.mantissa.scale))
        (min maxScale (a.mantissa.scale + b.mantissa.scale)) d ∧
      a.mul? b = some (ofScaled d (a.exponent + b.exponent)) ∧
      (ofScaled d (a.exponent + b.exponent)).toRat =
        d.toRat * 10 ^ (a.exponent + b.exponent) := by
  obtain ⟨d, hd, hrounded⟩ := ha.exists_mul? hb
  refine ⟨d, hrounded, ?_, toRat_ofScaled (fun _ => hrounded.negative) _⟩
  rw [mul?_eq (not_isZero ha) (not_isZero hb) hd, exponent?_of_inRange hsafe.inRange]
  rfl

theorem toRat_mul_toRat (a b : Probability) :
    a.toRat * b.toRat =
      a.mantissa.toRat * b.mantissa.toRat * 10 ^ (a.exponent + b.exponent) := by
  unfold toRat
  rw [zpow_add₀ (by norm_num)]
  ring

/-- A product costs one rounding. -/
theorem exists_mul?_within (ha : a.Normal) (hb : b.Normal)
    (hsafe : SafeExponent (a.exponent + b.exponent)) :
    ∃ c, a.mul? b = some c ∧ c.Normal ∧ Within 1 (a.toRat * b.toRat) c.toRat := by
  rcases ha with rfl | ha
  · refine ⟨zero, zero_mul? b, normal_zero, ?_⟩
    simpa using Within.zero 1
  rcases hb with rfl | hb
  · refine ⟨zero, mul?_of_isZero rfl, normal_zero, ?_⟩
    simpa using Within.zero 1
  obtain ⟨d, hrounded, hmul, hvalue⟩ := exists_mul? ha hb hsafe
  refine ⟨_, hmul, normal_of_rounded hrounded _, ?_⟩
  rw [hvalue, toRat_mul_toRat]
  refine Within.mul_right ?_ (by positivity)
  rw [← ha.mul_ratio hb]
  refine hrounded.within (tenPow_pos _) ?_ (a.mantissa.mul_places b.mantissa)
  rw [ha.mul_ratio hb]
  have := one_le_mul_of_one_le_of_one_le ha.one_le_toRat hb.one_le_toRat
  linarith

theorem div?_of_isZero (hb : ¬b.isZero = true) (ha : a.isZero = true) :
    a.div? b = some zero := by
  unfold div? quotient
  rw [if_neg hb, if_pos ha]
  rfl

/-- The quotient of two numbers that are not zero, if the exponents allow it. -/
theorem div?_eq {d : Decimal} (ha : ¬a.isZero = true) (hb : ¬b.isZero = true)
    (hd : a.mantissa.div? b.mantissa = some d) :
    a.div? b = (exponent? (a.exponent - b.exponent)).map (ofScaled d) := by
  unfold div? quotient
  rw [if_neg hb, if_neg ha, hd]
  cases exponent? (a.exponent - b.exponent) with
  | none => rfl
  | some exponent => rfl

/-- The quotient of two numbers that are not zero. -/
theorem exists_div? (ha : a.mantissa.IsMantissa) (hb : b.mantissa.IsMantissa)
    (hsafe : SafeExponent (a.exponent - b.exponent)) :
    ∃ d, Rounded (a.mantissa.digits * tenPow b.mantissa.scale)
        (b.mantissa.digits * tenPow a.mantissa.scale) maxScale d ∧
      ∃ c, a.div? b = some c ∧ c.Normal ∧
        c.toRat = d.toRat * 10 ^ (a.exponent - b.exponent) := by
  obtain ⟨d, hd, hrounded⟩ := ha.exists_div? hb
  have hneg : d.trim.negative = false := hrounded.negative
  refine ⟨d, hrounded, ofScaled d.trim (a.exponent - b.exponent), ?_,
    normal_ofScaled fun _ => hneg, ?_⟩
  · rw [div?_eq (not_isZero ha) (not_isZero hb) hd, exponent?_of_inRange hsafe.inRange]
    rfl
  · rw [toRat_ofScaled fun _ => hneg, Decimal.toRat_trim]

theorem toRat_div_toRat (a b : Probability) :
    a.toRat / b.toRat =
      a.mantissa.toRat / b.mantissa.toRat * 10 ^ (a.exponent - b.exponent) := by
  unfold toRat
  rw [zpow_sub₀ (by norm_num), mul_div_mul_comm]

theorem one_tenth_le_div (ha : a.mantissa.IsMantissa) (hb : b.mantissa.IsMantissa) :
    (1 / 10 : ℚ) ≤ a.mantissa.toRat / b.mantissa.toRat := by
  rw [div_le_div_iff₀ (by norm_num) hb.toRat_pos]
  have := ha.one_le_toRat
  have := hb.toRat_lt_ten
  linarith

theorem div_den_pos (hb : b.mantissa.IsMantissa) :
    0 < b.mantissa.digits * tenPow a.mantissa.scale :=
  Nat.mul_pos (Nat.pos_of_ne_zero hb.digits_ne_zero) (tenPow_pos _)

/-- A quotient costs one rounding. -/
theorem exists_div?_within (ha : a.Normal) (hb : b.Normal) (hzero : ¬b.isZero = true)
    (hsafe : SafeExponent (a.exponent - b.exponent)) :
    ∃ c, a.div? b = some c ∧ c.Normal ∧ Within 1 (a.toRat / b.toRat) c.toRat := by
  have hb := hb.isMantissa hzero
  rcases ha with rfl | ha
  · refine ⟨zero, div?_of_isZero hzero isZero_zero, normal_zero, ?_⟩
    simpa using Within.zero 1
  obtain ⟨d, hrounded, c, hdiv, hnormal, hvalue⟩ := exists_div? ha hb hsafe
  refine ⟨c, hdiv, hnormal, ?_⟩
  rw [hvalue, toRat_div_toRat]
  refine Within.mul_right ?_ (by positivity)
  rw [← ha.div_ratio hb]
  refine hrounded.within (div_den_pos hb) ?_ (.inl rfl)
  rw [ha.div_ratio hb]
  exact one_tenth_le_div ha hb

/-- A quotient by a number that is not smaller is at most one: rounding crosses
neither the integer one nor, with a borrow, the integer ten. -/
theorem exists_div?_le_one (ha : a.Normal) (hb : b.Normal) (hzero : ¬b.isZero = true)
    (hsafe : SafeExponent (a.exponent - b.exponent)) (hle : a.toRat ≤ b.toRat) :
    ∃ c, a.div? b = some c ∧ c.Normal ∧ c.toRat ≤ 1 := by
  by_cases hzero' : a.isZero = true
  · exact ⟨zero, div?_of_isZero hzero hzero', normal_zero, by simp⟩
  have hma := ha.isMantissa hzero'
  have hmb := hb.isMantissa hzero
  have hden := div_den_pos (a := a) hmb
  obtain ⟨d, hrounded, c, hdiv, hnormal, hvalue⟩ := exists_div? hma hmb hsafe
  refine ⟨c, hdiv, hnormal, ?_⟩
  rw [hvalue]
  -- with equal exponents the mantissas are in order, else a power of ten is to spare
  rcases (ha.exponent_le_of_toRat_le hb hzero' hzero hle).eq_or_lt with heq | hlt
  · have hpow : (0 : ℚ) < 10 ^ b.exponent := by positivity
    have hone : d.toRat ≤ (1 : ℕ) := by
      refine hrounded.toRat_le_natCast hden ?_
      rw [hma.div_ratio hmb, Nat.cast_one, div_le_one hmb.toRat_pos]
      unfold toRat at hle
      rw [heq] at hle
      exact le_of_mul_le_mul_right hle hpow
    rw [heq, sub_self, zpow_zero, mul_one]
    exact_mod_cast hone
  · have hten : d.toRat ≤ (10 : ℕ) := by
      refine hrounded.toRat_le_natCast hden ?_
      rw [hma.div_ratio hmb, div_le_iff₀ hmb.toRat_pos]
      have := hma.toRat_lt_ten
      have := hmb.one_le_toRat
      push_cast
      linarith
    calc d.toRat * 10 ^ (a.exponent - b.exponent)
        ≤ 10 * 10 ^ (-1 : ℤ) := by
          gcongr
          · exact_mod_cast hten
          · norm_num
          · omega
      _ = 1 := by norm_num

/-- A number divided by itself is one. -/
theorem div?_self (ha : a.Normal) (hzero : ¬a.isZero = true) : a.div? a = some one := by
  have hma := ha.isMantissa hzero
  have hsafe : SafeExponent (a.exponent - a.exponent) := by
    rw [sub_self]
    exact ⟨by norm_num, by norm_num⟩
  obtain ⟨d, hrounded, c, hdiv, hnormal, hvalue⟩ := exists_div? hma hma hsafe
  have hratio : ((a.mantissa.digits * tenPow a.mantissa.scale : ℕ) : ℚ) /
      (a.mantissa.digits * tenPow a.mantissa.scale : ℕ) = 1 := by
    rw [hma.div_ratio hma, div_self hma.toRat_pos.ne']
  have hone : d.toRat = 1 := by
    rw [← hratio]
    -- a quotient of equal mantissas is an integer, which has room
    refine hrounded.toRat_eq (div_den_pos hma) (n := 1) (k := 0) (m := 10 ^ maxScale) ?_
      (by norm_num) ?_
    · rw [hratio]
      norm_num
    · rw [hratio]
      push_cast
      rw [one_mul]
  rw [hdiv, hnormal.eq_of_toRat_eq normal_one]
  rw [hvalue, hone, sub_self, zpow_zero, toRat_one, mul_one]

end Probability

end BeliefNet
