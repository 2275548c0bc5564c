import Mathlib
import BeliefNet.Proofs.Probability.Exact

/-!
# Significant digits

`roundTo digits x` is `x` rounded half up to a number of significant digits, as
a number. `Probability.roundSignificant` computes it
(`toRat_roundSignificant`), and it keeps zero, the numbers that are not zero,
and the unit interval apart (`roundTo_eq_zero_iff`, `roundTo_le_one`).

An answer is rounded twice, once as a quotient and once to its significant
digits. Between numbers with twenty places the first rounding does not show
(`exists_div?_roundTo`): a quotient of such numbers that is no tie is farther
from every tie than the error of the division.
-/

namespace BeliefNet

/-- `x` rounded to `digits` significant digits, a half up. -/
def roundTo (digits : Nat) (x : ℚ) : ℚ :=
  ⌊x * 10 ^ ((digits : ℤ) - 1 - Int.log 10 x) + 1 / 2⌋ * 10 ^ (Int.log 10 x - (digits - 1))

section RoundTo

variable {digits : Nat} {x y : ℚ}

@[simp]
theorem roundTo_zero (digits : Nat) : roundTo digits 0 = 0 := by
  norm_num [roundTo]

theorem pow_log_le (hx : 0 < x) : (10 : ℚ) ^ Int.log 10 x ≤ x := by
  exact_mod_cast Int.zpow_log_le_self (by decide : 1 < 10) hx

theorem lt_pow_log (x : ℚ) : x < (10 : ℚ) ^ (Int.log 10 x + 1) := by
  exact_mod_cast Int.lt_zpow_succ_log_self (by decide : 1 < 10) x

theorem log_eq_of_bounds {k : ℤ} (hlow : (10 : ℚ) ^ k ≤ x) (hhigh : x < 10 ^ (k + 1)) :
    Int.log 10 x = k := by
  have hx : 0 < x := lt_of_lt_of_le (by positivity) hlow
  have hle : k ≤ Int.log 10 x :=
    (Int.zpow_le_iff_le_log (by decide : 1 < 10) hx).1 (by exact_mod_cast hlow)
  have hlt : Int.log 10 x < k + 1 :=
    (Int.lt_zpow_iff_log_lt (by decide : 1 < 10) hx).1 (by exact_mod_cast hhigh)
  omega

/-- The digits that are kept, before the point is put back. -/
theorem pow_le_scaled (hx : 0 < x) (k : ℤ) : (10 : ℚ) ^ k ≤ x * 10 ^ (k - Int.log 10 x) := by
  calc (10 : ℚ) ^ k
      = 10 ^ Int.log 10 x * 10 ^ (k - Int.log 10 x) := by
        rw [← zpow_add₀ (by norm_num)]
        congr 1
        ring
    _ ≤ x * 10 ^ (k - Int.log 10 x) := by
        gcongr
        exact pow_log_le hx

theorem scaled_lt_pow (x : ℚ) (k : ℤ) : x * 10 ^ (k - Int.log 10 x) < 10 ^ (k + 1) := by
  calc x * 10 ^ (k - Int.log 10 x)
      < 10 ^ (Int.log 10 x + 1) * 10 ^ (k - Int.log 10 x) := by
        gcongr
        exact lt_pow_log x
    _ = 10 ^ (k + 1) := by
        rw [← zpow_add₀ (by norm_num)]
        congr 1
        ring

/-- Rounding keeps the leading power of ten. -/
theorem pow_log_le_roundTo (hdigits : 1 ≤ digits) (hx : 0 < x) :
    (10 : ℚ) ^ Int.log 10 x ≤ roundTo digits x := by
  have hfloor : ((10 ^ (digits - 1) : ℤ) : ℚ) ≤
      ⌊x * 10 ^ ((digits : ℤ) - 1 - Int.log 10 x) + 1 / 2⌋ := by
    rw [Int.cast_le, Int.le_floor]
    have hscaled := pow_le_scaled hx ((digits : ℤ) - 1)
    have hpow : (10 : ℚ) ^ ((digits : ℤ) - 1) = 10 ^ (digits - 1) := by
      rw [← zpow_natCast, Nat.cast_sub hdigits, Nat.cast_one]
    rw [hpow] at hscaled
    push_cast
    linarith
  calc (10 : ℚ) ^ Int.log 10 x
      = ((10 ^ (digits - 1) : ℤ) : ℚ) * 10 ^ (Int.log 10 x - (digits - 1)) := by
        push_cast
        rw [← zpow_natCast, Nat.cast_sub hdigits, Nat.cast_one, ← zpow_add₀ (by norm_num)]
        congr 1
        ring
    _ ≤ roundTo digits x := by
        unfold roundTo
        gcongr

/-- Rounding reaches the next power of ten at most. -/
theorem roundTo_le_pow_log (digits : Nat) (x : ℚ) :
    roundTo digits x ≤ 10 ^ (Int.log 10 x + 1) := by
  have hfloor : (⌊x * 10 ^ ((digits : ℤ) - 1 - Int.log 10 x) + 1 / 2⌋ : ℚ) ≤
      ((10 ^ digits : ℤ) : ℚ) := by
    rw [Int.cast_le, ← Int.lt_add_one_iff, Int.floor_lt]
    have hscaled := scaled_lt_pow x ((digits : ℤ) - 1)
    rw [sub_add_cancel, zpow_natCast] at hscaled
    push_cast
    linarith
  calc roundTo digits x
      ≤ ((10 ^ digits : ℤ) : ℚ) * 10 ^ (Int.log 10 x - (digits - 1)) := by
        unfold roundTo
        gcongr
    _ = 10 ^ (Int.log 10 x + 1) := by
        push_cast
        rw [← zpow_natCast, ← zpow_add₀ (by norm_num)]
        congr 1
        ring

theorem roundTo_eq_zero_iff (hdigits : 1 ≤ digits) (hx : 0 ≤ x) : roundTo digits x = 0 ↔ x = 0 := by
  refine ⟨fun h => ?_, by rintro rfl; exact roundTo_zero digits⟩
  by_contra hne
  have hpow : (0 : ℚ) < 10 ^ Int.log 10 x := by positivity
  have := pow_log_le_roundTo hdigits (lt_of_le_of_ne hx (Ne.symm hne))
  linarith

theorem roundTo_one (hdigits : 1 ≤ digits) : roundTo digits 1 = 1 := by
  have hpow : (1 : ℚ) * 10 ^ ((digits : ℤ) - 1 - 0) = ((10 ^ (digits - 1) : ℕ) : ℤ) := by
    push_cast
    rw [one_mul, sub_zero, ← zpow_natCast, Nat.cast_sub hdigits, Nat.cast_one]
  have hhalf : ⌊(1 / 2 : ℚ)⌋ = 0 := by norm_num
  unfold roundTo
  rw [Int.log_one_right, hpow, Int.floor_intCast_add, hhalf, add_zero, ← hpow, one_mul,
    ← zpow_add₀ (by norm_num)]
  norm_num

/-- Rounding does not leave the unit interval. -/
theorem roundTo_le_one (hdigits : 1 ≤ digits) (hx : 0 ≤ x) (hone : x ≤ 1) :
    roundTo digits x ≤ 1 := by
  rcases hone.eq_or_lt with rfl | hlt
  · exact (roundTo_one hdigits).le
  rcases hx.eq_or_lt with rfl | hpos
  · rw [roundTo_zero]
    exact zero_le_one
  have hlog : Int.log 10 x + 1 ≤ 0 := by
    have := (Int.lt_zpow_iff_log_lt (by decide : 1 < 10) hpos (x := 0)).1 (by simpa using hlt)
    omega
  exact (roundTo_le_pow_log digits x).trans
    (zpow_le_one_of_nonpos₀ (by norm_num) hlog)

/-- The digits of the rounded number follow from the digits before the point
with one digit more. -/
theorem floor_roundTo (digits : Nat) (x : ℚ) (k : ℤ) :
    ⌊x * 10 ^ ((digits : ℤ) - 1 - k) + 1 / 2⌋ = (⌊x * 10 ^ ((digits : ℤ) - k)⌋ + 5) / 10 := by
  have hsplit : x * 10 ^ ((digits : ℤ) - 1 - k) + 1 / 2 =
      (x * 10 ^ ((digits : ℤ) - k) + (5 : ℤ)) / (10 : ℕ) := by
    rw [sub_right_comm, zpow_sub_one₀ (by norm_num)]
    push_cast
    ring
  rw [hsplit, Int.floor_div_natCast, Int.floor_add_intCast]
  rfl

/-- The number of digits before the point shows the order of magnitude. -/
theorem log_eq_of_scaled {k : ℤ} (hlow : (10 : ℚ) ^ digits ≤ x * 10 ^ ((digits : ℤ) - k))
    (hhigh : x * 10 ^ ((digits : ℤ) - k) < 10 ^ (digits + 1)) : Int.log 10 x = k := by
  have hpow : (0 : ℚ) < 10 ^ ((digits : ℤ) - k) := by positivity
  refine log_eq_of_bounds ?_ ?_
  · rwa [← mul_le_mul_iff_left₀ hpow, ← zpow_add₀ (by norm_num), add_sub_cancel, zpow_natCast]
  · have hsum : k + 1 + ((digits : ℤ) - k) = ((digits + 1 : ℕ) : ℤ) := by
      push_cast
      ring
    rwa [← mul_lt_mul_iff_left₀ hpow, ← zpow_add₀ (by norm_num), hsum, zpow_natCast]

theorem pow_le_floor_scaled (digits : Nat) (hx : 0 < x) :
    10 ^ digits ≤ ⌊x * 10 ^ ((digits : ℤ) - Int.log 10 x)⌋ := by
  have hscaled := pow_le_scaled hx digits
  rw [zpow_natCast] at hscaled
  rw [Int.le_floor]
  exact_mod_cast hscaled

theorem floor_scaled_lt_pow (digits : Nat) (x : ℚ) :
    ⌊x * 10 ^ ((digits : ℤ) - Int.log 10 x)⌋ < 10 ^ (digits + 1) := by
  have hscaled := scaled_lt_pow x digits
  rw [zpow_add_one₀ (by norm_num), zpow_natCast, ← pow_succ] at hscaled
  rw [Int.floor_lt]
  exact_mod_cast hscaled

/-- Numbers whose leading digits agree are of the same order. -/
theorem log_eq_of_floor_eq (hx : 0 < x)
    (h : ⌊y * 10 ^ ((digits : ℤ) - Int.log 10 x)⌋ = ⌊x * 10 ^ ((digits : ℤ) - Int.log 10 x)⌋) :
    Int.log 10 y = Int.log 10 x := by
  have hlow := pow_le_floor_scaled digits hx
  have hhigh := floor_scaled_lt_pow digits x
  rw [← h, Int.le_floor] at hlow
  rw [← h, Int.floor_lt] at hhigh
  exact log_eq_of_scaled (by exact_mod_cast hlow) (by exact_mod_cast hhigh)

/-- Numbers whose leading digits agree, and one digit more, are rounded
alike. -/
theorem roundTo_congr (hx : 0 < x)
    (h : ⌊y * 10 ^ ((digits : ℤ) - Int.log 10 x)⌋ = ⌊x * 10 ^ ((digits : ℤ) - Int.log 10 x)⌋) :
    roundTo digits y = roundTo digits x := by
  unfold roundTo
  rw [log_eq_of_floor_eq hx h, floor_roundTo, floor_roundTo, h]

end RoundTo

/-- A quotient that is no integer is farther from the integers than the
reciprocal of its denominator. -/
theorem floor_eq_of_near {x y ε : ℚ} {num den : Nat} (hden : 0 < den) (hx : x = num / den)
    (hint : ∀ n : ℕ, x ≠ n) (hε : ε * den < 1) (hnear : |y - x| ≤ ε) : ⌊y⌋ = ⌊x⌋ := by
  obtain ⟨hlow, hhigh⟩ := abs_le.1 hnear
  have hden' : (0 : ℚ) < den := by exact_mod_cast hden
  have hfloor : (⌊x⌋ : ℤ) = ((num / den : ℕ) : ℤ) := by
    rw [hx]
    exact_mod_cast Rat.floor_natCast_div_natCast num den
  have hrest : 1 ≤ num % den := by
    rw [Nat.one_le_iff_ne_zero]
    intro hzero
    refine hint (num / den) ?_
    rw [hx, div_eq_iff hden'.ne']
    exact_mod_cast (Nat.div_mul_cancel (Nat.dvd_of_mod_eq_zero hzero)).symm
  -- the remainder keeps the quotient `1 / den` away from the integers on either side
  have hsplit : (num : ℚ) = den * (num / den : ℕ) + (num % den : ℕ) := by
    exact_mod_cast (Nat.div_add_mod num den).symm
  have hrest' : (1 : ℚ) ≤ (num % den : ℕ) := by exact_mod_cast hrest
  have hlt : ((num % den : ℕ) : ℚ) + 1 ≤ den := by exact_mod_cast Nat.mod_lt num hden
  have hx' : x * den = num := by
    rw [hx, div_mul_cancel₀ _ hden'.ne']
  have hlow' := mul_le_mul_of_nonneg_right hlow hden'.le
  have hhigh' := mul_le_mul_of_nonneg_right hhigh hden'.le
  rw [hfloor, Int.floor_eq_iff, Int.cast_natCast]
  constructor
  · refine le_of_mul_le_mul_right ?_ hden'
    linarith
  · refine lt_of_mul_lt_mul_right ?_ hden'.le
    linarith

namespace Probability

open Decimal (Rounded maxScale)

variable {a b p : Probability} {digits : Nat}

theorem negative_round {d : Decimal} (h : d.negative = false) (tie : TieRule) (places : Nat) :
    (d.round tie places).negative = false := by
  unfold Decimal.round
  split
  · exact h
  · exact h

theorem normal_roundSignificant (h : p.Normal) (digits : Nat) :
    (p.roundSignificant digits).Normal := by
  unfold roundSignificant significant
  split
  · exact h
  · rename_i hcond
    have hzero : ¬p.isZero = true := by
      intro hzero
      simp [hzero] at hcond
    exact normal_ofScaled fun _ => negative_round (h.isMantissa hzero).negative _ _

/-- The rounded mantissa has the significant digits of the value. -/
theorem toRat_round_mantissa (h : p.Normal) (hzero : ¬p.isZero = true) (hdigits : 1 ≤ digits) :
    (p.mantissa.round .awayFromZero (digits - 1)).toRat * 10 ^ p.exponent =
      roundTo digits p.toRat := by
  have hscaled : p.toRat * 10 ^ ((digits : ℤ) - 1 - p.exponent) =
      p.mantissa.toRat * 10 ^ (digits - 1) := by
    unfold toRat
    rw [mul_assoc, ← zpow_add₀ (by norm_num), ← zpow_natCast, Nat.cast_sub hdigits, Nat.cast_one]
    congr 2
    ring
  have hpoint : (10 : ℚ) ^ (p.exponent - ((digits : ℤ) - 1)) =
      10 ^ p.exponent / 10 ^ (digits - 1) := by
    rw [zpow_sub₀ (by norm_num), ← zpow_natCast, Nat.cast_sub hdigits, Nat.cast_one]
  rw [Decimal.toRat_round (h.isMantissa hzero).negative, roundTo, h.log_toRat hzero, hscaled,
    hpoint]
  ring

/-- A number that is not zero is rounded by its mantissa. -/
theorem roundSignificant_eq (hzero : ¬p.isZero = true) (hdigits : 1 ≤ digits) :
    p.roundSignificant digits =
      ofScaled (p.mantissa.round .awayFromZero (digits - 1)) p.exponent := by
  unfold roundSignificant significant
  rw [if_neg]
  · rfl
  · rw [Bool.or_eq_true, beq_iff_eq, not_or]
    exact ⟨hzero, by omega⟩

theorem roundSignificant_of_isZero (hzero : p.isZero = true) (digits : Nat) :
    p.roundSignificant digits = p := by
  unfold roundSignificant significant
  rw [hzero, Bool.true_or, if_pos rfl]
  rfl

/-- The significant digits of a probability are those of its value. -/
theorem toRat_roundSignificant (h : p.Normal) (hdigits : 1 ≤ digits) :
    (p.roundSignificant digits).toRat = roundTo digits p.toRat := by
  by_cases hzero : p.isZero = true
  · rw [roundSignificant_of_isZero hzero, (toRat_eq_zero_iff p).2 hzero, roundTo_zero]
  have hneg := negative_round (h.isMantissa hzero).negative .awayFromZero (digits - 1)
  rw [roundSignificant_eq hzero hdigits, toRat_ofScaled fun _ => hneg,
    toRat_round_mantissa h hzero hdigits]

/-- Rounding leaves the exponent, or carries once. -/
theorem exponent_roundSignificant (h : p.Normal) (hzero : ¬p.isZero = true)
    (hdigits : 1 ≤ digits) :
    p.exponent ≤ (p.roundSignificant digits).exponent ∧
      (p.roundSignificant digits).exponent ≤ p.exponent + 1 := by
  have hneg := negative_round (h.isMantissa hzero).negative .awayFromZero (digits - 1)
  have hvalue := toRat_round_mantissa h hzero hdigits
  have hpow : (0 : ℚ) < 10 ^ p.exponent := by positivity
  -- rounding stays between two powers of ten, and may reach the upper one
  have hone : (10 : ℚ) ^ (0 : ℤ) ≤ (p.mantissa.round .awayFromZero (digits - 1)).toRat := by
    refine le_of_mul_le_mul_right ?_ hpow
    rw [hvalue, zpow_zero, one_mul, ← h.log_toRat hzero]
    exact pow_log_le_roundTo hdigits (h.toRat_pos hzero)
  have hten : (p.mantissa.round .awayFromZero (digits - 1)).toRat ≤ 10 := by
    refine le_of_mul_le_mul_right ?_ hpow
    rw [hvalue, mul_comm, ← zpow_add_one₀ (by norm_num), ← h.log_toRat hzero]
    exact roundTo_le_pow_log digits p.toRat
  have hdigits' : (p.mantissa.round .awayFromZero (digits - 1)).digits ≠ 0 :=
    Decimal.digits_ne_zero_of_pos (by linarith [zpow_zero (10 : ℚ)])
  have hlow := le_carried hneg p.exponent hone
  have hhigh := carried_lt hneg hdigits' p.exponent (k := 2) (by norm_num; linarith)
  rw [roundSignificant_eq hzero hdigits, ofScaled, if_neg hdigits']
  unfold carried at hlow hhigh
  constructor
  · show p.exponent ≤ p.exponent + _ - _
    omega
  · show p.exponent + _ - _ ≤ p.exponent + 1
    omega

/-- With room for a carry, rounding does not overflow. -/
theorem roundDigits_eq_ok (h : p.Normal) (hdigits : 1 ≤ digits) (hroom : HasRoom p.exponent) :
    p.roundDigits digits = .ok (p.roundSignificant digits) := by
  have hrange : InRange (p.roundSignificant digits).exponent := by
    by_cases hzero : p.isZero = true
    · rw [roundSignificant_of_isZero hzero]
      exact hroom.inRange
    · obtain ⟨hlow, hhigh⟩ := exponent_roundSignificant h hzero hdigits
      unfold HasRoom at hroom
      unfold InRange
      omega
  rw [roundDigits_eq hroom.inRange, checkRange_of_inRange hrange]

/-- An integer number of millionths of a mantissa has room, so a quotient with
so few places is exact. -/
theorem toRat_div_eq {d : Decimal} (ha : a.mantissa.IsMantissa) (hb : b.mantissa.IsMantissa)
    (hd : Rounded (a.mantissa.digits * tenPow b.mantissa.scale)
      (b.mantissa.digits * tenPow a.mantissa.scale) maxScale d) {n : Nat}
    (hn : a.mantissa.toRat / b.mantissa.toRat * 10 ^ 6 = n) :
    d.toRat = a.mantissa.toRat / b.mantissa.toRat := by
  have hten : a.mantissa.toRat / b.mantissa.toRat < 10 := by
    rw [div_lt_iff₀ hb.toRat_pos]
    have := ha.toRat_lt_ten
    have := hb.one_le_toRat
    linarith
  have hroom : n < 10 ^ 7 := by
    have hcast : (n : ℚ) < 10 ^ 7 := by
      rw [← hn]
      linarith
    exact_mod_cast hcast
  have hplaces : a.mantissa.toRat / b.mantissa.toRat * 10 ^ maxScale =
      ((n * 10 ^ 22 : ℕ) : ℚ) := by
    push_cast
    rw [← hn, show maxScale = 6 + 22 from rfl, pow_add]
    norm_num
    ring
  rw [← ha.div_ratio hb] at hn hplaces ⊢
  exact hd.toRat_eq (div_den_pos hb) hn (by omega) hplaces

/-- A quotient of order `10 ^ -k` that is an integer number of units of its
sixth digit is exact. -/
theorem toRat_div?_eq {c : Probability} (ha : a.mantissa.IsMantissa)
    (hb : b.mantissa.IsMantissa) (hsafe : SafeExponent (a.exponent - b.exponent))
    (hc : a.div? b = some c) {k i : Nat} (hk : (k : ℤ) = 5 - Int.log 10 (a.toRat / b.toRat))
    (hi : a.toRat / b.toRat * 10 ^ k = i) : c.toRat = a.toRat / b.toRat := by
  obtain ⟨d, hrounded, c', hc', -, hvalue⟩ := exists_div? ha hb hsafe
  obtain rfl : c = c' := Option.some.inj (hc.symm.trans hc')
  have hpos : 0 < a.toRat / b.toRat := by
    have := ha.toRat_pos
    have := hb.toRat_pos
    rw [toRat_div_toRat]
    positivity
  have hlow : a.exponent - b.exponent - 1 ≤ Int.log 10 (a.toRat / b.toRat) := by
    refine (Int.zpow_le_iff_le_log (by decide : 1 < 10) hpos).1 ?_
    rw [toRat_div_toRat, zpow_sub_one₀ (by norm_num), mul_comm]
    push_cast
    gcongr
    rw [← one_div]
    exact one_tenth_le_div ha hb
  obtain ⟨j, hj⟩ : ∃ j : ℕ, (j : ℤ) = 6 - k - (a.exponent - b.exponent) :=
    ⟨(6 - k - (a.exponent - b.exponent)).toNat, by omega⟩
  have hmillionths : a.mantissa.toRat / b.mantissa.toRat * 10 ^ 6 = ((i * 10 ^ j : ℕ) : ℚ) := by
    have hpow : (10 : ℚ) ^ 6 = 10 ^ (a.exponent - b.exponent) * 10 ^ k * 10 ^ j := by
      rw [← zpow_natCast, ← zpow_natCast, ← zpow_natCast, ← zpow_add₀ (by norm_num),
        ← zpow_add₀ (by norm_num)]
      congr 1
      omega
    rw [hpow, ← mul_assoc, ← mul_assoc, ← toRat_div_toRat, hi]
    push_cast
    rfl
  rw [hvalue, toRat_div_eq ha hb hrounded hmillionths, ← toRat_div_toRat]

/-- A quotient of numbers with twenty places is no tie, unless it is exact: so a
number that is one rounding away has the same five digits. -/
theorem roundTo_div_congr {x y z : ℚ} (hx : HasPlaces 20 x) (hy : HasPlaces 20 y)
    (hpos : 0 < x) (hpos' : 0 < y) (hle : x ≤ y) (hone : y ≤ 1) (hwithin : Within 1 (x / y) z)
    (hexact : ∀ k i : ℕ, (k : ℤ) = (5 : ℕ) - Int.log 10 (x / y) → x / y * 10 ^ k = i →
      z = x / y) : roundTo 5 z = roundTo 5 (x / y) := by
  obtain ⟨n, hn⟩ := hx
  obtain ⟨m, hm⟩ := hy
  have hmpos : 0 < m := by
    have : (0 : ℚ) < m := by rw [← hm]; positivity
    exact_mod_cast this
  have hqpos : 0 < x / y := div_pos hpos hpos'
  have hlog : Int.log 10 (x / y) ≤ 0 := by
    have := Int.log_mono_right (b := 10) hqpos ((div_le_one hpos').2 hle)
    rwa [Int.log_one_right] at this
  refine roundTo_congr hqpos ?_
  obtain ⟨k, hk⟩ : ∃ k : ℕ, (k : ℤ) = (5 : ℕ) - Int.log 10 (x / y) :=
    ⟨(5 - Int.log 10 (x / y)).toNat, by omega⟩
  have hsix := scaled_lt_pow (x / y) (5 : ℕ)
  rw [← hk, zpow_natCast] at hsix ⊢
  -- with one digit more than five, the quotient is an integer, or far from all of them
  by_cases hint : ∃ i : ℕ, x / y * 10 ^ k = i
  · obtain ⟨i, hi⟩ := hint
    rw [hexact k i hk hi]
  · have hscaled : x / y * 10 ^ k = ((n * 10 ^ k : ℕ) : ℚ) / m := by
      rw [← hm]
      push_cast
      rw [← hn]
      field_simp
    have hm20 : (m : ℚ) ≤ 10 ^ 20 := by
      rw [← hm]
      linarith
    refine floor_eq_of_near hmpos hscaled (not_exists.1 hint) (ε := 1 / 10 ^ 21) ?_ ?_
    · linarith
    · refine ((hwithin.mul_right (by positivity)).abs_sub_le).trans ?_
      norm_num [unitRoundoff] at hsix ⊢
      linarith

/-- Between numbers with twenty places, the rounding of the quotient does not
show in five significant digits. -/
theorem exists_div?_roundTo (ha : a.Normal) (hb : b.Normal) (hzero : ¬b.isZero = true)
    (hka : HasPlaces 20 a.toRat) (hkb : HasPlaces 20 b.toRat) (hle : a.toRat ≤ b.toRat)
    (hone : b.toRat ≤ 1) :
    ∃ c, a.div? b = some c ∧ c.Normal ∧
      roundTo 5 c.toRat = roundTo 5 (a.toRat / b.toRat) := by
  by_cases hzero' : a.isZero = true
  · refine ⟨zero, div?_of_isZero hzero hzero', normal_zero, ?_⟩
    rw [(toRat_eq_zero_iff a).2 hzero', zero_div, toRat_zero]
  have hpos := ha.toRat_pos hzero'
  have hpos' := hb.toRat_pos hzero
  have hsafe : SafeExponent (a.exponent - b.exponent) := by
    have := ha.neg_le_exponent hzero' hka
    have := ha.exponent_nonpos hzero' (hle.trans hone)
    have := hb.neg_le_exponent hzero hkb
    have := hb.exponent_nonpos hzero hone
    unfold SafeExponent
    omega
  obtain ⟨c, hdiv, hnormal, hwithin⟩ := exists_div?_within ha hb hzero hsafe
  refine ⟨c, hdiv, hnormal, roundTo_div_congr hka hkb hpos hpos' hle hone hwithin ?_⟩
  intro k i hk hi
  exact toRat_div?_eq (ha.isMantissa hzero') (hb.isMantissa hzero) hsafe hdiv hk hi

end Probability

end BeliefNet
