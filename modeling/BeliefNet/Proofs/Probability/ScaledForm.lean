import Mathlib
import BeliefNet.Probability.Basic
import BeliefNet.Proofs.Decimal.Value

/-!
# The scaled form is canonical

`Probability.toRat` is the value of a probability and `Probability.Normal` the
form in which the operations leave it: zero, or a mantissa with one digit
before the point and no zero at its end.

* `normal_ofScaled` and `toRat_ofScaled` say that `ofScaled` reaches this form
  and keeps the value.
* `Normal.eq_of_toRat_eq` says that a value has one normal form.
* `Normal.log_toRat` reads the exponent off the value.
* `Normal.compare_eq` says that the order is the numerical one.
-/

namespace BeliefNet

namespace Decimal

/-- One digit that is not zero stands before the point, and no zero at the
end. -/
structure IsMantissa (d : Decimal) : Prop where
  negative : d.negative = false
  pow_le : 10 ^ d.scale ≤ d.digits
  lt_pow : d.digits < 10 ^ (d.scale + 1)
  trimmed : d.scale = 0 ∨ d.digits % 10 ≠ 0

theorem isMantissa_one : one.IsMantissa := ⟨rfl, by decide, by decide, .inl rfl⟩

namespace IsMantissa

variable {a b d : Decimal}

theorem digits_ne_zero (h : d.IsMantissa) : d.digits ≠ 0 := by
  have := h.pow_le
  have : 0 < 10 ^ d.scale := by positivity
  omega

theorem one_le_toRat (h : d.IsMantissa) : 1 ≤ d.toRat := by
  rw [toRat_eq_of_nonneg h.negative, le_div_iff₀ (by positivity), one_mul]
  exact_mod_cast h.pow_le

theorem toRat_lt_ten (h : d.IsMantissa) : d.toRat < 10 := by
  rw [toRat_eq_of_nonneg h.negative, div_lt_iff₀ (by positivity), ← pow_succ']
  exact_mod_cast h.lt_pow

theorem toRat_pos (h : d.IsMantissa) : 0 < d.toRat :=
  zero_lt_one.trans_le h.one_le_toRat

/-- A mantissa has no more places than its value. -/
theorem scale_le (h : d.IsMantissa) {k n : ℕ} (hn : d.toRat * 10 ^ k = n) : d.scale ≤ k := by
  by_contra hlt
  obtain ⟨j, hj⟩ : ∃ j, d.scale = k + (j + 1) := ⟨d.scale - k - 1, by omega⟩
  have hdigits : d.digits = n * 10 ^ (j + 1) := by
    have hcast : (d.digits : ℚ) = ((n * 10 ^ (j + 1) : ℕ) : ℚ) := by
      push_cast
      rw [← toRat_mul_pow h.negative, hj, pow_add, ← mul_assoc, hn]
    exact_mod_cast hcast
  -- the digits would end in a zero, which the form excludes
  rcases h.trimmed with hzero | hlast
  · omega
  · rw [hdigits, pow_succ, ← mul_assoc] at hlast
    exact hlast (Nat.mul_mod_left _ _)

/-- Of two mantissas with the same value the one with fewer places has no
fewer. -/
theorem scale_le_of_toRat_eq (ha : a.IsMantissa) (hb : b.IsMantissa) (h : a.toRat = b.toRat) :
    b.scale ≤ a.scale :=
  hb.scale_le (h ▸ toRat_mul_pow ha.negative)

/-- A mantissa is known by its value. -/
theorem eq_of_toRat_eq (ha : a.IsMantissa) (hb : b.IsMantissa) (h : a.toRat = b.toRat) :
    a = b := by
  have hscale : a.scale = b.scale :=
    Nat.le_antisymm (hb.scale_le_of_toRat_eq ha h.symm) (ha.scale_le_of_toRat_eq hb h)
  have hdigits : a.digits = b.digits := by
    have hcast : (a.digits : ℚ) = b.digits := by
      rw [← toRat_mul_pow ha.negative, ← toRat_mul_pow hb.negative, h, hscale]
    exact_mod_cast hcast
  have hnegative : a.negative = b.negative := ha.negative.trans hb.negative.symm
  cases a
  cases b
  simp_all

end IsMantissa

end Decimal

namespace Probability

/-- The number that a probability stands for. -/
def toRat (p : Probability) : ℚ := p.mantissa.toRat * 10 ^ p.exponent

/-- The form in which the operations leave their results. -/
def Normal (p : Probability) : Prop := p = zero ∨ p.mantissa.IsMantissa

@[simp]
theorem toRat_zero : zero.toRat = 0 := by
  simp [toRat, zero]

@[simp]
theorem toRat_one : one.toRat = 1 := by
  simp [toRat, one]

theorem normal_zero : zero.Normal := .inl rfl

theorem normal_one : one.Normal := .inr Decimal.isMantissa_one

theorem isZero_iff_digits (p : Probability) : p.isZero = true ↔ p.mantissa.digits = 0 := by
  simp [isZero]

theorem toRat_eq_zero_iff (p : Probability) : p.toRat = 0 ↔ p.isZero = true := by
  rw [isZero_iff_digits, ← Decimal.toRat_eq_zero_iff]
  simp [toRat, zpow_ne_zero]

theorem isZero_zero : zero.isZero = true := rfl

theorem not_isZero {p : Probability} (h : p.mantissa.IsMantissa) : ¬p.isZero = true := by
  rw [isZero_iff_digits]
  exact h.digits_ne_zero

namespace Normal

variable {a b p : Probability}

theorem eq_zero_of_isZero (h : p.Normal) (hzero : p.isZero = true) : p = zero := by
  rcases h with rfl | hmantissa
  · rfl
  · exact absurd ((isZero_iff_digits p).1 hzero) hmantissa.digits_ne_zero

theorem isMantissa (h : p.Normal) (hzero : ¬p.isZero = true) : p.mantissa.IsMantissa := by
  rcases h with rfl | hmantissa
  · exact absurd rfl hzero
  · exact hmantissa

theorem toRat_nonneg (h : p.Normal) : 0 ≤ p.toRat := by
  rcases h with rfl | hmantissa
  · simp
  · have := hmantissa.toRat_pos
    unfold toRat
    positivity

theorem toRat_pos (h : p.Normal) (hzero : ¬p.isZero = true) : 0 < p.toRat := by
  have := (h.isMantissa hzero).toRat_pos
  unfold toRat
  positivity

theorem pow_exponent_le (h : p.Normal) (hzero : ¬p.isZero = true) :
    (10 : ℚ) ^ p.exponent ≤ p.toRat := by
  have hpow : (0 : ℚ) < 10 ^ p.exponent := by positivity
  exact le_mul_of_one_le_left hpow.le (h.isMantissa hzero).one_le_toRat

theorem lt_pow_exponent (h : p.Normal) (hzero : ¬p.isZero = true) :
    p.toRat < (10 : ℚ) ^ (p.exponent + 1) := by
  have hpow : (0 : ℚ) < 10 ^ p.exponent := by positivity
  rw [zpow_add_one₀ (by norm_num), mul_comm]
  exact mul_lt_mul_of_pos_right (h.isMantissa hzero).toRat_lt_ten hpow

/-- A power of ten below the value bounds the exponent from below. -/
theorem le_exponent (h : p.Normal) (hzero : ¬p.isZero = true) {k : Int}
    (hk : (10 : ℚ) ^ k ≤ p.toRat) : k ≤ p.exponent := by
  have hlt := (zpow_lt_zpow_iff_right₀ (by norm_num : (1 : ℚ) < 10)).1
    (hk.trans_lt (h.lt_pow_exponent hzero))
  omega

/-- A power of ten above the value bounds the exponent from above. -/
theorem exponent_lt (h : p.Normal) (hzero : ¬p.isZero = true) {k : Int}
    (hk : p.toRat < (10 : ℚ) ^ k) : p.exponent < k :=
  (zpow_lt_zpow_iff_right₀ (by norm_num : (1 : ℚ) < 10)).1
    ((h.pow_exponent_le hzero).trans_lt hk)

/-- The exponent is the order of magnitude of the value. -/
theorem log_toRat (h : p.Normal) (hzero : ¬p.isZero = true) : Int.log 10 p.toRat = p.exponent := by
  have hpos := h.toRat_pos hzero
  have hlow : Int.log 10 p.toRat ≤ p.exponent :=
    h.le_exponent hzero (by exact_mod_cast Int.zpow_log_le_self (by decide : 1 < 10) hpos)
  have hhigh : p.exponent < Int.log 10 p.toRat + 1 :=
    h.exponent_lt hzero (by exact_mod_cast Int.lt_zpow_succ_log_self (by decide : 1 < 10) p.toRat)
  omega

/-- A value has one normal form. -/
theorem eq_of_toRat_eq (ha : a.Normal) (hb : b.Normal) (h : a.toRat = b.toRat) : a = b := by
  by_cases hzero : a.isZero = true
  · have hzero' : b.isZero = true := by
      rwa [← toRat_eq_zero_iff, ← h, toRat_eq_zero_iff]
    rw [ha.eq_zero_of_isZero hzero, hb.eq_zero_of_isZero hzero']
  · have hzero' : ¬b.isZero = true := by
      rwa [← toRat_eq_zero_iff, ← h, toRat_eq_zero_iff]
    have hexponent : a.exponent = b.exponent := by
      rw [← ha.log_toRat hzero, ← hb.log_toRat hzero', h]
    have hmantissa : a.mantissa = b.mantissa := by
      refine (ha.isMantissa hzero).eq_of_toRat_eq (hb.isMantissa hzero') ?_
      unfold toRat at h
      rw [hexponent] at h
      exact mul_right_cancel₀ (zpow_ne_zero _ (by norm_num)) h
    cases a
    cases b
    simp_all

/-- A larger exponent means a larger value. -/
theorem toRat_lt_of_exponent_lt (ha : a.Normal) (hb : b.Normal) (hzero : ¬a.isZero = true)
    (hzero' : ¬b.isZero = true) (h : a.exponent < b.exponent) : a.toRat < b.toRat :=
  calc a.toRat
      < 10 ^ (a.exponent + 1) := ha.lt_pow_exponent hzero
    _ ≤ 10 ^ b.exponent := zpow_le_zpow_right₀ (by norm_num) h
    _ ≤ b.toRat := hb.pow_exponent_le hzero'

/-- A larger value has no smaller exponent. -/
theorem exponent_le_of_toRat_le (ha : a.Normal) (hb : b.Normal) (hzero : ¬a.isZero = true)
    (hzero' : ¬b.isZero = true) (h : a.toRat ≤ b.toRat) : a.exponent ≤ b.exponent := by
  by_contra hlt
  exact absurd h (hb.toRat_lt_of_exponent_lt ha hzero' hzero (not_le.1 hlt)).not_ge

/-- The order of normal forms is that of their values. -/
theorem compare_eq (ha : a.Normal) (hb : b.Normal) : a.compare b = cmp a.toRat b.toRat := by
  unfold Probability.compare
  cases hzero : a.isZero with
  | true =>
    rw [(toRat_eq_zero_iff a).2 hzero]
    cases hzero' : b.isZero with
    | true =>
      rw [(toRat_eq_zero_iff b).2 hzero']
      exact (cmp_self_eq_eq 0).symm
    | false =>
      exact ((cmp_eq_lt_iff _ _).2 (hb.toRat_pos (by simp [hzero']))).symm
  | false =>
    cases hzero' : b.isZero with
    | true =>
      rw [(toRat_eq_zero_iff b).2 hzero']
      exact ((cmp_eq_gt_iff _ _).2 (ha.toRat_pos (by simp [hzero]))).symm
    | false =>
      have hzero : ¬a.isZero = true := by simp [hzero]
      have hzero' : ¬b.isZero = true := by simp [hzero']
      -- one digit before the point, so the exponents decide unless they are equal
      rcases lt_trichotomy a.exponent b.exponent with hlt | heq | hgt
      · rw [compare_lt_iff_lt.2 hlt, (cmp_eq_lt_iff _ _).2
          (ha.toRat_lt_of_exponent_lt hb hzero hzero' hlt)]
        rfl
      · have hpow : (0 : ℚ) < 10 ^ b.exponent := by positivity
        rw [compare_eq_iff_eq.2 heq, Decimal.compare_eq]
        unfold toRat
        rw [heq, cmp_mul_pos_right hpow]
        rfl
      · rw [compare_gt_iff_gt.2 hgt, (cmp_eq_gt_iff _ _).2
          (hb.toRat_lt_of_exponent_lt ha hzero' hzero hgt)]
        rfl

theorem eq_zero_iff (h : p.Normal) : p = zero ↔ p.toRat = 0 := by
  constructor
  · rintro rfl
    exact toRat_zero
  · intro hvalue
    exact h.eq_zero_of_isZero ((toRat_eq_zero_iff p).1 hvalue)

theorem compare_le_iff (ha : a.Normal) (hb : b.Normal) :
    a.compare b ≠ .gt ↔ a.toRat ≤ b.toRat := by
  rw [ha.compare_eq hb, Ne, cmp_eq_gt_iff, not_lt]

end Normal

/-! ## Reaching the normal form -/

/-- The exponent that the point leaves behind. -/
def carried (d : Decimal) (exponent : Int) : Int := exponent + d.leading - d.scale

theorem normal_ofScaled {d : Decimal} {exponent : Int} (h : d.digits ≠ 0 → d.negative = false) :
    (ofScaled d exponent).Normal := by
  unfold ofScaled
  split
  · exact normal_zero
  · rename_i hdigits
    -- the bounds of the leading digit, without the zeros that are dropped
    have hsplit : d.digits = _ := Decimal.digits_trim (leadingForm d)
    have hle : (leadingForm d).trim.scale ≤ d.leading := Decimal.scale_trim_le (leadingForm d)
    have hpow : 10 ^ d.leading = 10 ^ (leadingForm d).trim.scale *
        10 ^ (d.leading - (leadingForm d).trim.scale) := by
      rw [← pow_add, Nat.add_sub_cancel' hle]
    have hlow := Decimal.tenPow_leading_le hdigits
    have hhigh := Decimal.lt_tenPow_leading d
    rw [hpow, hsplit] at hlow
    rw [pow_succ, hpow, hsplit, mul_right_comm, ← pow_succ] at hhigh
    refine .inr ⟨h hdigits, ?_, ?_, Decimal.dropZeros_trimmed _ _⟩
    · exact Nat.le_of_mul_le_mul_right hlow (by positivity)
    · exact Nat.lt_of_mul_lt_mul_right hhigh

/-- Moving the point keeps the value. -/
theorem toRat_ofScaled {d : Decimal} (h : d.digits ≠ 0 → d.negative = false) (exponent : Int) :
    (ofScaled d exponent).toRat = d.toRat * 10 ^ exponent := by
  unfold ofScaled
  split
  · rename_i hdigits
    simp [Decimal.toRat_eq_zero_of_digits hdigits]
  · rename_i hdigits
    have hneg := h hdigits
    have hneg' : (leadingForm d).negative = false := hneg
    have hmantissa : (leadingForm d).toRat = d.digits / 10 ^ d.leading :=
      Decimal.toRat_eq_of_nonneg hneg'
    unfold toRat
    rw [Decimal.toRat_trim, hmantissa, Decimal.toRat_eq_of_nonneg hneg,
      zpow_sub₀ (by norm_num), zpow_add₀ (by norm_num), zpow_natCast, zpow_natCast]
    field_simp

/-- The carry moves the exponent by at most 28. -/
theorem abs_carried_sub_le (d : Decimal) (exponent : Int) :
    |carried d exponent - exponent| ≤ 28 := by
  have hleading : d.leading ≤ 28 := d.leading_le
  have hscale := d.scale_le
  unfold carried
  rw [abs_le]
  omega

/-- The carry follows the order of magnitude, from above. -/
theorem carried_lt {d : Decimal} (h : d.negative = false) (hdigits : d.digits ≠ 0)
    (exponent : Int) {k : Int} (hk : d.toRat < 10 ^ k) : carried d exponent < exponent + k := by
  have hle : (10 : ℚ) ^ ((d.leading : ℤ) - d.scale) ≤ d.toRat := by
    rw [Decimal.toRat_eq_of_nonneg h, zpow_sub₀ (by norm_num), zpow_natCast, zpow_natCast]
    gcongr
    exact_mod_cast Decimal.tenPow_leading_le hdigits
  have := (zpow_lt_zpow_iff_right₀ (by norm_num : (1 : ℚ) < 10)).1 (hle.trans_lt hk)
  unfold carried
  omega

/-- The carry follows the order of magnitude, from below. -/
theorem le_carried {d : Decimal} (h : d.negative = false) (exponent : Int) {k : Int}
    (hk : 10 ^ k ≤ d.toRat) : exponent + k ≤ carried d exponent := by
  have hlt : d.toRat < (10 : ℚ) ^ ((d.leading : ℤ) + 1 - d.scale) := by
    rw [Decimal.toRat_eq_of_nonneg h, zpow_sub₀ (by norm_num), zpow_natCast,
      zpow_add_one₀ (by norm_num), zpow_natCast]
    gcongr
    exact_mod_cast Decimal.lt_tenPow_leading d
  have := (zpow_lt_zpow_iff_right₀ (by norm_num : (1 : ℚ) < 10)).1 (hk.trans_lt hlt)
  unfold carried
  omega

/-- A normal form is reached already. -/
theorem ofScaled_mantissa {p : Probability} (h : p.mantissa.IsMantissa) :
    ofScaled p.mantissa p.exponent = p := by
  refine (normal_ofScaled fun _ => h.negative).eq_of_toRat_eq (.inr h) ?_
  rw [toRat_ofScaled fun _ => h.negative, toRat]

theorem normal_ofDecimal_of_nonneg {d : Decimal} (h : 0 ≤ d.toRat) : (ofDecimal d).Normal :=
  normal_ofScaled (Decimal.negative_of_nonneg h)

/-- A decimal keeps its value in scaled form. -/
theorem toRat_ofDecimal_of_nonneg {d : Decimal} (h : 0 ≤ d.toRat) :
    (ofDecimal d).toRat = d.toRat := by
  unfold ofDecimal
  rw [toRat_ofScaled (Decimal.negative_of_nonneg h), zpow_zero, mul_one]

theorem normal_ofDecimal {d : Decimal} (h : d.InUnit) : (ofDecimal d).Normal :=
  normal_ofDecimal_of_nonneg h.toRat_nonneg

theorem toRat_ofDecimal {d : Decimal} (h : d.InUnit) : (ofDecimal d).toRat = d.toRat :=
  toRat_ofDecimal_of_nonneg h.toRat_nonneg

end Probability

end BeliefNet
