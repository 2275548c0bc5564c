import Mathlib
import BeliefNet.Proofs.Decimal.Crossing
import BeliefNet.Proofs.Probability.Significant

/-!
# Exponents at the ends of their range

The exponent of a scaled number is its order of magnitude (`exponent_ofScaled`). So
an operation whose exponents are in range overflows if and only if the order of
magnitude of its result is not, and that is a matter of one carry or borrow:

* a product of mantissas lies between one and a hundred, a quotient between a
  tenth and ten, and a sum between one and a hundred;
* so there is an overflow only with a carry at the upper end of the range, or a
  borrow at the lower (`inRange_log_iff`).

`Computed.exact_or_overflow` says this of every number that the operations can make
of decimals, and `exists_borrow_overflows` that it happens.
-/

namespace BeliefNet

namespace Decimal

/-- The decimal of one digit. -/
def ofDigit (n : Fin 10) : Decimal :=
  ⟨false, n, 0, n.isLt.trans (by decide), Nat.zero_le maxScale⟩

theorem toRat_ofDigit (n : Fin 10) : (ofDigit n).toRat = (n : ℕ) := by
  simp [toRat, coefficient, ofDigit]

theorem isMantissa_ofDigit {n : Fin 10} (h : n ≠ 0) : (ofDigit n).IsMantissa :=
  ⟨rfl, Nat.pos_of_ne_zero (Fin.val_ne_zero_iff.2 h), n.isLt, .inl rfl⟩

end Decimal

namespace Probability

open Decimal (Rounded maxScale ofDigit)

/-- What the operations make of decimals. -/
inductive Computed : Probability → Prop where
  | ofDecimal (d : Decimal) : Computed (ofDecimal d)
  | mul {a b c : Probability} (ha : Computed a) (hb : Computed b) (hc : a.mul b = some (.ok c)) :
      Computed c
  | div {a b c : Probability} (ha : Computed a) (hb : Computed b) (hc : a.div b = some (.ok c)) :
      Computed c
  | add {a b c : Probability} (ha : Computed a) (hb : Computed b) (hc : a.add b = some (.ok c)) :
      Computed c

variable {a b c large small : Probability} {d : Decimal} {e : Int} {x : ℚ}

/-! ## Results are scaled forms -/

theorem exists_of_mul? (h : a.mul? b = some c) : ∃ d e, c = ofScaled d e := by
  obtain ⟨found, hfound, rfl⟩ := Option.map_eq_some_iff.1 h
  unfold product at hfound
  split at hfound
  · cases hfound
    exact ⟨.zero, 0, rfl⟩
  · simp only [Option.bind_eq_bind, Option.bind_eq_some_iff] at hfound
    obtain ⟨mantissa, -, exponent, -, hc⟩ := hfound
    cases hc
    exact ⟨mantissa, exponent, rfl⟩

theorem exists_of_div? (h : a.div? b = some c) : ∃ d e, c = ofScaled d e := by
  obtain ⟨found, hfound, rfl⟩ := Option.map_eq_some_iff.1 h
  unfold quotient at hfound
  split at hfound
  · cases hfound
  split at hfound
  · cases hfound
    exact ⟨.zero, 0, rfl⟩
  · simp only [Option.bind_eq_bind, Option.bind_eq_some_iff] at hfound
    obtain ⟨mantissa, -, exponent, -, hc⟩ := hfound
    cases hc
    exact ⟨mantissa, exponent, rfl⟩

theorem eq_or_exists_of_addAligned? (h : addAligned? large small = some c) :
    c = large ∨ ∃ d e, c = ofScaled d e := by
  obtain ⟨found, hfound, rfl⟩ := Option.map_eq_some_iff.1 h
  unfold alignedSum? at hfound
  split at hfound
  · simp only [Option.bind_eq_bind, Option.bind_eq_some_iff] at hfound
    obtain ⟨shifted, -, mantissa, -, hc⟩ := hfound
    cases hc
    exact .inr ⟨mantissa, large.exponent, rfl⟩
  · cases hfound
    exact .inl rfl

/-- A sum with a term that does not count is the other term. -/
theorem eq_or_exists_of_add? (h : a.add? b = some c) : c = a ∨ c = b ∨ ∃ d e, c = ofScaled d e := by
  rw [add?_eq] at h
  split at h
  · cases h
    exact .inl rfl
  split at h
  · cases h
    exact .inr (.inl rfl)
  split at h
  · obtain rfl | hscaled := eq_or_exists_of_addAligned? h
    · exact .inl rfl
    · exact .inr (.inr hscaled)
  · exact .inr (eq_or_exists_of_addAligned? h)

theorem Computed.exists_eq (h : Computed a) : ∃ d e, a = ofScaled d e := by
  induction h with
  | ofDecimal d => exact ⟨d, 0, rfl⟩
  | mul _ _ hc => exact exists_of_mul? (mul?_of_mul hc)
  | div _ _ hc => exact exists_of_div? (div?_of_div hc)
  | add _ _ hc iha ihb =>
    obtain rfl | rfl | hscaled := eq_or_exists_of_add? (add?_of_add hc)
    · exact iha
    · exact ihb
    · exact hscaled

theorem ofDecimal_ofDigit {n : Fin 10} (h : n ≠ 0) : ofDecimal (ofDigit n) = ⟨ofDigit n, 0⟩ :=
  ofScaled_mantissa (p := ⟨ofDigit n, 0⟩) (Decimal.isMantissa_ofDigit h)

theorem inRange_ofDecimal (d : Decimal) : InRange (ofDecimal d).exponent := by
  have hcarried := abs_le.1 (abs_carried_sub_le d 0)
  unfold ofDecimal ofScaled InRange
  split
  · exact ⟨by decide, by decide⟩
  · show -2 ^ 31 ≤ carried d 0 ∧ carried d 0 < 2 ^ 31
    omega

theorem inRange_of_map_checkRange {found : Option Probability}
    (h : found.map checkRange = some (.ok c)) : InRange c.exponent := by
  obtain ⟨p, -, hp⟩ := Option.map_eq_some_iff.1 h
  obtain ⟨hrange, rfl⟩ := checkRange_eq_ok_iff.1 hp
  exact hrange

theorem Computed.inRange (h : Computed a) : InRange a.exponent := by
  induction h with
  | ofDecimal d => exact inRange_ofDecimal d
  | mul _ _ hc => exact inRange_of_map_checkRange ((mul_eq _ _).symm.trans hc)
  | div _ _ hc => exact inRange_of_map_checkRange ((div_eq _ _).symm.trans hc)
  | add _ _ hc iha ihb => exact inRange_of_map_checkRange ((add_eq iha ihb).symm.trans hc)

/-- A result that is not negative is in normal form, even if there were negative
numbers on the way. -/
theorem Computed.normal (h : Computed a) (hnonneg : 0 ≤ a.toRat) : a.Normal := by
  obtain ⟨d, e, rfl⟩ := h.exists_eq
  refine normal_ofScaled fun hdigits => ?_
  by_contra hneg
  rw [Bool.not_eq_false] at hneg
  have hpow : (0 : ℚ) < 10 ^ (ofScaled d e).exponent := by positivity
  have hmantissa : (ofScaled d e).mantissa.toRat = -(d.digits / 10 ^ d.leading) := by
    rw [ofScaled, if_neg hdigits, Decimal.toRat_trim]
    simp [Decimal.toRat, Decimal.coefficient, leadingForm, hneg, neg_div]
  have hpos : (0 : ℚ) < d.digits / 10 ^ d.leading := by positivity
  have hlt : (ofScaled d e).toRat < 0 := by
    rw [toRat, hmantissa]
    exact mul_neg_of_neg_of_pos (neg_neg_of_pos hpos) hpow
  linarith

/-! ## The exponent and the order of magnitude -/

theorem log_mul_zpow (hx : 0 < x) (e : ℤ) : Int.log 10 (x * 10 ^ e) = Int.log 10 x + e := by
  have hpow : (0 : ℚ) < 10 ^ e := by positivity
  refine log_eq_of_bounds ?_ ?_
  · rw [zpow_add₀ (by norm_num)]
    gcongr
    exact pow_log_le hx
  · rw [add_right_comm, zpow_add₀ (by norm_num) _ e]
    gcongr
    exact lt_pow_log x

/-- The exponent is the order of magnitude of the number that is scaled. -/
theorem exponent_ofScaled (h : d.digits ≠ 0 → d.negative = false) (e : Int) :
    (ofScaled d e).exponent = Int.log 10 (d.toRat * 10 ^ e) := by
  by_cases hdigits : d.digits = 0
  · rw [ofScaled, if_pos hdigits, Decimal.toRat_eq_zero_of_digits hdigits, zero_mul,
      Int.log_zero_right]
    rfl
  · have hneg := h hdigits
    have hpos : 0 < d.toRat := by
      rw [Decimal.toRat_eq_of_nonneg hneg]
      positivity
    have hlow := le_carried hneg e (pow_log_le hpos)
    have hhigh := carried_lt hneg hdigits e (lt_pow_log d.toRat)
    rw [ofScaled, if_neg hdigits, log_mul_zpow hpos]
    show carried d e = _
    omega

/-- A number between a tenth and a hundred carries or borrows one at most, and
that leaves the range only at its ends. -/
theorem inRange_log_iff (he : InRange e) (hlow : 1 / 10 ≤ x) (hhigh : x < 100) :
    InRange (Int.log 10 (x * 10 ^ e)) ↔
      ¬(e = 2 ^ 31 - 1 ∧ 10 ≤ x) ∧ ¬(e = -2 ^ 31 ∧ x < 1) := by
  have hx : 0 < x := by linarith
  rw [log_mul_zpow hx]
  obtain ⟨hleast, hmost⟩ := he
  unfold InRange
  rcases lt_or_ge x 1 with hone | hone
  · have hlog : Int.log 10 x = -1 := log_eq_of_bounds (by norm_num at hlow ⊢; exact hlow)
      (by norm_num; exact hone)
    have hten : ¬10 ≤ x := by linarith
    simp only [hlog, hten, hone, and_false, not_false_eq_true, true_and, and_true]
    omega
  · rcases lt_or_ge x 10 with hten | hten
    · have hlog : Int.log 10 x = 0 := log_eq_of_bounds (by simpa using hone)
        (by norm_num; exact hten)
      simp only [hlog, hten.not_ge, hone.not_gt, and_false, not_false_eq_true, and_self, iff_true]
      omega
    · have hlog : Int.log 10 x = 1 := log_eq_of_bounds (by simpa using hten)
        (by norm_num; exact hhigh)
      simp only [hlog, hten, hone.not_gt, and_false, not_false_eq_true, and_true]
      omega

theorem checkRange_eq_error_iff {p : Probability} :
    checkRange p = .error .exponent ↔ ¬InRange p.exponent := by
  unfold checkRange
  split
  · rename_i h
    simp [h]
  · rename_i h
    simp [h]

/-- A number that is not negative is scaled, or too large or too small for that by
one step. -/
theorem checkRange_ofScaled (he : InRange e) (h : d.digits ≠ 0 → d.negative = false)
    (hlow : 1 / 10 ≤ d.toRat) (hhigh : d.toRat < 100) :
    (checkRange (ofScaled d e) = .error .exponent ↔
      e = 2 ^ 31 - 1 ∧ 10 ≤ d.toRat ∨ e = -2 ^ 31 ∧ d.toRat < 1) ∧
    ∀ c, checkRange (ofScaled d e) = .ok c → c.exponent = Int.log 10 (d.toRat * 10 ^ e) := by
  constructor
  · rw [checkRange_eq_error_iff, exponent_ofScaled h, inRange_log_iff he hlow hhigh]
    tauto
  · intro c hc
    obtain ⟨-, rfl⟩ := checkRange_eq_ok_iff.1 hc
    exact exponent_ofScaled h e

/-- A result is scaled if its exponent is in range before the mantissa is brought
to its form. -/
theorem eq_of_map_exponent? (h : (exponent? e).map (ofScaled d) = some c) :
    InRange e ∧ c = ofScaled d e := by
  by_cases hrange : InRange e
  · rw [exponent?_of_inRange hrange] at h
    exact ⟨hrange, (Option.some.inj h).symm⟩
  · rw [exponent?_eq_none_iff.2 hrange] at h
    cases h

/-! ## Products -/

/-- The largest mantissa has 28 nines. -/
theorem toRat_le_nines (h : a.mantissa.IsMantissa) :
    a.mantissa.toRat ≤ ((10 ^ 28 - 1 : ℕ) : ℚ) * 10 ^ (-27 : ℤ) := by
  have hunits : (a.mantissa.units : ℚ) + 10 ≤ 10 ^ 29 := by exact_mod_cast units_add_ten_le h
  rw [Decimal.units_eq h.negative] at hunits
  norm_num at hunits ⊢
  linarith

theorem keepsSide_of_mul (ha : a.mantissa.IsMantissa) (hb : b.mantissa.IsMantissa)
    (hd : Rounded (a.mantissa.digits * b.mantissa.digits)
      (tenPow (a.mantissa.scale + b.mantissa.scale))
      (min maxScale (a.mantissa.scale + b.mantissa.scale)) d) :
    KeepsSide 28 (a.mantissa.toRat * b.mantissa.toRat) d.toRat := by
  have hone := one_le_mul_of_one_le_of_one_le ha.one_le_toRat hb.one_le_toRat
  rw [← ha.mul_ratio hb] at hone ⊢
  exact hd.keepsSide (tenPow_pos _) (by linarith) (a.mantissa.mul_places b.mantissa)

/-- Rounding a product of mantissas does not reach a hundred. -/
theorem bounds_of_mul (ha : a.mantissa.IsMantissa) (hb : b.mantissa.IsMantissa)
    (hside : KeepsSide 28 (a.mantissa.toRat * b.mantissa.toRat) d.toRat) :
    1 ≤ d.toRat ∧ d.toRat < 100 := by
  have hone := one_le_mul_of_one_le_of_one_le ha.one_le_toRat hb.one_le_toRat
  have hnines : a.mantissa.toRat * b.mantissa.toRat ≤
      ((10 ^ 28 - 1 : ℕ) : ℚ) * 10 ^ (-26 : ℤ) := by
    have hmul := mul_le_mul (toRat_le_nines ha) (toRat_le_nines hb) hb.toRat_pos.le (by positivity)
    norm_num at hmul ⊢
    linarith
  constructor
  · simpa using hside.le _ (isShort_zpow 28 0) (by simpa using hone)
  · have hle := hside.ge _ ⟨10 ^ 28 - 1, -26, by omega, rfl⟩ hnines
    norm_num at hle
    linarith

/-- A product with zero is zero, and any other the scaled product of the
mantissas. -/
theorem mul?_cases (ha : a.Normal) (hb : b.Normal) :
    ((a.toRat = 0 ∨ b.toRat = 0) ∧ a.mantissa.mul? b.mantissa = some .zero ∧
      a.mul? b = some zero) ∨
    (¬(a.toRat = 0 ∨ b.toRat = 0) ∧ ∃ d, a.mantissa.mul? b.mantissa = some d ∧
      d.negative = false ∧ 1 ≤ d.toRat ∧ d.toRat < 100 ∧
      a.mul? b = (exponent? (a.exponent + b.exponent)).map (ofScaled d)) := by
  rw [toRat_eq_zero_iff, toRat_eq_zero_iff]
  by_cases hzero : a.isZero = true ∨ b.isZero = true
  · refine .inl ⟨hzero, ?_, ?_⟩
    · rw [isZero_iff_digits, isZero_iff_digits] at hzero
      rw [Decimal.mul?, if_pos hzero]
    · rw [mul?, product, if_pos (by simpa using hzero)]
      rfl
  · refine .inr ⟨hzero, ?_⟩
    rw [not_or] at hzero
    obtain ⟨hza, hzb⟩ := hzero
    obtain ⟨d, hd, hrounded⟩ := (ha.isMantissa hza).exists_mul? (hb.isMantissa hzb)
    obtain ⟨hone, hhundred⟩ := bounds_of_mul (ha.isMantissa hza) (hb.isMantissa hzb)
      (keepsSide_of_mul (ha.isMantissa hza) (hb.isMantissa hzb) hrounded)
    exact ⟨d, hd, hrounded.negative, hone, hhundred, mul?_eq hza hzb hd⟩

/-- A product is missing if its exponents are out of range, and overflows with a
carry at the upper end. -/
theorem mul_exact_or_overflow (ha : a.Normal) (hb : b.Normal) :
    (a.mul b = none ↔ a.toRat ≠ 0 ∧ b.toRat ≠ 0 ∧ ¬InRange (a.exponent + b.exponent)) ∧
    ∃ d, a.mantissa.mul? b.mantissa = some d ∧
      (a.mul b = some (.error .exponent) ↔
        a.exponent + b.exponent = 2 ^ 31 - 1 ∧ 10 ≤ d.toRat) ∧
      ∀ c, a.mul b = some (.ok c) →
        c.exponent = Int.log 10 (d.toRat * 10 ^ (a.exponent + b.exponent)) := by
  rw [← and_assoc (a := a.toRat ≠ 0), ← not_or, mul_eq]
  obtain ⟨hzero, hd, hmul⟩ | ⟨hzero, d, hd, hneg, hone, hhundred, hmul⟩ := mul?_cases ha hb
  · rw [hmul, Option.map_some, checkRange_of_inRange inRange_zero]
    refine ⟨by simp [hzero], .zero, hd, by simp, ?_⟩
    rintro c ⟨⟩
    simp [zero]
  · rw [hmul]
    by_cases hrange : InRange (a.exponent + b.exponent)
    · obtain ⟨herror, hok⟩ :=
        checkRange_ofScaled hrange (fun _ => hneg) (by linarith) hhundred
      rw [exponent?_of_inRange hrange]
      refine ⟨by simp [hrange], d, hd, ?_, fun c hc => hok c (Option.some.inj hc)⟩
      rw [Option.map_some, Option.map_some, Option.some_inj, herror]
      simp [hone.not_gt]
    · rw [exponent?_eq_none_iff.2 hrange]
      refine ⟨by simp [hrange, hzero], d, hd, ?_, fun c hc => by cases hc⟩
      -- an exponent at the end is in range
      refine iff_of_false (by simp) fun h => hrange ?_
      rw [h.1]
      exact ⟨by norm_num, by norm_num⟩

/-! ## Quotients -/

theorem keepsSide_of_div (ha : a.mantissa.IsMantissa) (hb : b.mantissa.IsMantissa)
    (hd : Rounded (a.mantissa.digits * tenPow b.mantissa.scale)
      (b.mantissa.digits * tenPow a.mantissa.scale) maxScale d) :
    KeepsSide 28 (a.mantissa.toRat / b.mantissa.toRat) d.toRat := by
  have htenth := one_tenth_le_div ha hb
  rw [← ha.div_ratio hb] at htenth ⊢
  exact hd.keepsSide (div_den_pos hb) htenth (.inl rfl)

/-- Rounding a quotient of mantissas does not reach ten. -/
theorem bounds_of_div (ha : a.mantissa.IsMantissa) (hb : b.mantissa.IsMantissa)
    (hside : KeepsSide 28 (a.mantissa.toRat / b.mantissa.toRat) d.toRat) :
    1 / 10 ≤ d.toRat ∧ d.toRat < 10 := by
  have htenth := one_tenth_le_div ha hb
  have hnines : a.mantissa.toRat / b.mantissa.toRat ≤
      ((10 ^ 28 - 1 : ℕ) : ℚ) * 10 ^ (-27 : ℤ) :=
    (div_le_self ha.toRat_pos.le hb.one_le_toRat).trans (toRat_le_nines ha)
  constructor
  · have hle := hside.le _ (isShort_zpow 28 (-1)) (by norm_num at htenth ⊢; exact htenth)
    norm_num at hle ⊢
    exact hle
  · have hle := hside.ge _ ⟨10 ^ 28 - 1, -27, by omega, rfl⟩ hnines
    norm_num at hle
    linarith

theorem exists_zero_div? (hd : d.digits ≠ 0) :
    ∃ q, Decimal.zero.div? d = some q ∧ q.toRat = 0 := by
  have hden : 0 < d.digits * tenPow Decimal.zero.scale :=
    Nat.mul_pos (Nat.pos_of_ne_zero hd) (tenPow_pos _)
  have hnone (k : Nat) :
      roundQuotient .toEven (0 * k) (d.digits * tenPow Decimal.zero.scale) = 0 := by
    rw [Nat.zero_mul, roundQuotient_zero _ hden]
  obtain ⟨q, hq, hrounded⟩ := Decimal.exists_ofRatio? hden
    (by simpa using (hnone 0).trans_lt (by decide : 0 < twoPow 96)) (le_refl maxScale)
  refine ⟨q.trim, ?_, ?_⟩
  · rw [Decimal.div?, if_neg hd, show Decimal.zero.coefficient = 0 from rfl, zero_mul, zero_mul]
    exact congrArg (Option.map Decimal.trim) hq
  · rw [Decimal.toRat_trim]
    exact Decimal.toRat_eq_zero_of_digits (hrounded.digits.trans (hnone _))

/-- Nothing is divided by zero, zero by anything is zero, and any other quotient
is the scaled one of the mantissas. -/
theorem div?_cases (ha : a.Normal) (hb : b.Normal) :
    (b.toRat = 0 ∧ a.div? b = none) ∨
    (b.toRat ≠ 0 ∧ a.toRat = 0 ∧ a.div? b = some zero ∧
      ∃ d, a.mantissa.div? b.mantissa = some d ∧ d.toRat = 0) ∨
    (b.toRat ≠ 0 ∧ a.toRat ≠ 0 ∧ ∃ d, a.mantissa.div? b.mantissa = some d ∧
      d.negative = false ∧ 1 / 10 ≤ d.toRat ∧ d.toRat < 10 ∧
      KeepsSide 28 (a.mantissa.toRat / b.mantissa.toRat) d.toRat ∧
      a.div? b = (exponent? (a.exponent - b.exponent)).map (ofScaled d)) := by
  rw [Ne, Ne, toRat_eq_zero_iff, toRat_eq_zero_iff]
  by_cases hzb : b.isZero = true
  · exact .inl ⟨hzb, by rw [div?, quotient, if_pos hzb]; rfl⟩
  have hmb := hb.isMantissa hzb
  by_cases hza : a.isZero = true
  · refine .inr (.inl ⟨hzb, hza, div?_of_isZero hzb hza, ?_⟩)
    rw [ha.eq_zero_of_isZero hza]
    exact exists_zero_div? hmb.digits_ne_zero
  · have hma := ha.isMantissa hza
    obtain ⟨d, hd, hrounded⟩ := hma.exists_div? hmb
    have hside := keepsSide_of_div hma hmb hrounded
    rw [← Decimal.toRat_trim d] at hside
    obtain ⟨htenth, hten⟩ := bounds_of_div hma hmb hside
    exact .inr (.inr ⟨hzb, hza, d.trim, hd, hrounded.negative, htenth, hten, hside,
      div?_eq hza hzb hd⟩)

/-- A quotient is missing if its exponents are out of range, or the divisor is zero,
and overflows with a borrow at the lower end. -/
theorem div_exact_or_overflow (ha : a.Normal) (hb : b.Normal) (hrange : InRange b.exponent) :
    (a.div b = none ↔ b.toRat = 0 ∨ a.toRat ≠ 0 ∧ ¬InRange (a.exponent - b.exponent)) ∧
    (b.toRat ≠ 0 → ∃ d, a.mantissa.div? b.mantissa = some d ∧
      (a.div b = some (.error .exponent) ↔
        a.exponent - b.exponent = -2 ^ 31 ∧ d.toRat < 1) ∧
      ∀ c, a.div b = some (.ok c) →
        c.exponent = Int.log 10 (d.toRat * 10 ^ (a.exponent - b.exponent))) := by
  rw [div_eq]
  obtain ⟨hzb, hdiv⟩ | ⟨hzb, hza, hdiv, d, hd, hvalue⟩ |
    ⟨hzb, hza, d, hd, hneg, htenth, hten, -, hdiv⟩ := div?_cases ha hb
  · rw [hdiv]
    exact ⟨by simp [hzb], fun h => absurd hzb h⟩
  · rw [hdiv, Option.map_some, checkRange_of_inRange inRange_zero]
    refine ⟨by simp [hzb, hza], fun _ => ⟨d, hd, ?_, ?_⟩⟩
    · -- zero has the exponent zero
      rw [ha.eq_zero_iff.2 hza]
      refine iff_of_false (by simp) fun h => ?_
      have hend := h.1
      simp only [zero] at hend
      unfold InRange at hrange
      omega
    · rintro c ⟨⟩
      simp [zero, hvalue]
  · rw [hdiv]
    by_cases hexponent : InRange (a.exponent - b.exponent)
    · obtain ⟨herror, hok⟩ :=
        checkRange_ofScaled hexponent (fun _ => hneg) htenth (by linarith)
      rw [exponent?_of_inRange hexponent]
      refine ⟨by simp [hexponent, hzb], fun _ => ⟨d, hd, ?_, fun c hc => ?_⟩⟩
      · rw [Option.map_some, Option.map_some, Option.some_inj, herror]
        simp [hten.not_ge]
      · exact hok c (Option.some.inj hc)
    · rw [exponent?_eq_none_iff.2 hexponent]
      refine ⟨by simp [hexponent, hza], fun _ => ⟨d, hd, ?_, fun c hc => by cases hc⟩⟩
      refine iff_of_false (by simp) fun h => hexponent ?_
      rw [h.1]
      exact ⟨by norm_num, by norm_num⟩

/-! ## Sums -/

/-- Whether a sum with this value overflows, if the exponent of its larger term is `e`:
with a carry at the upper end, and only there. Otherwise its exponent is the true one. -/
structure Carries (e : ℤ) (value : ℚ) (sum : Probability) : Prop where
  overflows : checkRange sum = .error .exponent ↔
    e = 2 ^ 31 - 1 ∧ (10 : ℚ) ^ (e + 1) ≤ value
  exact : ∀ r, checkRange sum = .ok r → r.exponent = Int.log 10 value

/-- A sum of two numbers that are not zero. -/
theorem exists_addAligned?_carries (hl : large.mantissa.IsMantissa)
    (hs : small.mantissa.IsMantissa) (hrange : InRange large.exponent) :
    ∃ sum, addAligned? large small = some sum ∧
      Carries large.exponent (alignedSum large small) sum := by
  obtain ⟨d, hadd, hneg, hone, hhundred, hvalue⟩ := exists_addAligned?_eq hl hs
  obtain ⟨herror, hok⟩ := checkRange_ofScaled hrange (fun _ => hneg) (by linarith) hhundred
  have hpow : (0 : ℚ) < 10 ^ large.exponent := by positivity
  refine ⟨_, hadd, ?_, fun r hr => hvalue ▸ hok r hr⟩
  rw [herror, ← hvalue, zpow_add_one₀ (by norm_num), mul_comm ((10 : ℚ) ^ large.exponent),
    mul_le_mul_iff_left₀ hpow]
  simp [hone.not_gt]

/-- A normal form has the exponent of its value, and is below the next power of
ten. -/
theorem Normal.exponent_eq_log (h : a.Normal) : a.exponent = Int.log 10 a.toRat := by
  rcases h with rfl | hmantissa
  · rw [toRat_zero, Int.log_zero_right]
    rfl
  · exact (Normal.log_toRat (.inr hmantissa) (not_isZero hmantissa)).symm

theorem Normal.toRat_lt_pow (h : a.Normal) (he : a.exponent ≤ e) : a.toRat < 10 ^ (e + 1) := by
  by_cases hzero : a.isZero = true
  · rw [(toRat_eq_zero_iff a).2 hzero]
    positivity
  · calc a.toRat
        < 10 ^ (a.exponent + 1) := h.lt_pow_exponent hzero
      _ ≤ 10 ^ (e + 1) := zpow_le_zpow_right₀ (by norm_num) (by omega)

/-- A term that the sum leaves as it is has been in range before. -/
theorem Normal.carries (h : a.Normal) (hrange : InRange a.exponent) (he : a.exponent ≤ e) :
    Carries e a.toRat a := by
  constructor
  · rw [checkRange_eq_error_iff]
    exact iff_of_false (not_not.2 hrange) fun hcarry =>
      absurd hcarry.2 (h.toRat_lt_pow he).not_ge
  · intro r hr
    obtain ⟨-, rfl⟩ := checkRange_eq_ok_iff.1 hr
    exact h.exponent_eq_log

theorem exists_add?_carries (ha : a.Normal) (hb : b.Normal) (hrange : InRange a.exponent)
    (hrange' : InRange b.exponent) :
    ∃ sum, a.add? b = some sum ∧ Carries (max a.exponent b.exponent) (roundedSum a b) sum := by
  rw [add?_eq]
  unfold roundedSum
  split
  · exact ⟨a, rfl, ha.carries hrange (le_max_left _ _)⟩
  rename_i hzero'
  split
  · exact ⟨b, rfl, hb.carries hrange' (le_max_right _ _)⟩
  rename_i hzero
  split
  · rename_i hle
    rw [max_eq_left hle]
    exact exists_addAligned?_carries (ha.isMantissa hzero) (hb.isMantissa hzero') hrange
  · rename_i hlt
    rw [max_eq_right (by omega)]
    exact exists_addAligned?_carries (hb.isMantissa hzero') (ha.isMantissa hzero) hrange'

/-- There is always a sum, unless it overflows with a carry at the upper end. -/
theorem add_exact_or_overflow (ha : a.Normal) (hb : b.Normal) (hrange : InRange a.exponent)
    (hrange' : InRange b.exponent) :
    a.add b ≠ none ∧
    (a.add b = some (.error .exponent) ↔
      max a.exponent b.exponent = 2 ^ 31 - 1 ∧
        (10 : ℚ) ^ (max a.exponent b.exponent + 1) ≤ roundedSum a b) ∧
    ∀ c, a.add b = some (.ok c) → c.exponent = Int.log 10 (roundedSum a b) := by
  obtain ⟨sum, hsum, hcarries⟩ := exists_add?_carries ha hb hrange hrange'
  rw [add_eq hrange hrange', hsum, Option.map_some]
  refine ⟨Option.some_ne_none _, ?_, fun c hc => hcarries.exact c (Option.some.inj hc)⟩
  rw [Option.some_inj, hcarries.overflows]

/-! ## All operations -/

/-- Numbers that are not negative and come from decimals by any operations have a
product, a quotient and a sum with the true exponent, unless there is none or the
operation overflows. There is no product and no quotient if the exponents are out of
range before the mantissa is brought to its form, and no quotient by zero. A product
and a sum overflow if they carry at the upper end of the range, and a quotient if it
borrows at the lower. -/
theorem Computed.exact_or_overflow (ha : a.Computed) (hb : b.Computed) (hna : 0 ≤ a.toRat)
    (hnb : 0 ≤ b.toRat) :
    ((a.mul b = none ↔ a.toRat ≠ 0 ∧ b.toRat ≠ 0 ∧ ¬InRange (a.exponent + b.exponent)) ∧
      ∃ d, a.mantissa.mul? b.mantissa = some d ∧
        (a.mul b = some (.error .exponent) ↔
          a.exponent + b.exponent = 2 ^ 31 - 1 ∧ 10 ≤ d.toRat) ∧
        ∀ c, a.mul b = some (.ok c) →
          c.exponent = Int.log 10 (d.toRat * 10 ^ (a.exponent + b.exponent))) ∧
    ((a.div b = none ↔ b.toRat = 0 ∨ a.toRat ≠ 0 ∧ ¬InRange (a.exponent - b.exponent)) ∧
      (b.toRat ≠ 0 → ∃ d, a.mantissa.div? b.mantissa = some d ∧
        (a.div b = some (.error .exponent) ↔
          a.exponent - b.exponent = -2 ^ 31 ∧ d.toRat < 1) ∧
        ∀ c, a.div b = some (.ok c) →
          c.exponent = Int.log 10 (d.toRat * 10 ^ (a.exponent - b.exponent)))) ∧
    (a.add b ≠ none ∧
      (a.add b = some (.error .exponent) ↔
        max a.exponent b.exponent = 2 ^ 31 - 1 ∧
          (10 : ℚ) ^ (max a.exponent b.exponent + 1) ≤ roundedSum a b) ∧
      ∀ c, a.add b = some (.ok c) → c.exponent = Int.log 10 (roundedSum a b)) := by
  have hxa := ha.normal hna
  have hxb := hb.normal hnb
  exact ⟨mul_exact_or_overflow hxa hxb, div_exact_or_overflow hxa hxb hb.inRange,
    add_exact_or_overflow hxa hxb ha.inRange hb.inRange⟩

/-- Five times five carries, and the exponent counts it. -/
theorem five_exact_or_overflow :
    0 ≤ (ofDecimal (ofDigit 5)).toRat ∧ ∃ c d,
      (ofDecimal (ofDigit 5)).mul (ofDecimal (ofDigit 5)) = some (.ok c) ∧
      (ofDecimal (ofDigit 5)).mantissa.mul? (ofDecimal (ofDigit 5)).mantissa = some d ∧
      c.exponent = 1 ∧ Int.log 10 (d.toRat * 10 ^ (0 + 0)) = 1 := by
  have hnonneg : 0 ≤ (ofDecimal (ofDigit 5)).toRat :=
    (normal_ofScaled fun _ => rfl : (ofDecimal (ofDigit 5)).Normal).toRat_nonneg
  have hfive : (ofDecimal (ofDigit 5)).Computed := .ofDecimal (ofDigit 5)
  obtain ⟨⟨-, d, hd, -, hexponent⟩, -⟩ := hfive.exact_or_overflow hfive hnonneg hnonneg
  have hexact : (ofDecimal (ofDigit 5)).mul? (ofDecimal (ofDigit 5)) =
      some ⟨⟨false, 25, 1, by decide, by decide⟩, 1⟩ := by
    decide +kernel
  have hmul := mul_of_mul? hexact ⟨by decide, by decide⟩
  have hexp : (ofDecimal (ofDigit 5)).exponent = 0 := by
    rw [ofDecimal_ofDigit (by decide)]
  have hlog := hexponent _ hmul
  rw [hexp] at hlog
  exact ⟨hnonneg, _, d, hmul, hd, rfl, hlog.symm⟩

/-! ## The borrow at the lower end -/

/-- The square of a power of ten. -/
theorem mul_powers (he : InRange (e + e)) :
    (⟨.one, e⟩ : Probability).mul ⟨.one, e⟩ = some (.ok ⟨.one, e + e⟩) := by
  have hzero : ¬(⟨.one, e⟩ : Probability).isZero = true := by simp [isZero, Decimal.one]
  have hone : Decimal.one.mul? Decimal.one = some .one := by decide
  have hscaled := ofScaled_mantissa (p := ⟨.one, e + e⟩) Decimal.isMantissa_one
  refine mul_of_mul? ?_ he
  rw [mul?_eq hzero hzero hone, exponent?_of_inRange he, Option.map_some, hscaled]

/-- Squaring a tenth again and again doubles the exponent, down to the end of the
range. -/
theorem computed_powers {k : Nat} (hk : k ≤ 31) : Computed ⟨.one, -2 ^ k⟩ := by
  induction k with
  | zero =>
    have htenth : ofDecimal (unit 1 (by decide)) = ⟨.one, -2 ^ 0⟩ := by decide
    rw [← htenth]
    exact .ofDecimal _
  | succ k ih =>
    have hpow : (2 : ℤ) ^ (k + 1) ≤ 2 ^ 31 := pow_le_pow_right₀ (by norm_num) hk
    have hpos : (0 : ℤ) < 2 ^ (k + 1) := by positivity
    have hsum : -(2 : ℤ) ^ k + -2 ^ k = -2 ^ (k + 1) := by ring
    have hsquare := mul_powers (e := -2 ^ k) (by rw [hsum]; exact ⟨by omega, by omega⟩)
    rw [hsum] at hsquare
    exact .mul (ih (by omega)) (ih (by omega)) hsquare

theorem log_half (e : ℤ) : Int.log 10 ((⟨.one, e⟩ : Probability).toRat / 2) = e - 1 := by
  have hhalf : Int.log 10 (1 / 2 : ℚ) = -1 := log_eq_of_bounds (by norm_num) (by norm_num)
  have hsplit : (⟨.one, e⟩ : Probability).toRat / 2 = 1 / 2 * 10 ^ e := by
    rw [toRat, Decimal.toRat_one]
    ring
  rw [hsplit, log_mul_zpow (by norm_num), hhalf]
  ring

/-- Half of the least power of ten is no number with an exponent of 32 bits, and to
compute it is an overflow. -/
theorem exists_borrow_overflows :
    ∃ a b : Probability, a.Computed ∧ b.Computed ∧ 0 ≤ a.toRat ∧ 0 ≤ b.toRat ∧
      a.div b = some (.error .exponent) ∧
      Int.log 10 (a.toRat / b.toRat) = -2 ^ 31 - 1 := by
  have hvalue : (ofDecimal (ofDigit 2)).toRat = 2 := by
    rw [ofDecimal_ofDigit (by decide), toRat, Decimal.toRat_ofDigit]
    norm_num
  have hhalf : (⟨.one, -2 ^ 31⟩ : Probability).div? (ofDecimal (ofDigit 2)) =
      some ⟨ofDigit 5, -2 ^ 31 - 1⟩ := by
    decide +kernel
  refine ⟨⟨.one, -2 ^ 31⟩, ofDecimal (ofDigit 2), computed_powers (le_refl 31),
    .ofDecimal (ofDigit 2), ?_, ?_, ?_, ?_⟩
  · exact Normal.toRat_nonneg (.inr Decimal.isMantissa_one)
  · rw [hvalue]
    norm_num
  · rw [div_eq, hhalf, Option.map_some, Option.some_inj, checkRange_eq_error_iff]
    exact fun h => absurd h.1 (by decide)
  · rw [hvalue, log_half]

end Probability

end BeliefNet
