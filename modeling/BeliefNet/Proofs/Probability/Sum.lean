import Mathlib
import BeliefNet.Proofs.Probability.Normalization
import BeliefNet.Proofs.Probability.RelativeError

/-!
# Sums of probabilities

A sum is computed in units of `10 ^ -28` of the larger exponent. The smaller
term is shifted and rounded to units, or dropped (`alignUnits`); if the sum of
the units has no room it is rounded to tens (`keepDigits`). `roundedSum` is the
value that results, and `exists_add?` says that `add?` computes it.

On natural numbers the properties of the addition are short:

* it costs at most one rounding (`within_roundedSum`);
* it keeps the order (`roundedSum_le_roundedSum`), and is at least as large as
  each of its terms (`le_roundedSum_left`, `le_roundedSum_right`).
-/

namespace BeliefNet

namespace Decimal

/-- The number of units of `10 ^ -28` in a decimal. -/
def units (d : Decimal) : Nat := d.digits * 10 ^ (28 - d.scale)

theorem units_eq {d : Decimal} (h : d.negative = false) : (d.units : ℚ) = d.toRat * 10 ^ 28 := by
  have hpow : (10 : ℚ) ^ 28 = 10 ^ d.scale * 10 ^ (28 - d.scale) := by
    rw [← pow_add, Nat.add_sub_cancel' d.scale_le]
  rw [hpow, ← mul_assoc, toRat_mul_pow h, units]
  push_cast
  rfl

namespace IsMantissa

variable {d : Decimal}

theorem le_units (h : d.IsMantissa) : 10 ^ 28 ≤ d.units := by
  have hle : (10 ^ 28 : ℚ) ≤ d.units := by
    rw [units_eq h.negative]
    linarith [h.one_le_toRat]
  exact_mod_cast hle

theorem units_lt (h : d.IsMantissa) : d.units < 10 ^ 29 := by
  have hlt : (d.units : ℚ) < 10 ^ 29 := by
    rw [units_eq h.negative]
    linarith [h.toRat_lt_ten]
  exact_mod_cast hlt

end IsMantissa

/-- A decimal with 28 places has few digits; any other is a number of tens of
units. -/
theorem units_room (d : Decimal) : d.units < twoPow 96 ∨ 10 ∣ d.units := by
  rcases d.scale_le.eq_or_lt with heq | hlt
  · left
    unfold units
    rw [heq]
    simpa using d.digits_lt
  · right
    refine Dvd.dvd.mul_left (dvd_pow_self 10 ?_) _
    omega

end Decimal

/-! ## Units -/

/-- The units of a sum that fit into a decimal. -/
def keepDigits (units : Nat) : Nat :=
  if units < twoPow 96 then units else 10 * roundQuotient .toEven units 10

/-- The units of a term `shift` powers of ten below. -/
def alignUnits (shift units : Nat) : Nat :=
  if shift ≤ 28 then roundQuotient .toEven units (10 ^ shift) else 0

/-- Units that fit are kept. -/
theorem keepDigits_eq {n : Nat} (h : n < twoPow 96 ∨ 10 ∣ n) : keepDigits n = n := by
  unfold keepDigits
  split
  · rfl
  · rename_i hroom
    obtain ⟨m, rfl⟩ := h.resolve_left hroom
    rw [Nat.mul_comm 10 m, roundQuotient_mul_self _ _ (by decide), Nat.mul_comm]

/-- A bound in tens is kept. -/
theorem keepDigits_le {n m : Nat} (h : n ≤ 10 * m) : keepDigits n ≤ 10 * m := by
  unfold keepDigits
  split
  · exact h
  · exact Nat.mul_le_mul_left _ (roundQuotient_le_of_le _ (by decide) (by omega))

/-- The least number of units without room is not rounded below those with
room. -/
theorem keepDigits_mono {n m : Nat} (h : n ≤ m) : keepDigits n ≤ keepDigits m := by
  have hroom : twoPow 96 = 79228162514264337593543950336 := rfl
  have hnear := two_mul_num_le .toEven m (by decide : 0 < 10)
  unfold keepDigits
  split
  · split
    · exact h
    · omega
  · rw [if_neg (by omega)]
    exact Nat.mul_le_mul_left _ (roundQuotient_mono _ (by decide) h)

/-- What is not kept is at most half of ten units, and nothing of a number of
units with room. -/
theorem abs_keepDigits_sub_le (n : Nat) :
    |(keepDigits n : ℚ) - n| ≤ 5 ∧ (n < twoPow 96 → keepDigits n = n) := by
  refine ⟨?_, fun h => keepDigits_eq (.inl h)⟩
  unfold keepDigits
  split
  · simp
  · have hnear := abs_le.1 (abs_roundQuotient_sub_le .toEven n (by decide : 0 < 10))
    push_cast at hnear ⊢
    rw [abs_le]
    constructor <;> linarith

/-- Digits at the most places with room are the units that are kept. -/
theorem keepDigits_of_full {n places scale digits : Nat} (hn : n ≤ 2 * 10 ^ 29)
    (hplaces : places ≤ 28) (hdvd : 10 ^ (28 - places) ∣ n) (hscale : scale ≤ places)
    (hroom : digits < twoPow 96)
    (hdigits : digits = roundQuotient .toEven n (10 ^ (28 - scale)))
    (hfull : ∀ k, scale < k → k ≤ places →
      twoPow 96 ≤ roundQuotient .toEven n (10 ^ (28 - k))) :
    keepDigits n = digits * 10 ^ (28 - scale) := by
  have hconst : twoPow 96 = 79228162514264337593543950336 := rfl
  obtain ⟨m, hm⟩ := hdvd
  have hinteger : roundQuotient .toEven n (10 ^ (28 - places)) = m := by
    rw [hm, Nat.mul_comm, roundQuotient_mul_self _ _ (by positivity)]
  rcases hscale.eq_or_lt with rfl | hlt
  · -- all the places asked for have room
    rw [hinteger] at hdigits
    rw [hdigits, Nat.mul_comm, ← hm, keepDigits_eq]
    rcases hplaces.eq_or_lt with rfl | hlt
    · rw [Nat.sub_self, pow_zero, one_mul] at hm
      omega
    · right
      rw [hm]
      exact Dvd.dvd.mul_right (dvd_pow_self 10 (by omega)) _
  · -- 28 places were asked for, and 27 have room
    have hfullest := hfull places hlt (Nat.le_refl _)
    rw [hinteger] at hfullest
    have hpow : 10 ^ (28 - places) ≤ 2 := by
      by_contra hgt
      have : 3 * m ≤ n := hm ▸ Nat.mul_le_mul_right _ (by omega)
      omega
    have hplaces28 : places = 28 := by
      by_contra hne
      have : 10 ^ 1 ≤ 10 ^ (28 - places) := Nat.pow_le_pow_right (by decide) (by omega)
      omega
    subst hplaces28
    have hscale27 : scale = 27 := by
      by_contra hne
      have htens := hfull 27 (by omega) (by decide)
      have : roundQuotient .toEven n (10 ^ (28 - 27)) ≤ 2 * 10 ^ 28 :=
        roundQuotient_le_of_le _ (by decide) (by omega)
      omega
    subst hscale27
    rw [Nat.sub_self, pow_zero, one_mul] at hm
    rw [keepDigits, if_neg (by omega), hdigits, Nat.mul_comm]
    rfl

theorem alignUnits_zero (n : Nat) : alignUnits 0 n = n := by
  unfold alignUnits
  rw [if_pos (Nat.zero_le _), pow_zero]
  simpa using roundQuotient_mul_self .toEven n (by decide : 0 < 1)

theorem alignUnits_mono (shift : Nat) {n m : Nat} (h : n ≤ m) :
    alignUnits shift n ≤ alignUnits shift m := by
  unfold alignUnits
  split
  · exact roundQuotient_mono _ (by positivity) h
  · exact Nat.le_refl _

/-- An aligned term is less than one unit off. -/
theorem abs_alignUnits_sub_le (shift : Nat) {n : Nat} (hn : n < 10 ^ 29) :
    |(alignUnits shift n : ℚ) - n / 10 ^ shift| ≤ 1 := by
  have hpow : (0 : ℚ) < 10 ^ shift := by positivity
  unfold alignUnits
  split
  · have hnear := abs_roundQuotient_sub_le .toEven n (by positivity : 0 < 10 ^ shift)
    push_cast at hnear
    linarith
  · rename_i hshift
    have hlt : (n : ℚ) / 10 ^ shift ≤ 1 := by
      rw [div_le_one₀ hpow]
      exact_mod_cast hn.le.trans (Nat.pow_le_pow_right (by decide) (by omega))
    rw [Nat.cast_zero, zero_sub, abs_neg, abs_of_nonneg (by positivity)]
    exact hlt

/-- An integer number of units is aligned without loss, unless it is dropped. -/
theorem alignUnits_eq {shift n m : Nat} (hshift : shift ≤ 28) (h : n = m * 10 ^ shift) :
    alignUnits shift n = m := by
  unfold alignUnits
  rw [if_pos hshift, h, roundQuotient_mul_self _ _ (by positivity)]

/-- One power of ten further down a term loses at most one unit of the last
place that is left. -/
theorem alignUnits_le_succ (shift : Nat) {n : Nat} (hn : n < 10 ^ 29) :
    alignUnits shift n ≤ 10 * alignUnits (shift + 1) n + 10 := by
  rcases Nat.lt_or_ge shift 28 with hlt | hge
  · have hpow : 0 < 10 ^ shift := by positivity
    have hhigh := two_mul_roundQuotient_le .toEven n (10 ^ shift)
    have hlow := two_mul_num_le .toEven n (by positivity : 0 < 10 ^ (shift + 1))
    unfold alignUnits
    rw [if_pos (by omega), if_pos (by omega)]
    rw [pow_succ] at hlow ⊢
    -- the two roundings are off by half a unit, and by half of ten units
    have hle : 2 * roundQuotient .toEven n (10 ^ shift) * 10 ^ shift ≤
        (20 * roundQuotient .toEven n (10 ^ shift * 10) + 11) * 10 ^ shift := by
      rw [Nat.add_mul]
      linarith
    have := Nat.le_of_mul_le_mul_right hle hpow
    omega
  · have hsmall : alignUnits shift n ≤ 10 := by
      unfold alignUnits
      split
      · refine roundQuotient_le_of_le _ (by positivity) ?_
        have : shift = 28 := by omega
        subst this
        omega
      · exact Nat.zero_le _
    omega

/-- An aligned term has at most as many units as the term itself. -/
theorem alignUnits_le (shift : Nat) {n : Nat} (hn : n < 10 ^ 29) :
    alignUnits shift n ≤ 10 ^ 29 := by
  unfold alignUnits
  split
  · exact (roundQuotient_le _ _ (by positivity)).trans hn.le
  · exact Nat.zero_le _

/-- A term with a smaller exponent has at most the units of a one. -/
theorem alignUnits_succ_le (shift : Nat) {n : Nat} (hn : n < 10 ^ 29) :
    alignUnits (shift + 1) n ≤ 10 ^ 28 := by
  unfold alignUnits
  split
  · refine roundQuotient_le_of_le _ (by positivity) ?_
    calc n
        ≤ 10 ^ 28 * 10 ^ 1 := hn.le
      _ ≤ 10 ^ 28 * 10 ^ (shift + 1) :=
          Nat.mul_le_mul_left _ (Nat.pow_le_pow_right (by decide) (by omega))
  · exact Nat.zero_le _

/-- A term with a smaller exponent is aligned to fewer units. -/
theorem alignUnits_le_of_lt {shift shift' n m : Nat} (hn : n < 10 ^ 29) (hm : 10 ^ 28 ≤ m)
    (h : shift' < shift) : alignUnits shift n ≤ alignUnits shift' m := by
  unfold alignUnits
  split
  · rename_i hshift
    rw [if_pos (by omega)]
    -- a power of ten of units stands between the two
    have hsplit : 10 ^ 28 = 10 ^ (28 - shift') * 10 ^ shift' := by
      rw [← pow_add, Nat.sub_add_cancel (by omega)]
    have hlow : roundQuotient .toEven n (10 ^ shift) ≤ 10 ^ (28 - shift') := by
      refine roundQuotient_le_of_le _ (by positivity) ?_
      calc n
          ≤ 10 ^ 29 := hn.le
        _ ≤ 10 ^ (28 - shift' + shift) := Nat.pow_le_pow_right (by decide) (by omega)
        _ = 10 ^ (28 - shift') * 10 ^ shift := pow_add _ _ _
    refine hlow.trans (le_roundQuotient_of_le _ (by positivity) ?_)
    rw [← hsplit]
    exact hm
  · exact Nat.zero_le _

/-! ## Decimal steps -/

namespace Decimal

/-- Shifting a mantissa rounds it to units. -/
theorem exists_mul?_unit {d : Decimal} (h : d.IsMantissa) {shift : Nat}
    (hshift : shift ≤ maxScale) :
    ∃ s, d.mul? (Probability.unit shift hshift) = some s ∧ s.negative = false ∧
      s.units = alignUnits shift d.units := by
  have hden := tenPow_pos (d.scale + shift)
  have hfit : ∀ places ≤ d.scale + shift,
      roundQuotient .toEven (d.digits * tenPow places) (tenPow (d.scale + shift)) < twoPow 96 := by
    intro places hplaces
    refine Nat.lt_of_le_of_lt (roundQuotient_le_of_le _ hden (n := d.digits) ?_) d.digits_lt
    exact Nat.mul_le_mul_left _ (tenPow_le_tenPow hplaces)
  have hmul : d.mul? (Probability.unit shift hshift) = ofRatio? (d.digits : ℤ)
      (tenPow (d.scale + shift)) (min maxScale (d.scale + shift)) := by
    unfold mul?
    rw [if_neg (by simp [h.digits_ne_zero, Probability.unit, one]),
      coefficient_of_nonneg h.negative]
    simp [Probability.unit, one, coefficient]
  obtain ⟨s, hs, hrounded⟩ := exists_ofRatio? hden
    (by simpa [tenPow] using hfit 0 (Nat.zero_le _)) (min_le_left maxScale (d.scale + shift))
  refine ⟨s, hmul.trans hs, hrounded.negative, ?_⟩
  -- all places asked for have room
  have hscale : s.scale = min maxScale (d.scale + shift) := by
    by_contra hne
    have hlt := lt_of_le_of_ne hrounded.scale_le hne
    exact absurd (hfit _ (min_le_right _ _)) (hrounded.full _ hlt (Nat.le_refl _)).not_gt
  have hdigits := hrounded.digits
  rw [hscale] at hdigits
  have hmax : maxScale = 28 := rfl
  have hd := d.scale_le
  rcases le_total (d.scale + shift) maxScale with hle | hle
  · rw [min_eq_right hle] at hscale hdigits
    rw [roundQuotient_mul_self _ _ hden] at hdigits
    refine (alignUnits_eq hshift ?_).symm
    rw [units, units, hdigits, hscale, mul_assoc, ← pow_add]
    congr 2
    omega
  · rw [min_eq_left hle] at hscale hdigits
    rw [units, hdigits, hscale, Nat.sub_self, pow_zero, mul_one, alignUnits, if_pos hshift]
    refine roundQuotient_congr _ hden (by positivity) ?_
    rw [units, tenPow_eq, tenPow_eq, mul_assoc, mul_assoc, ← pow_add, ← pow_add]
    congr 2
    omega

/-- The digits that a sum rounds, in units. -/
theorem sum_units (a b : Decimal) :
    (a.digits * tenPow b.scale + b.digits * tenPow a.scale) * 10 ^ 28 =
      (a.units + b.units) * tenPow (a.scale + b.scale) := by
  have ha : 10 ^ 28 = 10 ^ (28 - a.scale) * 10 ^ a.scale := by
    rw [← pow_add, Nat.sub_add_cancel a.scale_le]
  have hb : 10 ^ 28 = 10 ^ (28 - b.scale) * 10 ^ b.scale := by
    rw [← pow_add, Nat.sub_add_cancel b.scale_le]
  simp only [units, tenPow_eq, pow_add, Nat.add_mul]
  congr 1
  · rw [ha]
    ring
  · rw [hb]
    ring

/-- Units of a decimal are a multiple of the unit of its last place. -/
theorem pow_dvd_units {d : Decimal} {k : Nat} (hk : d.scale ≤ k) : 10 ^ (28 - k) ∣ d.units :=
  Dvd.dvd.mul_left (pow_dvd_pow 10 (by omega)) _

/-- A sum of decimals keeps its units. -/
theorem exists_add? {a b : Decimal} (ha : a.negative = false) (hb : b.negative = false)
    (hle : a.units + b.units ≤ 2 * 10 ^ 29) :
    ∃ c, a.add? b = some c ∧ c.negative = false ∧ c.units = keepDigits (a.units + b.units) := by
  have hden := tenPow_pos (a.scale + b.scale)
  have hsum := sum_units a b
  obtain ⟨places, hplaces⟩ : ∃ places, places = max a.scale b.scale := ⟨_, rfl⟩
  have hmax : places ≤ 28 := hplaces ▸ max_le a.scale_le b.scale_le
  have hdvd : 10 ^ (28 - places) ∣ a.units + b.units :=
    Nat.dvd_add (pow_dvd_units (hplaces ▸ le_max_left _ _))
      (pow_dvd_units (hplaces ▸ le_max_right _ _))
  -- rounding at `k` places is rounding the units
  have hround : ∀ k ≤ 28, roundQuotient .toEven
      ((a.digits * tenPow b.scale + b.digits * tenPow a.scale) * tenPow k)
      (tenPow (a.scale + b.scale)) =
        roundQuotient .toEven (a.units + b.units) (10 ^ (28 - k)) := by
    intro k hk
    refine roundQuotient_congr _ hden (by positivity) ?_
    rw [← hsum, tenPow_eq k, mul_assoc, ← pow_add, Nat.add_sub_cancel' hk]
  have hfit : roundQuotient .toEven (a.digits * tenPow b.scale + b.digits * tenPow a.scale)
      (tenPow (a.scale + b.scale)) < twoPow 96 := by
    have hinteger := hround 0 (Nat.zero_le _)
    rw [show tenPow 0 = 1 from rfl, Nat.mul_one] at hinteger
    rw [hinteger]
    exact Nat.lt_of_le_of_lt (roundQuotient_le_of_le _ (by positivity) (n := 20) (by omega))
      (by decide)
  have hadd : a.add? b = ofRatio?
      ((a.digits * tenPow b.scale + b.digits * tenPow a.scale : ℕ) : ℤ)
      (tenPow (a.scale + b.scale)) places := by
    unfold add? coefficient
    simp [ha, hb, hplaces]
  obtain ⟨c, hc, hrounded⟩ := exists_ofRatio? hden hfit hmax
  refine ⟨c, hadd.trans hc, hrounded.negative, ?_⟩
  refine (keepDigits_of_full hle hmax hdvd hrounded.scale_le c.digits_lt ?_ ?_).symm
  · rw [← hround _ c.scale_le]
    exact hrounded.digits
  · intro k hk hk'
    rw [← hround k (hk'.trans hmax)]
    exact hrounded.full k hk hk'

end Decimal

namespace Probability

open Decimal (maxScale)

variable {a b c large small : Probability}

/-- An exponent of 32 bits that leaves room for a carry. -/
def HasRoom (exponent : Int) : Prop := -2 ^ 31 ≤ exponent ∧ exponent < 2 ^ 31 - 1

/-- The sum of two numbers that are not zero, the one with the larger exponent
first. -/
def addAligned? (large small : Probability) : Option Probability :=
  (alignedSum? large small).map Unscaled.exact

theorem add?_eq (a b : Probability) :
    a.add? b =
      if b.isZero then some a
      else if a.isZero then some b
      else if b.exponent ≤ a.exponent then addAligned? a b
      else addAligned? b a := by
  unfold add? sum addAligned?
  split
  · rfl
  split
  · rfl
  split
  · rfl
  · rfl

/-- The units of a sum, the term with the larger exponent first. -/
def sumUnits (large small : Probability) : Nat :=
  keepDigits (large.mantissa.units +
    alignUnits (large.exponent - small.exponent).toNat small.mantissa.units)

/-- The value of a sum of two numbers that are not zero, the one with the larger
exponent first. -/
def alignedSum (large small : Probability) : ℚ :=
  sumUnits large small / 10 ^ 28 * 10 ^ large.exponent

/-- The value of a sum. -/
def roundedSum (a b : Probability) : ℚ :=
  if b.isZero then
    a.toRat
  else if a.isZero then
    b.toRat
  else if b.exponent ≤ a.exponent then
    alignedSum a b
  else
    alignedSum b a

theorem toRat_eq_units (h : a.mantissa.IsMantissa) :
    a.toRat = a.mantissa.units / 10 ^ 28 * 10 ^ a.exponent := by
  rw [toRat, Decimal.units_eq h.negative, mul_div_cancel_right₀ _ (by norm_num)]

/-- The smaller term in units of the larger one. -/
theorem toRat_eq_shifted (h : small.mantissa.IsMantissa) (hle : small.exponent ≤ large.exponent) :
    small.toRat = small.mantissa.units / 10 ^ (large.exponent - small.exponent).toNat /
      10 ^ 28 * 10 ^ large.exponent := by
  have hsplit : (10 : ℚ) ^ large.exponent =
      10 ^ small.exponent * 10 ^ (large.exponent - small.exponent).toNat := by
    rw [← zpow_natCast, Int.toNat_of_nonneg (by omega), ← zpow_add₀ (by norm_num),
      add_sub_cancel]
  rw [toRat_eq_units h, hsplit]
  field_simp

/-- The units of a sum are at least those of the larger term. -/
theorem units_le_sumUnits (large small : Probability) :
    large.mantissa.units ≤ sumUnits large small := by
  rw [← keepDigits_eq large.mantissa.units_room]
  exact keepDigits_mono (Nat.le_add_right _ _)

theorem sumUnits_le (hl : large.mantissa.IsMantissa) (hs : small.mantissa.IsMantissa) :
    sumUnits large small ≤ 10 * (2 * 10 ^ 28) := by
  have := hl.units_lt
  have := alignUnits_le (large.exponent - small.exponent).toNat hs.units_lt
  exact keepDigits_le (by omega)

/-- The sum of two numbers that are not zero is brought to its form from a decimal
between one and a hundred. -/
theorem exists_addAligned?_eq (hl : large.mantissa.IsMantissa) (hs : small.mantissa.IsMantissa) :
    ∃ d : Decimal, addAligned? large small = some (ofScaled d large.exponent) ∧
      d.negative = false ∧ 1 ≤ d.toRat ∧ d.toRat < 100 ∧
      d.toRat * 10 ^ large.exponent = alignedSum large small := by
  unfold addAligned? alignedSum?
  split
  · rename_i hshift
    obtain ⟨shifted, hshifted, hneg, hunits⟩ := Decimal.exists_mul?_unit hs hshift
    have hle : large.mantissa.units + shifted.units ≤ 2 * 10 ^ 29 := by
      have := hl.units_lt
      have := alignUnits_le (large.exponent - small.exponent).toNat hs.units_lt
      omega
    obtain ⟨d, hd, hdneg, hdunits⟩ := Decimal.exists_add? hl.negative hneg hle
    rw [hunits] at hdunits
    have hvalue : d.toRat = sumUnits large small / 10 ^ 28 := by
      rw [sumUnits, ← hdunits, Decimal.units_eq hdneg, mul_div_cancel_right₀ _ (by norm_num)]
    have hleast : (10 ^ 28 : ℚ) ≤ sumUnits large small := by
      exact_mod_cast hl.le_units.trans (units_le_sumUnits large small)
    have hmost : (sumUnits large small : ℚ) ≤ 10 * (2 * 10 ^ 28) := by
      exact_mod_cast sumUnits_le hl hs
    refine ⟨d, ?_, hdneg, ?_, ?_, ?_⟩
    · rw [hshifted, Option.bind_eq_bind, Option.bind_some, hd]
      rfl
    · rw [hvalue, le_div_iff₀ (by norm_num)]
      linarith
    · rw [hvalue, div_lt_iff₀ (by norm_num)]
      linarith
    · rw [hvalue, alignedSum]
  · rename_i hshift
    refine ⟨large.mantissa, ?_, hl.negative, hl.one_le_toRat,
      hl.toRat_lt_ten.trans (by norm_num), ?_⟩
    · rw [ofScaled_mantissa hl]
      rfl
    rw [alignedSum, sumUnits, alignUnits, if_neg hshift, Nat.add_zero,
      keepDigits_eq large.mantissa.units_room, ← toRat_eq_units hl, toRat]

/-- The sum of two numbers that are not zero. -/
theorem exists_addAligned? (hl : large.mantissa.IsMantissa) (hs : small.mantissa.IsMantissa) :
    ∃ c, addAligned? large small = some c ∧ c.Normal ∧ c.toRat = alignedSum large small ∧
      large.exponent ≤ c.exponent ∧ c.exponent ≤ large.exponent + 1 := by
  obtain ⟨d, hadd, hneg, hone, hhundred, hvalue⟩ := exists_addAligned?_eq hl hs
  have hdigits : d.digits ≠ 0 := Decimal.digits_ne_zero_of_pos (by linarith)
  -- the sum lies between one and a hundred, so the carry is one at most
  have hcarry := carried_lt hneg hdigits large.exponent (k := 2) (by norm_num; exact hhundred)
  have hcarry' := le_carried hneg large.exponent (k := 0) (by simpa using hone)
  have hexponent : (ofScaled d large.exponent).exponent = carried d large.exponent := by
    rw [ofScaled, if_neg hdigits, carried]
  refine ⟨_, hadd, normal_ofScaled fun _ => hneg, ?_, ?_, ?_⟩
  · rw [toRat_ofScaled fun _ => hneg, hvalue]
  · omega
  · omega

/-- A sum has a result, with the value `roundedSum`, and an exponent that is one
above those of the terms at most. -/
theorem exists_add? (ha : a.Normal) (hb : b.Normal) :
    ∃ c, a.add? b = some c ∧ c.Normal ∧ c.toRat = roundedSum a b ∧
      min a.exponent b.exponent ≤ c.exponent ∧ c.exponent ≤ max a.exponent b.exponent + 1 := by
  rw [add?_eq]
  unfold roundedSum
  split
  · exact ⟨a, rfl, ha, rfl, by omega, by omega⟩
  · rename_i hzero'
    split
    · exact ⟨b, rfl, hb, rfl, by omega, by omega⟩
    · rename_i hzero
      split
      · obtain ⟨c, hc, hnormal, hvalue, hlow, hhigh⟩ :=
          exists_addAligned? (ha.isMantissa hzero) (hb.isMantissa hzero')
        exact ⟨c, hc, hnormal, hvalue, by omega, by omega⟩
      · obtain ⟨c, hc, hnormal, hvalue, hlow, hhigh⟩ :=
          exists_addAligned? (hb.isMantissa hzero') (ha.isMantissa hzero)
        exact ⟨c, hc, hnormal, hvalue, by omega, by omega⟩

theorem HasRoom.inRange {e : Int} (h : HasRoom e) : InRange e :=
  ⟨h.1, h.2.trans (by norm_num)⟩

/-- With room for a carry a sum does not overflow. -/
theorem add_of_add? (ha : a.Normal) (hb : b.Normal) (hroom : HasRoom a.exponent)
    (hroom' : HasRoom b.exponent) (hc : a.add? b = some c) :
    InRange c.exponent ∧ a.add b = some (.ok c) := by
  obtain ⟨c', hc', -, -, hlow, hhigh⟩ := exists_add? ha hb
  obtain rfl : c = c' := Option.some.inj (hc.symm.trans hc')
  have hrange : InRange c.exponent := by
    unfold HasRoom at hroom hroom'
    unfold InRange
    omega
  refine ⟨hrange, ?_⟩
  rw [add_eq hroom.inRange hroom'.inRange, hc, Option.map_some, checkRange_of_inRange hrange]

/-! ## Error -/

/-- A sum of two numbers that are not zero costs one rounding. -/
theorem within_alignedSum (hl : large.mantissa.IsMantissa) (hs : small.mantissa.IsMantissa)
    (hle : small.exponent ≤ large.exponent) :
    Within 1 (large.toRat + small.toRat) (alignedSum large small) := by
  have hkeep := (abs_keepDigits_sub_le (large.mantissa.units +
    alignUnits (large.exponent - small.exponent).toNat small.mantissa.units)).1
  have halign := abs_alignUnits_sub_le (large.exponent - small.exponent).toNat
    hs.units_lt
  have hlarge : (10 ^ 28 : ℚ) ≤ large.mantissa.units := by exact_mod_cast hl.le_units
  have hsmall : (0 : ℚ) ≤
      small.mantissa.units / 10 ^ (large.exponent - small.exponent).toNat := by positivity
  rw [toRat_eq_shifted hs hle, toRat_eq_units hl, ← add_mul, ← add_div, alignedSum,
    div_mul_eq_mul_div, div_mul_eq_mul_div, mul_div_assoc, mul_div_assoc, sumUnits]
  refine Within.mul_right (Within.of_abs_sub_le ?_) (by positivity)
  -- six units are less than the twenty-seventh digit
  generalize (small.mantissa.units : ℚ) / 10 ^ (large.exponent - small.exponent).toNat = shifted
    at *
  generalize alignUnits (large.exponent - small.exponent).toNat small.mantissa.units = aligned
    at *
  obtain ⟨hkeep, hkeep'⟩ := abs_le.1 hkeep
  obtain ⟨halign, halign'⟩ := abs_le.1 halign
  push_cast at hkeep hkeep'
  rw [abs_le, unitRoundoff]
  constructor <;> linarith

/-- A sum costs one rounding. -/
theorem within_roundedSum (ha : a.Normal) (hb : b.Normal) :
    Within 1 (a.toRat + b.toRat) (roundedSum a b) := by
  unfold roundedSum
  split
  · rename_i hzero
    rw [(toRat_eq_zero_iff b).2 hzero, add_zero]
    exact (Within.refl _).mono ha.toRat_nonneg (Nat.zero_le _)
  · rename_i hzero'
    split
    · rename_i hzero
      rw [(toRat_eq_zero_iff a).2 hzero, zero_add]
      exact (Within.refl _).mono hb.toRat_nonneg (Nat.zero_le _)
    · rename_i hzero
      split
      · rename_i hle
        exact within_alignedSum (ha.isMantissa hzero) (hb.isMantissa hzero') hle
      · rename_i hlt
        rw [add_comm]
        exact within_alignedSum (hb.isMantissa hzero') (ha.isMantissa hzero) (by omega)

/-! ## Order -/

/-- The sum of two numbers with the same exponent does not depend on which comes
first. -/
theorem alignedSum_comm (h : a.exponent = b.exponent) : alignedSum a b = alignedSum b a := by
  unfold alignedSum sumUnits
  rw [h, Int.sub_self, Int.toNat_zero, alignUnits_zero, alignUnits_zero, Nat.add_comm]

theorem units_le_of_toRat_le (ha : a.mantissa.IsMantissa) (hb : b.mantissa.IsMantissa)
    (hexponent : a.exponent = b.exponent) (h : a.toRat ≤ b.toRat) :
    a.mantissa.units ≤ b.mantissa.units := by
  have hpow : (0 : ℚ) < 10 ^ b.exponent := by positivity
  rw [toRat_eq_units ha, toRat_eq_units hb, hexponent, mul_le_mul_iff_left₀ hpow,
    div_le_div_iff_of_pos_right (by norm_num)] at h
  exact_mod_cast h

/-- The sum grows with its larger term, at the same exponent. -/
theorem alignedSum_le_of_large (ha : a.mantissa.IsMantissa) (hb : b.mantissa.IsMantissa)
    (hexponent : a.exponent = b.exponent) (h : a.toRat ≤ b.toRat) :
    alignedSum a small ≤ alignedSum b small := by
  have hunits : sumUnits a small ≤ sumUnits b small := by
    unfold sumUnits
    rw [hexponent]
    exact keepDigits_mono (Nat.add_le_add_right (units_le_of_toRat_le ha hb hexponent h) _)
  unfold alignedSum
  rw [hexponent]
  gcongr

/-- The sum grows with its smaller term. -/
theorem alignedSum_le_of_small (ha : a.mantissa.IsMantissa) (hb : b.mantissa.IsMantissa)
    (hexponent : a.exponent ≤ b.exponent) (hlarge : b.exponent ≤ large.exponent)
    (h : a.exponent = b.exponent → a.toRat ≤ b.toRat) :
    alignedSum large a ≤ alignedSum large b := by
  have halign : alignUnits (large.exponent - a.exponent).toNat a.mantissa.units ≤
      alignUnits (large.exponent - b.exponent).toNat b.mantissa.units := by
    rcases hexponent.eq_or_lt with heq | hlt
    · rw [heq]
      exact alignUnits_mono _ (units_le_of_toRat_le ha hb heq (h heq))
    · exact alignUnits_le_of_lt ha.units_lt hb.le_units (by omega)
  unfold alignedSum sumUnits
  gcongr
  exact keepDigits_mono (Nat.add_le_add_left halign _)

/-- The largest mantissa is ten units below ten. -/
theorem units_add_ten_le (h : a.mantissa.IsMantissa) : a.mantissa.units + 10 ≤ 10 ^ 29 := by
  have hlt := h.units_lt
  have hconst : twoPow 96 = 79228162514264337593543950336 := rfl
  rcases a.mantissa.units_room with hroom | ⟨k, hk⟩
  · omega
  · omega

/-- The sum grows where the larger term passes a power of ten. -/
theorem alignedSum_le_of_exponent_lt (ha : a.mantissa.IsMantissa) (hb : b.mantissa.IsMantissa)
    (hs : small.mantissa.IsMantissa) (hle : small.exponent ≤ a.exponent)
    (hlt : a.exponent < b.exponent) : alignedSum a small ≤ alignedSum b small := by
  obtain ⟨gap, hgap⟩ : ∃ gap : ℕ, b.exponent = a.exponent + (gap + 1 : ℕ) :=
    ⟨(b.exponent - a.exponent - 1).toNat, by omega⟩
  have hunits : sumUnits a small ≤ sumUnits b small * 10 ^ (gap + 1) := by
    -- one power of ten apart the smaller term counts, and two apart it does not
    rcases Nat.eq_zero_or_pos gap with rfl | hpos
    · have hshift : (b.exponent - small.exponent).toNat =
          (a.exponent - small.exponent).toNat + 1 := by omega
      have halign := alignUnits_le_succ (a.exponent - small.exponent).toNat hs.units_lt
      have hten := units_add_ten_le ha
      have hlow := hb.le_units
      rw [zero_add, pow_one, Nat.mul_comm]
      have hbound : 10 ^ 28 + alignUnits ((a.exponent - small.exponent).toNat + 1)
          small.mantissa.units ≤ sumUnits b small := by
        have hroom : 10 ^ 28 + alignUnits ((a.exponent - small.exponent).toNat + 1)
            small.mantissa.units < twoPow 96 := by
          have := alignUnits_succ_le (a.exponent - small.exponent).toNat hs.units_lt
          rw [show twoPow 96 = 79228162514264337593543950336 from rfl]
          omega
        rw [← keepDigits_eq (.inl hroom), sumUnits, hshift]
        exact keepDigits_mono (Nat.add_le_add_right hlow _)
      exact (keepDigits_le (m := 10 ^ 28 +
        alignUnits ((a.exponent - small.exponent).toNat + 1) small.mantissa.units)
        (by omega)).trans (Nat.mul_le_mul_left _ hbound)
    · have hhigh := sumUnits_le ha hs
      have hlow := hb.le_units.trans (units_le_sumUnits b small)
      have hpow : 10 ^ 2 ≤ 10 ^ (gap + 1) := Nat.pow_le_pow_right (by decide) (by omega)
      have := Nat.mul_le_mul hlow hpow
      omega
  calc alignedSum a small
      ≤ (sumUnits b small * 10 ^ (gap + 1) : ℕ) / 10 ^ 28 * 10 ^ a.exponent := by
        unfold alignedSum
        gcongr
    _ = alignedSum b small := by
        rw [alignedSum, hgap, zpow_add₀ (by norm_num), zpow_natCast]
        push_cast
        ring

/-- The sum grows with its larger term. -/
theorem alignedSum_le_alignedSum (ha : a.mantissa.IsMantissa) (hb : b.mantissa.IsMantissa)
    (hs : small.mantissa.IsMantissa) (hle : small.exponent ≤ a.exponent)
    (hexponent : a.exponent ≤ b.exponent) (h : a.toRat ≤ b.toRat) :
    alignedSum a small ≤ alignedSum b small := by
  rcases hexponent.eq_or_lt with heq | hlt
  · exact alignedSum_le_of_large ha hb heq h
  · exact alignedSum_le_of_exponent_lt ha hb hs hle hlt

theorem le_alignedSum_left (hl : large.mantissa.IsMantissa) :
    large.toRat ≤ alignedSum large small := by
  rw [toRat_eq_units hl, alignedSum]
  gcongr
  exact units_le_sumUnits large small

theorem le_alignedSum_right (hl : large.mantissa.IsMantissa) (hs : small.mantissa.IsMantissa)
    (hle : small.exponent ≤ large.exponent) : small.toRat ≤ alignedSum large small := by
  rcases hle.eq_or_lt with heq | hlt
  · rw [alignedSum_comm heq.symm]
    exact le_alignedSum_left hs
  · have hless := Normal.toRat_lt_of_exponent_lt (.inr hs) (.inr hl) (not_isZero hs)
      (not_isZero hl) hlt
    exact hless.le.trans (le_alignedSum_left hl)

/-- A sum is at least as large as its first term. -/
theorem le_roundedSum_left (ha : a.Normal) (hb : b.Normal) : a.toRat ≤ roundedSum a b := by
  unfold roundedSum
  split
  · exact le_refl _
  · rename_i hzero'
    split
    · rename_i hzero
      rw [(toRat_eq_zero_iff a).2 hzero]
      exact hb.toRat_nonneg
    · rename_i hzero
      split
      · exact le_alignedSum_left (ha.isMantissa hzero)
      · rename_i hlt
        exact le_alignedSum_right (hb.isMantissa hzero') (ha.isMantissa hzero) (by omega)

/-- A sum is at least as large as its second term. -/
theorem le_roundedSum_right (ha : a.Normal) (hb : b.Normal) : b.toRat ≤ roundedSum a b := by
  unfold roundedSum
  split
  · rename_i hzero'
    rw [(toRat_eq_zero_iff b).2 hzero']
    exact ha.toRat_nonneg
  · rename_i hzero'
    split
    · exact le_refl _
    · rename_i hzero
      split
      · rename_i hle
        exact le_alignedSum_right (ha.isMantissa hzero) (hb.isMantissa hzero') hle
      · exact le_alignedSum_left (hb.isMantissa hzero')

/-- A sum grows with its first term. -/
theorem roundedSum_le_roundedSum (ha : a.Normal) (hb : b.Normal) (hc : c.Normal)
    (h : a.toRat ≤ b.toRat) : roundedSum a c ≤ roundedSum b c := by
  by_cases hzero : c.isZero = true
  · simpa only [roundedSum, if_pos hzero] using h
  by_cases hzero_a : a.isZero = true
  · rw [roundedSum, if_neg hzero, if_pos hzero_a]
    exact le_roundedSum_right hb hc
  have hzero_b : ¬b.isZero = true := by
    intro hzero_b
    rw [(toRat_eq_zero_iff b).2 hzero_b] at h
    exact absurd h (ha.toRat_pos hzero_a).not_ge
  -- none of the three is zero, so both sums are aligned
  have hc := hc.isMantissa hzero
  have hexponent := ha.exponent_le_of_toRat_le hb hzero_a hzero_b h
  have ha := ha.isMantissa hzero_a
  have hb := hb.isMantissa hzero_b
  simp only [roundedSum, if_neg hzero, if_neg hzero_a, if_neg hzero_b]
  split
  · rename_i hle
    rw [if_pos (by omega)]
    exact alignedSum_le_alignedSum ha hb hc hle hexponent h
  · rename_i hlt
    split
    · -- the power of ten of `c` stands between `a` and `b`
      rename_i hle
      have hpow : (⟨.one, c.exponent⟩ : Probability).mantissa.IsMantissa := Decimal.isMantissa_one
      have hpow_le : (⟨.one, c.exponent⟩ : Probability).toRat ≤ b.toRat := by
        simp only [toRat, Decimal.toRat_one]
        exact mul_le_mul hb.one_le_toRat (zpow_le_zpow_right₀ (by norm_num) hle) (by positivity)
          hb.toRat_pos.le
      calc alignedSum c a
          ≤ alignedSum c ⟨.one, c.exponent⟩ :=
            alignedSum_le_of_small ha hpow (not_le.1 hlt).le (le_refl _) fun heq =>
              absurd heq (not_le.1 hlt).ne
        _ = alignedSum ⟨.one, c.exponent⟩ c := alignedSum_comm rfl
        _ ≤ alignedSum b c := alignedSum_le_alignedSum hpow hb hc (le_refl _) hle hpow_le
    · exact alignedSum_le_of_small ha hb hexponent (by omega) fun _ => h

end Probability

end BeliefNet
