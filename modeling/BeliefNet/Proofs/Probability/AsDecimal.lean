import Mathlib
import BeliefNet.Probability.Conversion
import BeliefNet.Proofs.Probability.Canonical

/-!
# Numbers as decimals

A decimal has 28 places and 96 bits. A number in scaled form is one of them if it needs
no more, and `toDecimal?` finds it:

* `place?` puts the point back, and fails exactly where the digits have no room
  (`place?_cases`);
* before that, places behind the 28th are rounded away (`toRat_rounded_mantissa`), and what
  is left has room (`exists_place?_rounded`).

So nothing is lost of a decimal on the way to a probability and back, and of other
numbers only what lies behind the 28th place (`toDecimal?_lossless`).
-/

namespace BeliefNet

/-- `x` rounded to so many decimal places. A half is rounded up, which is away from zero
for a number that is not negative. -/
def roundPlaces (places : Nat) (x : ℚ) : ℚ := round (x * 10 ^ places) / 10 ^ places

/-- A number with so many places stays as it is. -/
theorem HasPlaces.roundPlaces_eq {places : Nat} {x : ℚ} (h : HasPlaces places x) :
    roundPlaces places x = x := by
  obtain ⟨n, hn⟩ := h
  have hpow : (10 : ℚ) ^ places ≠ 0 := by positivity
  unfold roundPlaces
  rw [hn, round_natCast, Int.cast_natCast, ← hn, mul_div_cancel_right₀ _ hpow]

namespace Decimal

/-- The largest decimal has 96 bits and no places. -/
theorem digits_le_max (d : Decimal) : (d.digits : ℚ) ≤ 2 ^ 96 - 1 := by
  have hlt : d.digits + 1 ≤ 2 ^ 96 := d.digits_lt
  have hlt' : (d.digits : ℚ) + 1 ≤ 2 ^ 96 := by exact_mod_cast hlt
  linarith

/-- The digits with the point where a power of ten puts it. -/
theorem toRat_mul_zpow {d : Decimal} (h : d.negative = false) (e : ℤ) :
    d.toRat * 10 ^ e = d.digits * 10 ^ (e - d.scale) := by
  rw [toRat_eq_of_nonneg h, zpow_sub₀ (by norm_num), zpow_natCast]
  ring

end Decimal

namespace Probability

variable {p : Probability} {d : Decimal} {e : ℤ}

/-- With the point among the digits, or in front of them, there is always room. -/
theorem exists_place? (hneg : d.negative = false) (hpoint : 0 ≤ (d.scale : ℤ) - e)
    (hscale : (d.scale : ℤ) - e ≤ 28) :
    ∃ r, place? d e = some r ∧ r.toRat = d.toRat * 10 ^ e ∧ d.toRat * 10 ^ e ≤ 2 ^ 96 - 1 := by
  obtain ⟨k, hk⟩ := Int.eq_ofNat_of_zero_le hpoint
  have hpower : e - d.scale = -(k : ℤ) := by omega
  obtain ⟨r, hr, hrneg, hrdigits, hrscale⟩ :=
    Decimal.exists_ofParts? d.digits_lt (show k ≤ 28 by omega)
  rw [Decimal.toRat_mul_zpow hneg, hpower, zpow_neg, zpow_natCast, ← div_eq_mul_inv]
  refine ⟨r, ?_, ?_, ?_⟩
  · unfold place?
    rw [Decimal.coefficient_of_nonneg hneg]
    simp only [hk]
    exact hr
  · rw [Decimal.toRat_eq_of_nonneg hrneg, hrdigits, hrscale]
  · exact (div_le_self (by positivity) (one_le_pow₀ (by norm_num))).trans d.digits_le_max

/-- With the point behind the digits these are padded with zeros, for which there may be no
room. -/
theorem place?_of_zeros (hneg : d.negative = false) (hdigits : d.digits ≠ 0)
    (hpoint : (d.scale : ℤ) - e < 0) :
    (∃ r, place? d e = some r ∧ r.toRat = d.toRat * 10 ^ e ∧ d.toRat * 10 ^ e ≤ 2 ^ 96 - 1) ∨
    (place? d e = none ∧ 2 ^ 96 - 1 < d.toRat * 10 ^ e) := by
  obtain ⟨k, hk⟩ : ∃ k : ℕ, e - d.scale = k := ⟨(e - d.scale).toNat, by omega⟩
  have hzeros : -((d.scale : ℤ) - e) = k := by omega
  have hplace : place? d e =
      if (k : ℤ) ≤ 28 then Decimal.ofParts? ((d.digits * tenPow k : ℕ) : ℤ) 0 else none := by
    unfold place?
    rw [Decimal.coefficient_of_nonneg hneg]
    simp only [if_neg (not_le.2 hpoint), hzeros, Int.toNat_natCast]
    push_cast
    rfl
  have hvalue : d.toRat * 10 ^ e = ((d.digits * tenPow k : ℕ) : ℚ) := by
    rw [Decimal.toRat_mul_zpow hneg, hk, zpow_natCast]
    push_cast
    rw [natCast_tenPow]
  rw [hplace, hvalue]
  by_cases hfew : (k : ℤ) ≤ 28
  · rw [if_pos hfew]
    rcases Nat.lt_or_ge (d.digits * tenPow k) (twoPow 96) with hroom | hroom
    · obtain ⟨r, hr, hrneg, hrdigits, hrscale⟩ :=
        Decimal.exists_ofParts? hroom (Nat.zero_le Decimal.maxScale)
      refine .inl ⟨r, hr, ?_, ?_⟩
      · rw [Decimal.toRat_eq_of_nonneg hrneg, hrdigits, hrscale, pow_zero, div_one]
      · rw [← hrdigits]
        exact r.digits_le_max
    · refine .inr ⟨Decimal.ofParts?_eq_none hroom, ?_⟩
      have hroom' : (2 ^ 96 : ℚ) ≤ (d.digits * tenPow k : ℕ) := by exact_mod_cast hroom
      linarith
  · rw [if_neg hfew]
    refine .inr ⟨rfl, ?_⟩
    -- a digit with 29 zeros is beyond the largest decimal
    have hmany : tenPow 29 ≤ d.digits * tenPow k :=
      calc tenPow 29
          ≤ tenPow k := tenPow_le_tenPow (by omega)
        _ ≤ d.digits * tenPow k := Nat.le_mul_of_pos_left _ (Nat.pos_of_ne_zero hdigits)
    have hmany' : (10 ^ 29 : ℚ) ≤ (d.digits * tenPow k : ℕ) := by exact_mod_cast hmany
    norm_num at hmany' ⊢
    linarith

/-- The point is put back if the digits have room, and there is no result if they have
none. -/
theorem place?_cases (hneg : d.negative = false) (hdigits : d.digits ≠ 0)
    (hscale : (d.scale : ℤ) - e ≤ 28) :
    (∃ r, place? d e = some r ∧ r.toRat = d.toRat * 10 ^ e ∧ d.toRat * 10 ^ e ≤ 2 ^ 96 - 1) ∨
    (place? d e = none ∧ 2 ^ 96 - 1 < d.toRat * 10 ^ e) := by
  rcases le_or_gt 0 ((d.scale : ℤ) - e) with hpoint | hpoint
  · exact .inl (exists_place? hneg hpoint hscale)
  · exact place?_of_zeros hneg hdigits hpoint

/-- The three ways to a decimal. -/
theorem toDecimal?_eq (h : p.mantissa.IsMantissa) :
    p.toDecimal? =
      if (p.mantissa.scale : ℤ) - p.exponent ≤ 28 then
        place? p.mantissa p.exponent
      else if p.exponent < -28 then
        none
      else
        place? (p.mantissa.round .awayFromZero (28 + p.exponent).toNat).trim p.exponent := by
  unfold toDecimal?
  rw [if_neg (not_isZero h)]
  rfl

/-- The places behind the point of a number are those of its mantissa, moved by the
exponent. -/
theorem hasPlaces_of_scale_le (h : p.mantissa.IsMantissa)
    (hscale : (p.mantissa.scale : ℤ) - p.exponent ≤ 28) : HasPlaces 28 p.toRat := by
  obtain ⟨k, hk⟩ : ∃ k : ℕ, p.exponent - p.mantissa.scale + 28 = k :=
    ⟨(p.exponent - p.mantissa.scale + 28).toNat, by omega⟩
  refine ⟨p.mantissa.digits * 10 ^ k, ?_⟩
  unfold toRat
  push_cast
  rw [Decimal.toRat_mul_zpow h.negative, mul_assoc, ← zpow_natCast, ← zpow_natCast,
    ← zpow_add₀ (by norm_num), ← hk]
  rfl

/-- Where a mantissa is rounded to what is left of 28 places, its number is rounded to 28
places. -/
theorem toRat_rounded_mantissa (h : p.mantissa.IsMantissa) (hlow : -28 ≤ p.exponent) :
    (p.mantissa.round .awayFromZero (28 + p.exponent).toNat).toRat * 10 ^ p.exponent =
      roundPlaces 28 p.toRat := by
  obtain ⟨places, hplaces⟩ := Int.eq_ofNat_of_zero_le (by omega : 0 ≤ 28 + p.exponent)
  have hpow : (10 : ℚ) ^ p.exponent = 10 ^ places / 10 ^ 28 := by
    rw [← zpow_natCast, ← hplaces, zpow_add₀ (by norm_num)]
    norm_num
  have hpoint : p.toRat * 10 ^ 28 = p.mantissa.toRat * 10 ^ places := by
    unfold toRat
    rw [hpow]
    field_simp
  unfold roundPlaces
  rw [hplaces, Int.toNat_natCast, Decimal.toRat_round h.negative, hpoint, hpow, round_eq]
  field_simp

/-- What is left of a rounded mantissa has its place among the 28. -/
theorem exists_place?_rounded (h : p.mantissa.IsMantissa)
    (hscale : 28 < (p.mantissa.scale : ℤ) - p.exponent) (hlow : -28 ≤ p.exponent) :
    ∃ r, place? (p.mantissa.round .awayFromZero (28 + p.exponent).toNat).trim p.exponent = some r ∧
      r.toRat = roundPlaces 28 p.toRat := by
  have hvalue := toRat_rounded_mantissa h hlow
  rw [← Decimal.toRat_trim] at hvalue
  have hneg : (p.mantissa.round .awayFromZero (28 + p.exponent).toNat).trim.negative = false :=
    negative_round h.negative _ _
  have hkept := Decimal.scale_round_le p.mantissa .awayFromZero (28 + p.exponent).toNat
  have htrim := Decimal.scale_trim_le (p.mantissa.round .awayFromZero (28 + p.exponent).toNat)
  generalize (p.mantissa.round .awayFromZero (28 + p.exponent).toNat).trim = d at *
  rw [← hvalue]
  rcases le_or_gt 0 ((d.scale : ℤ) - p.exponent) with hpoint | hpoint
  · obtain ⟨r, hr, hrvalue, -⟩ := exists_place? hneg hpoint (by omega)
    exact ⟨r, hr, hrvalue⟩
  · -- a mantissa with so many places is scaled down, not up
    have := p.mantissa.scale_le
    omega

/-- There is no result below all places and above every decimal, and any other result is
the number rounded to 28 places. -/
theorem toDecimal?_cases (h : p.mantissa.IsMantissa) :
    (∃ r, p.toDecimal? = some r ∧ r.toRat = roundPlaces 28 p.toRat ∧ -28 ≤ p.exponent ∧
      p.toRat ≤ 2 ^ 96 - 1) ∨
    (p.toDecimal? = none ∧ (p.exponent < -28 ∨ 2 ^ 96 - 1 < p.toRat)) := by
  rw [toDecimal?_eq h]
  by_cases hscale : (p.mantissa.scale : ℤ) - p.exponent ≤ 28
  · rw [if_pos hscale, (hasPlaces_of_scale_le h hscale).roundPlaces_eq]
    obtain ⟨r, hr, hvalue, hle⟩ | ⟨hnone, hlt⟩ := place?_cases h.negative h.digits_ne_zero hscale
    · exact .inl ⟨r, hr, hvalue, by omega, hle⟩
    · exact .inr ⟨hnone, .inr hlt⟩
  rw [if_neg hscale]
  by_cases hlow : p.exponent < -28
  · exact .inr ⟨if_pos hlow, .inl hlow⟩
  rw [if_neg hlow]
  obtain ⟨r, hr, hvalue⟩ := exists_place?_rounded h (not_le.1 hscale) (not_lt.1 hlow)
  have hexponent : p.exponent ≤ 0 := by
    have := p.mantissa.scale_le
    omega
  have hten : p.toRat < 10 :=
    calc p.toRat
        ≤ p.mantissa.toRat :=
          mul_le_of_le_one_right h.toRat_pos.le (zpow_le_one_of_nonpos₀ (by norm_num) hexponent)
      _ < 10 := h.toRat_lt_ten
  exact .inl ⟨r, hr, hvalue, not_lt.1 hlow, by linarith⟩

/-- The way to a probability and back loses nothing. -/
theorem exists_toDecimal?_ofDecimal (h : 0 ≤ d.toRat) :
    ∃ r, (ofDecimal d).toDecimal? = some r ∧ r.toRat = d.toRat := by
  have hnormal : (ofDecimal d).Normal := normal_ofDecimal_of_nonneg h
  have hvalue := toRat_ofDecimal_of_nonneg h
  by_cases hzero : (ofDecimal d).isZero = true
  · refine ⟨.zero, ?_, ?_⟩
    · unfold toDecimal?
      rw [if_pos hzero]
    · rw [← hvalue, (toRat_eq_zero_iff _).2 hzero, Decimal.toRat_zero]
  · have hpos := hnormal.toRat_pos hzero
    rw [hvalue] at hpos
    have hneg := Decimal.negative_of_nonneg h (Decimal.digits_ne_zero_of_pos hpos)
    have hplaces : HasPlaces 28 d.toRat :=
      Decimal.toRat_mul_pow_eq_natCast hneg ((Decimal.scale_trim_le d).trans d.scale_le)
    obtain ⟨r, hr, hrvalue, -⟩ | ⟨-, hsmall | hlarge⟩ :=
      toDecimal?_cases (hnormal.isMantissa hzero)
    · exact ⟨r, hr, by rw [hrvalue, hvalue, hplaces.roundPlaces_eq]⟩
    · -- the last place of a decimal is the 28th
      have hlow := hnormal.neg_le_exponent hzero (hvalue.symm ▸ hplaces)
      omega
    · rw [hvalue, Decimal.toRat_eq_of_nonneg hneg] at hlarge
      have hle : (d.digits : ℚ) / 10 ^ d.scale ≤ d.digits :=
        div_le_self (by positivity) (one_le_pow₀ (by norm_num))
      linarith [d.digits_le_max]

/-- A decimal that is not negative comes back from its scaled form with the same value. A
number in normal form is no decimal if it lies below all 28 places or above the largest
decimal, and otherwise it is rounded to 28 places, which it keeps if it has no more. -/
theorem toDecimal?_lossless :
    (∀ d : Decimal, 0 ≤ d.toRat →
      ∃ r, (ofDecimal d).toDecimal? = some r ∧ r.toRat = d.toRat) ∧
    ∀ p : Probability, p.Normal → ¬p.isZero = true →
      (p.toDecimal? = none ↔ p.exponent < -28 ∨ 2 ^ 96 - 1 < p.toRat) ∧
      ∀ r, p.toDecimal? = some r →
        r.toRat = roundPlaces 28 p.toRat ∧ (HasPlaces 28 p.toRat → r.toRat = p.toRat) := by
  refine ⟨fun d => exists_toDecimal?_ofDecimal, ?_⟩
  intro p hp hzero
  obtain ⟨r, hr, hvalue, hlow, hle⟩ | ⟨hnone, hrange⟩ := toDecimal?_cases (hp.isMantissa hzero)
  · constructor
    · rw [hr]
      simp only [reduceCtorEq, false_iff, not_or, not_lt]
      exact ⟨hlow, hle⟩
    · intro r' hr'
      obtain rfl : r = r' := Option.some.inj (hr.symm.trans hr')
      exact ⟨hvalue, fun hplaces => hvalue.trans hplaces.roundPlaces_eq⟩
  · constructor
    · exact iff_of_true hnone hrange
    · intro r hr
      rw [hnone] at hr
      cases hr

/-- The largest decimal, and a number with 29 places, the last of them a five. -/
theorem extremes_lossless :
    (∃ d r : Decimal, 0 ≤ d.toRat ∧ d.toRat = 2 ^ 96 - 1 ∧ (ofDecimal d).toDecimal? = some r ∧
      r.toRat = 2 ^ 96 - 1) ∧
    ∃ (p : Probability) (r : Decimal), p.Normal ∧ ¬p.isZero = true ∧ p.toRat = 125 / 10 ^ 29 ∧
      p.toDecimal? = some r ∧ r.toRat = 13 / 10 ^ 28 := by
  obtain ⟨hback, hround⟩ := toDecimal?_lossless
  constructor
  · have hvalue : Decimal.toRat ⟨false, 2 ^ 96 - 1, 0, by decide, by decide⟩ = 2 ^ 96 - 1 := by
      norm_num [Decimal.toRat, Decimal.coefficient]
    have hnonneg : 0 ≤ Decimal.toRat ⟨false, 2 ^ 96 - 1, 0, by decide, by decide⟩ := by
      rw [hvalue]
      norm_num
    obtain ⟨r, hr, hrvalue⟩ := hback ⟨false, 2 ^ 96 - 1, 0, by decide, by decide⟩ hnonneg
    exact ⟨_, r, hnonneg, hvalue, hr, hrvalue.trans hvalue⟩
  · have hp : (⟨⟨false, 125, 2, by decide, by decide⟩, -27⟩ : Probability).Normal :=
      .inr ⟨rfl, by decide, by decide, by decide⟩
    have hvalue : (⟨⟨false, 125, 2, by decide, by decide⟩, -27⟩ : Probability).toRat =
        125 / 10 ^ 29 := by
      norm_num [toRat, Decimal.toRat, Decimal.coefficient]
    have hr : (⟨⟨false, 125, 2, by decide, by decide⟩, -27⟩ : Probability).toDecimal? =
        some ⟨false, 13, 28, by decide, by decide⟩ := by
      decide +kernel
    obtain ⟨-, hrounded⟩ := hround _ hp (by decide)
    refine ⟨_, _, hp, by decide, hvalue, hr, ?_⟩
    rw [(hrounded _ hr).1, hvalue]
    norm_num [roundPlaces, round_eq]

end Probability

end BeliefNet
