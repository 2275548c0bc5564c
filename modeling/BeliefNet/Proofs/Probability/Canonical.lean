import Mathlib
import BeliefNet.Proofs.Probability.ExponentRange

/-!
# Results are canonical

A product of mantissas may reach a hundred, a quotient a tenth, and a rounded
mantissa ten. Each operation brings its result back to the normal form, so everything
that is computed from decimals that are not negative has it (`Obtained.normal`). In
this form equality and order are those of the numbers, although they compare exponents
first (`Obtained.equal_and_ordered`). The form of a stored number is canonical: normal,
with an exponent of 32 bits.
-/

namespace BeliefNet

namespace Probability

open Decimal (ofDigit)

/-- The form of results: zero, or a mantissa with one digit before the point, and an
exponent of 32 bits. -/
structure Canonical (p : Probability) : Prop where
  normal : p.Normal
  inRange : InRange p.exponent

/-- What the operations make of decimals that are not negative, also where an exponent
is out of range. -/
inductive Obtained : Probability → Prop where
  | ofDecimal {d : Decimal} (hd : 0 ≤ d.toRat) : Obtained (ofDecimal d)
  | mul {a b c : Probability} (ha : Obtained a) (hb : Obtained b) (hc : a.mul? b = some c) :
      Obtained c
  | div {a b c : Probability} (ha : Obtained a) (hb : Obtained b) (hc : a.div? b = some c) :
      Obtained c
  | add {a b c : Probability} (ha : Obtained a) (hb : Obtained b) (hc : a.add? b = some c) :
      Obtained c
  | round {a : Probability} (ha : Obtained a) (digits : Nat) : Obtained (a.roundSignificant digits)

variable {a b c : Probability}

/-! ## One operation -/

namespace Normal

theorem mul? (ha : a.Normal) (hb : b.Normal) (hc : a.mul? b = some c) : c.Normal := by
  obtain ⟨-, -, hmul⟩ | ⟨-, d, -, hneg, -, -, hmul⟩ := mul?_cases ha hb
  · obtain rfl : zero = c := Option.some.inj (hmul.symm.trans hc)
    exact normal_zero
  · obtain ⟨-, rfl⟩ := eq_of_map_exponent? (hmul.symm.trans hc)
    exact normal_ofScaled fun _ => hneg

theorem div? (ha : a.Normal) (hb : b.Normal) (hc : a.div? b = some c) : c.Normal := by
  obtain ⟨-, hdiv⟩ | ⟨-, -, hdiv, -⟩ | ⟨-, -, d, -, hneg, -, -, -, hdiv⟩ := div?_cases ha hb
  · rw [hdiv] at hc
    cases hc
  · obtain rfl : zero = c := Option.some.inj (hdiv.symm.trans hc)
    exact normal_zero
  · obtain ⟨-, rfl⟩ := eq_of_map_exponent? (hdiv.symm.trans hc)
    exact normal_ofScaled fun _ => hneg

theorem add? (ha : a.Normal) (hb : b.Normal) (hc : a.add? b = some c) : c.Normal := by
  obtain ⟨s, hs, hnormal, -⟩ := exists_add? ha hb
  obtain rfl : s = c := Option.some.inj (hs.symm.trans hc)
  exact hnormal

end Normal

/-! ## All operations -/

theorem Obtained.normal (h : a.Obtained) : a.Normal := by
  induction h with
  | ofDecimal hd => exact normal_ofDecimal_of_nonneg hd
  | mul _ _ hc iha ihb => exact iha.mul? ihb hc
  | div _ _ hc iha ihb => exact iha.div? ihb hc
  | add _ _ hc iha ihb => exact iha.add? ihb hc
  | round _ digits ih => exact normal_roundSignificant ih digits

/-- A normal form is zero, or its mantissa has one digit before the point. -/
theorem Normal.eq_zero_or (h : a.Normal) :
    a = zero ∨ 1 ≤ a.mantissa.toRat ∧ a.mantissa.toRat < 10 := by
  rcases h with rfl | hmantissa
  · exact .inl rfl
  · exact .inr ⟨hmantissa.one_le_toRat, hmantissa.toRat_lt_ten⟩

/-- Normal forms are equal if their values are. -/
theorem Normal.same_iff (ha : a.Normal) (hb : b.Normal) :
    a.same b = true ↔ a.toRat = b.toRat := by
  unfold same
  rw [Bool.and_eq_true, beq_iff_eq, beq_iff_eq, Decimal.compare_eq, cmp_eq_eq_iff]
  constructor
  · rintro ⟨hmantissa, hexponent⟩
    unfold toRat
    rw [hmantissa, hexponent]
  · intro hvalue
    obtain rfl := ha.eq_of_toRat_eq hb hvalue
    exact ⟨rfl, rfl⟩

/-- Whatever is computed from decimals that are not negative is zero, in its one form,
or has a mantissa from one to ten. Of two such results the comparisons say what is true
of the numbers. -/
theorem Obtained.equal_and_ordered (ha : a.Obtained) (hb : b.Obtained) :
    (a = zero ∨ 1 ≤ a.mantissa.toRat ∧ a.mantissa.toRat < 10) ∧
    (a.same b = true ↔ a.mantissa.toRat * 10 ^ a.exponent = b.mantissa.toRat * 10 ^ b.exponent) ∧
    a.compare b =
      cmp (a.mantissa.toRat * 10 ^ a.exponent) (b.mantissa.toRat * 10 ^ b.exponent) := by
  have hna := ha.normal
  have hnb := hb.normal
  exact ⟨hna.eq_zero_or, hna.same_iff hnb, hna.compare_eq hnb⟩

/-- Five times two and a little less than ten, rounded: both have carried. -/
theorem ten_equal_and_ordered :
    ∃ a b : Probability, (ofDecimal (ofDigit 5)).mul? (ofDecimal (ofDigit 2)) = some a ∧
      (ofDecimal ⟨false, 999999, 5, by decide, by decide⟩).roundSignificant 5 = b ∧
      a.Obtained ∧ b.Obtained ∧ a.same b = true ∧
      a.mantissa.toRat * 10 ^ a.exponent = b.mantissa.toRat * 10 ^ b.exponent := by
  have hmul : (ofDecimal (ofDigit 5)).mul? (ofDecimal (ofDigit 2)) = some ⟨.one, 1⟩ := by
    decide +kernel
  have hround : (ofDecimal ⟨false, 999999, 5, by decide, by decide⟩).roundSignificant 5 =
      ⟨.one, 1⟩ := by
    decide +kernel
  have hfive : (0 : ℚ) ≤ (ofDigit 5).toRat := by
    rw [Decimal.toRat_ofDigit]
    positivity
  have htwo : (0 : ℚ) ≤ (ofDigit 2).toRat := by
    rw [Decimal.toRat_ofDigit]
    positivity
  have hproduct : Obtained ⟨.one, 1⟩ := .mul (.ofDecimal hfive) (.ofDecimal htwo) hmul
  have hnines : (0 : ℚ) ≤ Decimal.toRat ⟨false, 999999, 5, by decide, by decide⟩ := by
    norm_num [Decimal.toRat, Decimal.coefficient]
  have hrounded : Obtained ⟨.one, 1⟩ := hround ▸ .round (.ofDecimal hnines) 5
  obtain ⟨-, hsame, -⟩ := hproduct.equal_and_ordered hrounded
  exact ⟨_, _, hmul, hround, hproduct, hrounded, hsame.2 rfl, rfl⟩

end Probability

end BeliefNet
