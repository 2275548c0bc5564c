import Mathlib
import BeliefNet.Proofs.Probability.Canonical

/-!
# Addition up to rounding

Two terms in normal form always have a sum, and with room for a carry it does not
overflow. Its value is a function of both terms (`roundedSum`) that does not depend on their order
(`roundedSum_comm`), grows with each of them and is no smaller than either. Since a value
has one normal form, the same is true of the sums themselves, digit for digit
(`add?_comm`, `add?_ordered`).
-/

namespace BeliefNet

namespace Probability

open Decimal (ofDigit)

variable {a b c : Probability}

/-- Which of the terms comes first decides nothing: the one with the larger exponent is
aligned to, and at the same exponent there is nothing to align. -/
theorem roundedSum_comm (a b : Probability) : roundedSum a b = roundedSum b a := by
  unfold roundedSum
  by_cases hzero : a.isZero = true
  · by_cases hzero' : b.isZero = true
    · have hvalue := (toRat_eq_zero_iff a).2 hzero
      have hvalue' := (toRat_eq_zero_iff b).2 hzero'
      simp only [if_pos hzero, if_pos hzero', hvalue, hvalue']
    · rw [if_neg hzero', if_pos hzero, if_pos hzero]
  · by_cases hzero' : b.isZero = true
    · rw [if_pos hzero', if_neg hzero, if_pos hzero']
    · simp only [if_neg hzero, if_neg hzero']
      rcases lt_trichotomy a.exponent b.exponent with hlt | heq | hgt
      · rw [if_neg hlt.not_ge, if_pos hlt.le]
      · rw [if_pos heq.ge, if_pos heq.le, alignedSum_comm heq]
      · rw [if_pos hgt.le, if_neg hgt.not_ge]

/-- The order of the terms makes no difference to a sum. -/
theorem add?_comm (ha : a.Normal) (hb : b.Normal) : a.add? b = b.add? a := by
  obtain ⟨s, hs, hnormal, hvalue, -⟩ := exists_add? ha hb
  obtain ⟨t, ht, hnormal', hvalue', -⟩ := exists_add? hb ha
  have hsame : s.toRat = t.toRat := by
    rw [hvalue, hvalue', roundedSum_comm]
  rw [hs, ht, hnormal.eq_of_toRat_eq hnormal' hsame]

/-- Numbers in normal form, with room for a carry, have a sum without an overflow. It is
again in normal form and has an exponent of 32 bits. It is the same in either order,
grows with its terms and is at least as large as each of them. -/
theorem add?_ordered (ha : a.Normal) (hb : b.Normal) (hc : c.Normal) (hroom_a : HasRoom a.exponent)
    (hroom_b : HasRoom b.exponent) (hroom_c : HasRoom c.exponent) :
    ∃ s t, a.add? c = some s ∧ c.add? a = some s ∧ b.add? c = some t ∧ s.Canonical ∧
      (a.compare b ≠ .gt → s.compare t ≠ .gt) ∧ a.compare s ≠ .gt ∧ c.compare s ≠ .gt ∧
      a.add c = some (.ok s) ∧ c.add a = some (.ok s) ∧ b.add c = some (.ok t) := by
  obtain ⟨s, hs, hnormal, hvalue, -⟩ := exists_add? ha hc
  obtain ⟨t, ht, hnormal', hvalue', -⟩ := exists_add? hb hc
  have hcomm : c.add? a = some s := (add?_comm hc ha).trans hs
  obtain ⟨hrange, hadd⟩ := add_of_add? ha hc hroom_a hroom_c hs
  obtain ⟨-, hadd'⟩ := add_of_add? hc ha hroom_c hroom_a hcomm
  obtain ⟨-, hadd''⟩ := add_of_add? hb hc hroom_b hroom_c ht
  refine ⟨s, t, hs, hcomm, ht, ⟨hnormal, hrange⟩, ?_, ?_, ?_, hadd, hadd', hadd''⟩
  · intro hle
    rw [ha.compare_le_iff hb] at hle
    rw [hnormal.compare_le_iff hnormal', hvalue, hvalue']
    exact roundedSum_le_roundedSum ha hb hc hle
  · rw [ha.compare_le_iff hnormal, hvalue]
    exact le_roundedSum_left ha hc
  · rw [hc.compare_le_iff hnormal, hvalue]
    exact le_roundedSum_right ha hc

/-- Where the larger term passes a power of ten the sums may meet. A five in the 28th place
carries the largest mantissa up to ten, by a tie, and is too small to count beside ten. -/
theorem ten_add?_ordered :
    ∃ a s t : Probability, a.Normal ∧ a.compare ⟨.one, 1⟩ = .lt ∧
      a.add? ⟨ofDigit 5, -28⟩ = some s ∧ (⟨.one, 1⟩ : Probability).add? ⟨ofDigit 5, -28⟩ = some t ∧
      s = ⟨.one, 1⟩ ∧ s.compare t ≠ .gt ∧ a.compare s ≠ .gt ∧
      a.add ⟨ofDigit 5, -28⟩ = some (.ok s) := by
  have hnines : (⟨⟨false, 9999999999999999999999999999, 27, by decide, by decide⟩, 0⟩ :
      Probability).Normal :=
    .inr ⟨rfl, by decide, by decide, .inr (by decide)⟩
  have hten : (⟨.one, 1⟩ : Probability).Normal := .inr Decimal.isMantissa_one
  have hsmall : (⟨ofDigit 5, -28⟩ : Probability).Normal :=
    .inr (Decimal.isMantissa_ofDigit (by decide))
  obtain ⟨s, t, hs, -, ht, -, hmono, hle, -, hadd, -⟩ := add?_ordered hnines hten hsmall
    ⟨by decide, by decide⟩ ⟨by decide, by decide⟩ ⟨by decide, by decide⟩
  have hcarry : (⟨⟨false, 9999999999999999999999999999, 27, by decide, by decide⟩, 0⟩ :
      Probability).add? ⟨ofDigit 5, -28⟩ = some ⟨.one, 1⟩ := by
    decide +kernel
  exact ⟨_, s, t, hnines, by decide, hs, ht, Option.some.inj (hs.symm.trans hcarry),
    hmono (by decide), hle, hadd⟩

end Probability

end BeliefNet
