import Mathlib
import BeliefNet.Rounding

/-!
# Rounded quotients are nearest

`roundQuotient` returns an integer nearest to its quotient, whatever the rule
for a half. The facts below are all that the decimal arithmetic needs of it:

* it is within half of the quotient (`abs_roundQuotient_sub_le`);
* it depends on the quotient alone (`roundQuotient_congr`);
* it keeps integers (`roundQuotient_mul_self`) and order (`roundQuotient_mono`);
* with halves away from zero it is the integer part of the quotient and a half
  (`roundQuotient_awayFromZero`).
-/

namespace BeliefNet

/-- A common factor of numerator and denominator has no effect. -/
theorem roundQuotient_mul_left (tie : TieRule) {k : Nat} (hk : 0 < k) (num den : Nat) :
    roundQuotient tie (k * num) (k * den) = roundQuotient tie num den := by
  -- the rule sees the remainder only next to the denominator, and both scale
  have hhalf : (2 * (k * (num % den)) = k * den) = (2 * (num % den) = den) := by
    rw [Nat.mul_left_comm]
    exact propext (Nat.mul_right_inj hk.ne')
  have hless : (k * den < 2 * (k * (num % den))) = (den < 2 * (num % den)) := by
    rw [Nat.mul_left_comm 2 k]
    exact propext (Nat.mul_lt_mul_left hk)
  unfold roundQuotient TieRule.roundsUp
  simp only [Nat.mul_div_mul_left _ _ hk, Nat.mul_mod_mul_left, hhalf, hless]

/-- The rounded quotient depends on the quotient alone. -/
theorem roundQuotient_congr (tie : TieRule) {num den num' den' : Nat} (hden : 0 < den)
    (hden' : 0 < den') (h : num * den' = num' * den) :
    roundQuotient tie num den = roundQuotient tie num' den' := by
  calc roundQuotient tie num den
      = roundQuotient tie (den' * num) (den' * den) := (roundQuotient_mul_left tie hden' _ _).symm
    _ = roundQuotient tie (den * num') (den * den') := by
        rw [Nat.mul_comm den' num, h, Nat.mul_comm num' den, Nat.mul_comm den' den]
    _ = roundQuotient tie num' den' := roundQuotient_mul_left tie hden _ _

/-- An integer quotient stays as it is. -/
theorem roundQuotient_mul_self (tie : TieRule) (n : Nat) {den : Nat} (hden : 0 < den) :
    roundQuotient tie (n * den) den = n := by
  have hrest : tie.roundsUp n 0 den = false := by
    by_contra hup
    exact (TieRule.pos_of_roundsUp hden (Bool.of_not_eq_false hup)).ne rfl
  unfold roundQuotient
  rw [Nat.mul_mod_left, Nat.mul_div_cancel _ hden, hrest]
  rfl

theorem roundQuotient_zero (tie : TieRule) {den : Nat} (hden : 0 < den) :
    roundQuotient tie 0 den = 0 := by
  simpa using roundQuotient_mul_self tie 0 hden

/-- A remainder that is rounded up is at least half of the denominator. -/
theorem TieRule.half_le_of_roundsUp {tie : TieRule} {whole rest den : Nat}
    (h : tie.roundsUp whole rest den = true) : den ≤ 2 * rest := by
  unfold TieRule.roundsUp at h
  split at h
  · omega
  · exact (of_decide_eq_true h).le

/-- A remainder that is dropped is at most half of the denominator. -/
theorem TieRule.le_half_of_not_roundsUp {tie : TieRule} {whole rest den : Nat}
    (h : ¬tie.roundsUp whole rest den = true) : 2 * rest ≤ den := by
  unfold TieRule.roundsUp at h
  split at h
  · omega
  · rw [decide_eq_true_eq] at h
    omega

/-- Away from zero, a dropped remainder is less than half of the denominator. -/
theorem TieRule.lt_half_of_not_roundsUp {whole rest den : Nat}
    (h : ¬TieRule.awayFromZero.roundsUp whole rest den = true) : 2 * rest < den := by
  unfold TieRule.roundsUp at h
  split at h
  · exact absurd rfl h
  · rw [decide_eq_true_eq] at h
    omega

/-- The quotient is at most half above the rounded one. -/
theorem two_mul_num_le (tie : TieRule) (num : Nat) {den : Nat} (hden : 0 < den) :
    2 * num ≤ 2 * (roundQuotient tie num den * den) + den := by
  have hsplit := Nat.div_add_mod num den
  have hrest := Nat.mod_lt num hden
  rw [Nat.mul_comm den] at hsplit
  unfold roundQuotient
  split
  · rw [Nat.add_mul]
    omega
  · rename_i hdown
    have := TieRule.le_half_of_not_roundsUp hdown
    omega

/-- The rounded quotient is at most half above the quotient. -/
theorem two_mul_roundQuotient_le (tie : TieRule) (num den : Nat) :
    2 * (roundQuotient tie num den * den) ≤ 2 * num + den := by
  have hsplit := Nat.div_add_mod num den
  rw [Nat.mul_comm den] at hsplit
  unfold roundQuotient
  split
  · rename_i hup
    have := TieRule.half_le_of_roundsUp hup
    rw [Nat.add_mul]
    omega
  · omega

/-- The rounded quotient is within half of the quotient. -/
theorem abs_roundQuotient_sub_le (tie : TieRule) (num : Nat) {den : Nat} (hden : 0 < den) :
    |(roundQuotient tie num den : ℚ) - num / den| ≤ 1 / 2 := by
  have hden' : (0 : ℚ) < den := by exact_mod_cast hden
  have hlow : (2 * num : ℚ) ≤ 2 * (roundQuotient tie num den * den) + den := by
    exact_mod_cast two_mul_num_le tie num hden
  have hhigh : (2 * (roundQuotient tie num den * den) : ℚ) ≤ 2 * num + den := by
    exact_mod_cast two_mul_roundQuotient_le tie num den
  rw [abs_le]
  constructor
  · have : (num / den : ℚ) ≤ roundQuotient tie num den + 1 / 2 := by
      rw [div_le_iff₀ hden']
      linarith
    linarith
  · have : (roundQuotient tie num den : ℚ) - 1 / 2 ≤ num / den := by
      rw [le_div_iff₀ hden']
      linarith
    linarith

/-- Rounding keeps the order of the numerators. -/
theorem roundQuotient_mono (tie : TieRule) {num num' den : Nat} (hden : 0 < den)
    (h : num ≤ num') : roundQuotient tie num den ≤ roundQuotient tie num' den := by
  rcases h.eq_or_lt with rfl | hlt
  · exact Nat.le_refl _
  · have hlow := two_mul_roundQuotient_le tie num den
    have hhigh := two_mul_num_le tie num' hden
    -- a smaller result would lie a whole unit above the quotient of `num'`
    by_contra hgt
    have hstep : (roundQuotient tie num' den + 1) * den ≤ roundQuotient tie num den * den :=
      Nat.mul_le_mul_right _ (by omega)
    rw [Nat.add_mul] at hstep
    omega

/-- Rounding does not cross an integer from below. -/
theorem roundQuotient_le_of_le (tie : TieRule) {num den n : Nat} (hden : 0 < den)
    (h : num ≤ n * den) : roundQuotient tie num den ≤ n := by
  rw [← roundQuotient_mul_self tie n hden]
  exact roundQuotient_mono tie hden h

/-- Rounding does not cross an integer from above. -/
theorem le_roundQuotient_of_le (tie : TieRule) {num den n : Nat} (hden : 0 < den)
    (h : n * den ≤ num) : n ≤ roundQuotient tie num den := by
  rw [← roundQuotient_mul_self tie n hden]
  exact roundQuotient_mono tie hden h

/-- Halves away from zero are halves up. -/
theorem roundQuotient_awayFromZero (num : Nat) {den : Nat} (hden : 0 < den) :
    (roundQuotient .awayFromZero num den : ℤ) = ⌊(num / den : ℚ) + 1 / 2⌋ := by
  have hden' : (0 : ℚ) < den := by exact_mod_cast hden
  have hsplit := Nat.div_add_mod num den
  have hrest := Nat.mod_lt num hden
  rw [Nat.mul_comm den] at hsplit
  -- half of the denominator more carries over exactly where the rule rounds up
  have hfloor : roundQuotient .awayFromZero num den = (2 * num + den) / (2 * den) := by
    unfold roundQuotient
    split
    · rename_i hup
      have := TieRule.half_le_of_roundsUp hup
      refine (Nat.div_eq_of_lt_le ?_ ?_).symm <;> rw [Nat.mul_left_comm]
      · rw [Nat.add_mul]
        omega
      · rw [Nat.add_mul, Nat.add_mul]
        omega
    · rename_i hdown
      have := TieRule.lt_half_of_not_roundsUp hdown
      refine (Nat.div_eq_of_lt_le ?_ ?_).symm <;> rw [Nat.mul_left_comm]
      · omega
      · rw [Nat.add_mul]
        omega
  have hsum : (num / den : ℚ) + 1 / 2 = ((2 * num + den : ℕ) : ℚ) / ((2 * den : ℕ) : ℚ) := by
    push_cast
    field_simp
  rw [hsum, Rat.floor_natCast_div_natCast, hfloor, Int.natCast_div]

end BeliefNet
