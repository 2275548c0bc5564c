/-!
# Scaling and rounding

Decimals and doubles are integers scaled by a power of ten or of two. A quotient
of natural numbers is rounded to the nearest integer, and a rule says where a
half goes. Signed quotients are rounded by their magnitude, so that the two signs
are treated alike.
-/

namespace BeliefNet

/-- The power of ten with exponent `k`. -/
def tenPow (k : Nat) : Nat := Nat.pow 10 k

/-- The power of two with exponent `k`. -/
def twoPow (k : Nat) : Nat := Nat.pow 2 k

theorem tenPow_pos (k : Nat) : 0 < tenPow k :=
  Nat.pow_pos (by decide)

theorem tenPow_le_tenPow {j k : Nat} (h : j ≤ k) : tenPow j ≤ tenPow k :=
  Nat.pow_le_pow_right (by decide) h

/-- Where a quotient halfway between two integers goes. -/
inductive TieRule where
  /-- To the even neighbour. -/
  | toEven
  /-- To the neighbour of larger magnitude. -/
  | awayFromZero
  deriving DecidableEq, Repr

/-- Whether a quotient with integer part `whole` and remainder `rest` over
`den` is rounded to `whole + 1`. -/
def TieRule.roundsUp (tie : TieRule) (whole rest den : Nat) : Bool :=
  if 2 * rest = den then
    match tie with
    | .toEven => whole % 2 == 1
    | .awayFromZero => true
  else
    decide (den < 2 * rest)

/-- The natural number nearest to `num / den`. -/
def roundQuotient (tie : TieRule) (num den : Nat) : Nat :=
  if tie.roundsUp (num / den) (num % den) den then num / den + 1 else num / den

/-- The integer nearest to `num / den`. -/
def roundSignedQuotient (tie : TieRule) (num : Int) (den : Nat) : Int :=
  num.sign * roundQuotient tie num.natAbs den

/-- Only a remainder that is not zero is rounded up. -/
theorem TieRule.pos_of_roundsUp {tie : TieRule} {whole rest den : Nat} (hden : 0 < den)
    (h : tie.roundsUp whole rest den = true) : 0 < rest := by
  unfold TieRule.roundsUp at h
  split at h
  · omega
  · have := of_decide_eq_true h
    omega

/-- Rounding a quotient to an integer never exceeds the numerator. -/
theorem roundQuotient_le (tie : TieRule) (num : Nat) {den : Nat} (hden : 0 < den) :
    roundQuotient tie num den ≤ num := by
  have hsplit := Nat.div_add_mod num den
  have hle : num / den ≤ den * (num / den) := Nat.le_mul_of_pos_left _ hden
  unfold roundQuotient
  split
  · rename_i h
    have := TieRule.pos_of_roundsUp hden h
    omega
  · omega

end BeliefNet
