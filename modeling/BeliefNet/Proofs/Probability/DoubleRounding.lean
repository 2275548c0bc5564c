import Mathlib
import BeliefNet.Proofs.Probability.ExponentRange

/-!
# Rounding a quotient twice

A quotient is rounded to what a decimal holds before it is rounded to its
significant digits. The first rounding shows in the second exactly where it has
moved a number up to a tie (`KeepsSide.roundTo_eq_iff`): it crosses no tie, since
ties have few digits, but from one it has reached the second rounding goes up.
`div?_roundSignificant_iff` says so of the operations, and
`div?_roundSignificant_ne` is a quotient to which it happens.
-/

namespace BeliefNet

/-- The number lies halfway between two neighbours with so many significant
digits. -/
def IsHalfway (digits : Nat) (x : ℚ) : Prop :=
  ∃ n : ℤ, x * 10 ^ ((digits : ℤ) - 1 - Int.log 10 x) + 1 / 2 = n

variable {digits : Nat} {x y : ℚ}

/-- A number that has one digit more is halfway if that digit is a five. -/
theorem isHalfway_iff {N : ℤ} (hN : x * 10 ^ ((digits : ℤ) - Int.log 10 x) = N) :
    IsHalfway digits x ↔ (10 : ℤ) ∣ N + 5 := by
  have hsplit : x * 10 ^ ((digits : ℤ) - 1 - Int.log 10 x) + 1 / 2 = ((N + 5 : ℤ) : ℚ) / 10 := by
    rw [sub_right_comm, zpow_sub_one₀ (by norm_num), ← mul_assoc, hN]
    push_cast
    ring
  unfold IsHalfway
  rw [hsplit]
  constructor
  · rintro ⟨n, hn⟩
    rw [div_eq_iff (by norm_num)] at hn
    exact ⟨n, by rw [mul_comm]; exact_mod_cast hn⟩
  · rintro ⟨n, hn⟩
    refine ⟨n, ?_⟩
    rw [hn]
    push_cast
    ring

/-- A number that is halfway has one digit more, and no others. -/
theorem IsHalfway.exists_eq (h : IsHalfway digits x) :
    ∃ N : ℤ, x * 10 ^ ((digits : ℤ) - Int.log 10 x) = N := by
  obtain ⟨n, hn⟩ := h
  refine ⟨10 * n - 5, ?_⟩
  rw [sub_right_comm, zpow_sub_one₀ (by norm_num), ← mul_assoc] at hn
  push_cast
  rw [← hn]
  ring

theorem roundTo_eq (digits : Nat) (x : ℚ) :
    roundTo digits x = ((⌊x * 10 ^ ((digits : ℤ) - Int.log 10 x)⌋ + 5) / 10 : ℤ) *
      10 ^ (Int.log 10 x - (digits - 1)) := by
  unfold roundTo
  rw [floor_roundTo]

/-- A power of ten stays what it is, and is no tie. -/
theorem roundTo_zpow (hdigits : 1 ≤ digits) (k : ℤ) :
    roundTo digits ((10 : ℚ) ^ k) = 10 ^ k ∧ ¬IsHalfway digits ((10 : ℚ) ^ k) := by
  obtain ⟨n, rfl⟩ := Nat.exists_eq_add_of_le' hdigits
  have hlog : Int.log 10 ((10 : ℚ) ^ k) = k := Int.log_zpow (by decide) k
  have hscaled : (10 : ℚ) ^ k * 10 ^ (((n + 1 : ℕ) : ℤ) - Int.log 10 ((10 : ℚ) ^ k)) =
      ((10 ^ (n + 1) : ℤ) : ℚ) := by
    rw [hlog, ← zpow_add₀ (by norm_num), add_sub_cancel]
    push_cast
    rfl
  have hten : (10 : ℤ) ^ (n + 1) = 10 * 10 ^ n := pow_succ' 10 n
  constructor
  · have hkept : ((10 : ℤ) ^ (n + 1) + 5) / 10 = 10 ^ n := by omega
    rw [roundTo_eq, hscaled, Int.floor_intCast, hkept, hlog]
    push_cast
    rw [add_sub_cancel_right, ← zpow_natCast, ← zpow_add₀ (by norm_num), add_sub_cancel]
  · rw [isHalfway_iff hscaled, hten]
    omega

/-- A number that is a power of ten in this unit is one. -/
theorem eq_zpow_of_scaled {k : ℤ} (h : y * 10 ^ ((digits : ℤ) - k) = 10 ^ (digits + 1)) :
    y = 10 ^ (k + 1) := by
  have hpow : (10 : ℚ) ^ ((digits : ℤ) - k) ≠ 0 := by positivity
  have hsum : (k + 1) + ((digits : ℤ) - k) = ((digits + 1 : ℕ) : ℤ) := by
    push_cast
    ring
  refine mul_right_cancel₀ hpow ?_
  rw [h, ← zpow_add₀ (by norm_num), hsum, zpow_natCast]

/-- If all digits of a number are nines, it is rounded to the next power of ten. -/
theorem roundTo_of_nines (h : ⌊x * 10 ^ ((digits : ℤ) - Int.log 10 x)⌋ + 1 = 10 ^ (digits + 1)) :
    roundTo digits x = 10 ^ (Int.log 10 x + 1) := by
  have hkept : (⌊x * 10 ^ ((digits : ℤ) - Int.log 10 x)⌋ + 5) / 10 = 10 ^ digits := by
    rw [pow_succ'] at h
    omega
  have hsum : (digits : ℤ) + (Int.log 10 x - (digits - 1)) = Int.log 10 x + 1 := by ring
  rw [roundTo_eq, hkept]
  push_cast
  rw [← zpow_natCast, ← zpow_add₀ (by norm_num), hsum]

/-- If rounding has moved a number up to the next one with a digit more, this
shows where that one is a tie. -/
theorem roundTo_eq_iff_of_reached (hdigits : 1 ≤ digits) (hx : 0 < x)
    (hy : y * 10 ^ ((digits : ℤ) - Int.log 10 x) =
      ((⌊x * 10 ^ ((digits : ℤ) - Int.log 10 x)⌋ + 1 : ℤ) : ℚ)) :
    roundTo digits y = roundTo digits x ↔ ¬IsHalfway digits y := by
  have hlow := pow_le_floor_scaled digits hx
  have hhigh := floor_scaled_lt_pow digits x
  by_cases hnines : ⌊x * 10 ^ ((digits : ℤ) - Int.log 10 x)⌋ + 1 = 10 ^ (digits + 1)
  · have hscaled : y * 10 ^ ((digits : ℤ) - Int.log 10 x) = 10 ^ (digits + 1) := by
      rw [hy, hnines]
      push_cast
      rfl
    have hyten : y = 10 ^ (Int.log 10 x + 1) := eq_zpow_of_scaled hscaled
    obtain ⟨hround, hhalfway⟩ := roundTo_zpow hdigits (Int.log 10 x + 1)
    rw [hyten, hround, roundTo_of_nines hnines]
    exact iff_of_true rfl hhalfway
  · have hx' := roundTo_eq digits x
    generalize ⌊x * 10 ^ ((digits : ℤ) - Int.log 10 x)⌋ = n at *
    have hpow : (10 : ℚ) ^ (Int.log 10 x - ((digits : ℤ) - 1)) ≠ 0 := by positivity
    have hlow' : (10 : ℤ) ^ digits ≤ n + 1 := by omega
    have hhigh' : n + 1 < (10 : ℤ) ^ (digits + 1) := by omega
    have hlog : Int.log 10 y = Int.log 10 x := by
      apply log_eq_of_scaled
      · rw [hy]
        exact_mod_cast hlow'
      · rw [hy]
        exact_mod_cast hhigh'
    rw [← hlog] at hy
    rw [isHalfway_iff hy, hx', roundTo_eq digits y, hy, Int.floor_intCast, hlog,
      mul_left_inj' hpow, Int.cast_inj]
    omega

/-- Between two neighbours with one digit more there is no tie. -/
theorem not_isHalfway_of_floor_eq (hx : 0 < x) (hxy : x < y)
    (hsame : ⌊y * 10 ^ ((digits : ℤ) - Int.log 10 x)⌋ =
      ⌊x * 10 ^ ((digits : ℤ) - Int.log 10 x)⌋) : ¬IsHalfway digits y := by
  intro hhalf
  have hpow : (0 : ℚ) < 10 ^ ((digits : ℤ) - Int.log 10 x) := by positivity
  obtain ⟨N, hN⟩ := hhalf.exists_eq
  rw [log_eq_of_floor_eq hx hsame] at hN
  rw [hN, Int.floor_intCast] at hsame
  have hle : y * 10 ^ ((digits : ℤ) - Int.log 10 x) ≤
      x * 10 ^ ((digits : ℤ) - Int.log 10 x) := by
    rw [hN, hsame]
    exact Int.floor_le _
  exact absurd (le_of_mul_le_mul_right hle hpow) hxy.not_ge

/-- Rounding twice differs from rounding once exactly where the first rounding
has moved a number up to a tie. -/
theorem KeepsSide.roundTo_eq_iff (h : KeepsSide (digits + 1) x y) (hdigits : 1 ≤ digits)
    (hx : 0 < x) :
    roundTo digits y = roundTo digits x ↔ ¬(IsHalfway digits y ∧ x < y) := by
  have hpow : (0 : ℚ) < 10 ^ ((digits : ℤ) - Int.log 10 x) := by positivity
  have hscaled := h.mul_zpow ((digits : ℤ) - Int.log 10 x)
  have hfloor := pow_le_floor_scaled digits hx
  have hceil := floor_scaled_lt_pow digits x
  obtain ⟨n, hn⟩ : ∃ n : ℕ, ⌊x * 10 ^ ((digits : ℤ) - Int.log 10 x)⌋ = n :=
    Int.eq_ofNat_of_zero_le ((by positivity : (0 : ℤ) ≤ 10 ^ digits).trans hfloor)
  have hbound : n + 1 ≤ 10 ^ (digits + 1) := by
    rw [hn] at hceil
    exact_mod_cast hceil
  obtain ⟨hnx, hxn⟩ := Int.floor_eq_iff.1 hn
  push_cast at hnx hxn
  -- the neighbours with one digit more are not crossed
  have hny : (n : ℚ) ≤ y * 10 ^ ((digits : ℤ) - Int.log 10 x) :=
    hscaled.le _ (isShort_natCast (by omega)) hnx
  have hyn : y * 10 ^ ((digits : ℤ) - Int.log 10 x) ≤ n + 1 := by
    have hge := hscaled.ge ((n + 1 : ℕ) : ℚ) (isShort_natCast hbound)
    push_cast at hge
    exact hge hxn.le
  rcases hyn.eq_or_lt with heq | hlt
  · have hxy : x < y := by
      rw [← heq] at hxn
      exact lt_of_mul_lt_mul_right hxn hpow.le
    rw [roundTo_eq_iff_of_reached hdigits hx (by rw [heq, hn]; push_cast; rfl)]
    simp [hxy]
  · have hsame : ⌊y * 10 ^ ((digits : ℤ) - Int.log 10 x)⌋ =
        ⌊x * 10 ^ ((digits : ℤ) - Int.log 10 x)⌋ := by
      rw [hn, Int.floor_eq_iff]
      exact ⟨by exact_mod_cast hny, by exact_mod_cast hlt⟩
    refine iff_of_true (roundTo_congr hx hsame) ?_
    intro ⟨hhalf, hxy⟩
    exact not_isHalfway_of_floor_eq hx hxy hsame hhalf

namespace Decimal

/-! The decimals of the examples. -/

/-- Two thirds, times ten. -/
def sixes : Decimal := ⟨false, 6666666666666666666666666667, 27, by decide, by decide⟩

/-- The tie between `1` and `1.0001`. -/
def tie : Decimal := ⟨false, 100005, 5, by decide, by decide⟩

def afterTie : Decimal := ⟨false, 10001, 4, by decide, by decide⟩

/-- One unit of the last place more than the tie. -/
def tieAndUnit : Decimal := ⟨false, 10000500000000000000000000001, 28, by decide, by decide⟩

/-- One unit of the last place more than one. -/
def oneAndUnit : Decimal := ⟨false, 10000000000000000000000000001, 28, by decide, by decide⟩

end Decimal

namespace Probability

open Decimal (ofDigit sixes tie afterTie tieAndUnit oneAndUnit)

variable {a b q : Probability}

/-- A quotient may reach a number of 28 digits from the exact one, but crosses
none. -/
theorem keepsSide_div? (ha : a.Normal) (hb : b.Normal)
    (hlow : -2 ^ 31 < a.exponent - b.exponent) (hq : a.div? b = some q) :
    KeepsSide 28 (a.toRat / b.toRat) q.toRat ∧ q.Normal ∧ -2 ^ 31 ≤ q.exponent := by
  obtain ⟨-, hdiv⟩ | ⟨-, hza, hdiv, -⟩ |
    ⟨-, -, d, -, hneg, htenth, hten, hside, hdiv⟩ := div?_cases ha hb
  · rw [hdiv] at hq
    cases hq
  · obtain rfl : zero = q := Option.some.inj (hdiv.symm.trans hq)
    rw [hza, zero_div, toRat_zero]
    exact ⟨.refl 28 0, normal_zero, by decide⟩
  · obtain ⟨-, rfl⟩ := eq_of_map_exponent? (hdiv.symm.trans hq)
    have hdigits : d.digits ≠ 0 := Decimal.digits_ne_zero_of_pos (by linarith)
    refine ⟨?_, normal_ofScaled fun _ => hneg, ?_⟩
    · rw [toRat_ofScaled fun _ => hneg, toRat_div_toRat]
      exact hside.mul_zpow _
    · -- a quotient of mantissas is at least a tenth, and borrows one at most
      have hborrow := le_carried hneg (a.exponent - b.exponent) (k := -1)
        (by norm_num at htenth ⊢; exact htenth)
      rw [ofScaled, if_neg hdigits]
      show -2 ^ 31 ≤ carried d (a.exponent - b.exponent)
      omega

/-- Away from the ends of the range a quotient and its rounding do not overflow. Its
significant digits are those of the exact quotient, unless it was a little below a tie
and has been rounded up to it. -/
theorem div?_roundSignificant_iff (ha : a.Normal) (hb : b.Normal)
    (hlow : -2 ^ 31 < a.exponent - b.exponent) (hq : a.div? b = some q)
    (hroom : q.exponent < 2 ^ 31 - 1) :
    a.div b = some (.ok q) ∧ q.roundDigits 5 = .ok (q.roundSignificant 5) ∧
    ((q.roundSignificant 5).toRat = roundTo 5 (a.toRat / b.toRat) ↔
      ¬(IsHalfway 5 q.toRat ∧ a.toRat / b.toRat < q.toRat)) := by
  obtain ⟨hside, hnormal, hleast⟩ := keepsSide_div? ha hb hlow hq
  have hroom : HasRoom q.exponent := ⟨hleast, hroom⟩
  refine ⟨div_of_div? hq hroom.inRange, roundDigits_eq_ok hnormal (by decide) hroom, ?_⟩
  rw [toRat_roundSignificant hnormal (by decide)]
  rcases (div_nonneg ha.toRat_nonneg hb.toRat_nonneg).eq_or_lt with hzero | hpos
  · -- the quotient is zero, and so is what it is rounded to
    have hq : q.toRat = 0 := by
      refine le_antisymm ?_ hnormal.toRat_nonneg
      exact hside.ge 0 (isShort_natCast (Nat.zero_le _)) hzero.symm.le
    rw [hq, ← hzero]
    simp
  · exact (hside.mono (by decide)).roundTo_eq_iff (by decide) hpos

/-- Two thirds, as the operations have it: the first rounding is upwards, and does
not show. -/
theorem two_thirds_roundSignificant :
    ∃ a b q : Probability, a.Normal ∧ b.Normal ∧ -2 ^ 31 < a.exponent - b.exponent ∧
      a.div? b = some q ∧ q.exponent < 2 ^ 31 - 1 ∧ a.div b = some (.ok q) ∧
      a.toRat / b.toRat < q.toRat ∧
      (q.roundSignificant 5).toRat = roundTo 5 (a.toRat / b.toRat) := by
  have ha : (⟨ofDigit 2, 0⟩ : Probability).Normal := .inr (Decimal.isMantissa_ofDigit (by decide))
  have hb : (⟨ofDigit 3, 0⟩ : Probability).Normal := .inr (Decimal.isMantissa_ofDigit (by decide))
  have hq : (⟨ofDigit 2, 0⟩ : Probability).div? ⟨ofDigit 3, 0⟩ = some ⟨sixes, -1⟩ := by
    decide +kernel
  have hvalue : (⟨sixes, -1⟩ : Probability).toRat = 6666666666666666666666666667 / 10 ^ 28 := by
    norm_num [toRat, Decimal.toRat, Decimal.coefficient, sixes]
  have hlog : Int.log 10 (⟨sixes, -1⟩ : Probability).toRat = -1 :=
    log_eq_of_bounds (by rw [hvalue]; norm_num) (by rw [hvalue]; norm_num)
  obtain ⟨hdiv, -, hiff⟩ := div?_roundSignificant_iff ha hb (by decide) hq (by decide)
  refine ⟨⟨ofDigit 2, 0⟩, ⟨ofDigit 3, 0⟩, ⟨sixes, -1⟩, ha, hb, by decide, hq, by decide, hdiv,
    ?_, ?_⟩
  · rw [hvalue]
    norm_num [toRat, Decimal.toRat_ofDigit]
  · refine hiff.2 ?_
    rintro ⟨hhalf, -⟩
    obtain ⟨N, hN⟩ := hhalf.exists_eq
    rw [hlog, hvalue] at hN
    norm_num at hN
    rw [div_eq_iff (by norm_num)] at hN
    have hinteger : (6666666666666666666666666667 : ℤ) = N * 10000000000000000000000 := by
      exact_mod_cast hN
    omega

/-- A quotient a little below a tie: it is rounded to the tie, and then up. -/
theorem div?_roundSignificant_ne :
    ∃ a b q r : Probability, a.Normal ∧ b.Normal ∧ ¬b.isZero = true ∧
      a.div? b = some q ∧ q.roundSignificant 5 = r ∧
      a.div b = some (.ok q) ∧ q.roundDigits 5 = .ok r ∧
      r.toRat ≠ roundTo 5 (a.toRat / b.toRat) := by
  have ha : (⟨tieAndUnit, 0⟩ : Probability).Normal := .inr ⟨rfl, by decide, by decide, by decide⟩
  have hb : (⟨oneAndUnit, 0⟩ : Probability).Normal := .inr ⟨rfl, by decide, by decide, by decide⟩
  have hx : (⟨tieAndUnit, 0⟩ : Probability).toRat / (⟨oneAndUnit, 0⟩ : Probability).toRat =
      10000500000000000000000000001 / 10000000000000000000000000001 := by
    norm_num [toRat, Decimal.toRat, Decimal.coefficient, tieAndUnit, oneAndUnit]
  have hlog : Int.log 10
      (10000500000000000000000000001 / 10000000000000000000000000001 : ℚ) = 0 :=
    log_eq_of_bounds (by norm_num) (by norm_num)
  have hone : roundTo 5 (10000500000000000000000000001 / 10000000000000000000000000001) = 1 := by
    unfold roundTo
    rw [hlog]
    norm_num
  have hdiv : (⟨tieAndUnit, 0⟩ : Probability).div? ⟨oneAndUnit, 0⟩ = some ⟨tie, 0⟩ := by
    decide +kernel
  have hround : (⟨tie, 0⟩ : Probability).roundSignificant 5 = ⟨afterTie, 0⟩ := by
    decide +kernel
  have hrange : InRange 0 := ⟨by decide, by decide⟩
  refine ⟨⟨tieAndUnit, 0⟩, ⟨oneAndUnit, 0⟩, ⟨tie, 0⟩, ⟨afterTie, 0⟩, ha, hb, by decide, hdiv,
    hround, div_of_div? hdiv hrange, ?_, ?_⟩
  · rw [roundDigits_eq hrange, hround]
    exact checkRange_of_inRange hrange
  rw [hx, hone]
  norm_num [toRat, Decimal.toRat, Decimal.coefficient, afterTie]

end Probability

end BeliefNet
