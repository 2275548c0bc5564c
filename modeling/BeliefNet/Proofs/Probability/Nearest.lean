import Mathlib
import BeliefNet.Proofs.Probability.Canonical

/-!
# The nearest number with few digits

Of the numbers with at most so many significant digits one is nearest to `x`, where of
two the larger counts (`IsNearest`). There is only one such number (`IsNearest.unique`),
and it grows with `x` (`IsNearest.mono`).

Up to a power of ten it is an integer: numbers with few digits that are no integers
lie below all integers with as many digits (`isNearest_round`). So rounding a mantissa
at a fixed place finds it, also where the mantissa is carried to ten
(`isNearest_roundTo`). A number that has no more digits is kept as it is
(`Probability.roundSignificant_eq_self`).
-/

namespace BeliefNet

/-- At most so many significant digits, wherever the point stands. -/
def HasDigits (digits : Nat) (x : ℚ) : Prop :=
  ∃ n k : ℤ, |n| < 10 ^ digits ∧ x = n * 10 ^ k

/-- Of all numbers with at most so many digits, `y` is the nearest to `x`, and the larger
one of two. -/
structure IsNearest (digits : Nat) (x y : ℚ) : Prop where
  hasDigits : HasDigits digits y
  le : ∀ z, HasDigits digits z → |y - x| ≤ |z - x|
  larger : ∀ z, HasDigits digits z → |z - x| = |y - x| → z ≤ y

variable {digits : Nat} {x x' y y' : ℚ}

/-- The power of ten behind all numbers of so many digits has one digit. -/
theorem IsShort.hasDigits (h : IsShort digits x) (hdigits : 1 ≤ digits) : HasDigits digits x := by
  obtain ⟨n, k, hn, rfl⟩ := h
  rcases hn.eq_or_lt with rfl | hlt
  · refine ⟨1, digits + k, ?_, ?_⟩
    · rw [abs_one]
      exact one_lt_pow₀ (by norm_num) (by omega)
    · push_cast
      rw [one_mul, zpow_add₀ (by norm_num), zpow_natCast]
  · refine ⟨n, k, ?_, rfl⟩
    rw [Nat.abs_cast]
    exact_mod_cast hlt

theorem HasDigits.isShort (h : HasDigits digits x) (hx : 0 ≤ x) : IsShort digits x := by
  obtain ⟨n, k, hn, rfl⟩ := h
  have hnonneg : 0 ≤ n := by
    have hpow : (0 : ℚ) < 10 ^ k := by positivity
    exact_mod_cast nonneg_of_mul_nonneg_left hx hpow
  obtain ⟨m, rfl⟩ := Int.eq_ofNat_of_zero_le hnonneg
  refine ⟨m, k, ?_, by rw [Int.cast_natCast]⟩
  rw [Nat.abs_cast] at hn
  exact_mod_cast hn.le

theorem HasDigits.mul_zpow (h : HasDigits digits x) (k : ℤ) : HasDigits digits (x * 10 ^ k) := by
  obtain ⟨n, j, hn, rfl⟩ := h
  refine ⟨n, j + k, hn, ?_⟩
  rw [mul_assoc, ← zpow_add₀ (by norm_num)]

/-- A number with few digits is an integer, or has fewer digits before the point. -/
theorem HasDigits.exists_natCast (h : HasDigits (digits + 1) x) :
    (∃ n : ℕ, x = n) ∨ x ≤ 10 ^ digits := by
  rcases le_or_gt 0 x with hx | hx
  · have hunits := (h.isShort hx).exists_units 0
    rwa [pow_zero, mul_one] at hunits
  · have hpow : (0 : ℚ) < 10 ^ digits := by positivity
    exact .inr (hx.le.trans hpow.le)

/-! ## The nearest of them -/

/-- The larger of two numbers is the nearer one beyond the middle. -/
theorem abs_sub_le_abs_sub_iff (hlt : y < x) (z : ℚ) : |x - z| ≤ |y - z| ↔ x + y ≤ 2 * z := by
  have hfactor : (y - z) ^ 2 - (x - z) ^ 2 = (x - y) * (2 * z - (x + y)) := by ring
  rw [← sq_le_sq, ← sub_nonneg, hfactor, mul_nonneg_iff_of_pos_left (sub_pos.2 hlt), sub_nonneg]

namespace IsNearest

/-- A larger number has a nearest one that is no smaller. -/
theorem mono (h : IsNearest digits x x') (h' : IsNearest digits y y') (hxy : x ≤ y) : x' ≤ y' := by
  by_contra hback
  have hback := not_le.1 hback
  -- `x` is beyond the middle between the two, and so `y` is, to which `x'` is nearer then
  have hmiddle := (abs_sub_le_abs_sub_iff hback x).1 (h.le y' h'.hasDigits)
  have hnearer : |x' - y| ≤ |y' - y| := (abs_sub_le_abs_sub_iff hback y).2 (by linarith)
  have hdistance : |x' - y| = |y' - y| := hnearer.antisymm (h'.le x' h.hasDigits)
  exact hback.not_ge (h'.larger x' h.hasDigits hdistance)

/-- There is one nearest number. -/
theorem unique (h : IsNearest digits x y) (h' : IsNearest digits x y') : y = y' :=
  (h.mono h' le_rfl).antisymm (h'.mono h le_rfl)

/-- The point does not matter. -/
theorem of_mul_zpow {k : ℤ} (h : IsNearest digits (x * 10 ^ k) (y * 10 ^ k)) :
    IsNearest digits x y := by
  have hpow : (0 : ℚ) < 10 ^ k := by positivity
  have hdistance (z : ℚ) : |z * 10 ^ k - x * 10 ^ k| = |z - x| * 10 ^ k := by
    rw [← sub_mul, abs_mul, abs_of_pos hpow]
  have hdigits : HasDigits digits y := by
    have hback := h.hasDigits.mul_zpow (-k)
    rwa [mul_zpow_mul_zpow_neg] at hback
  refine ⟨hdigits, ?_, ?_⟩
  · intro z hz
    have hle := h.le _ (hz.mul_zpow k)
    rw [hdistance, hdistance] at hle
    exact le_of_mul_le_mul_right hle hpow
  · intro z hz heq
    refine le_of_mul_le_mul_right (h.larger _ (hz.mul_zpow k) ?_) hpow
    rw [hdistance, hdistance, heq]

end IsNearest

/-- Between two powers of ten the nearest number is an integer. -/
theorem isNearest_round (hlow : 10 ^ digits ≤ x) (hhigh : x < 10 ^ (digits + 1)) :
    IsNearest (digits + 1) x (round x) := by
  have hround : round x = ⌊x + 1 / 2⌋ := round_eq x
  have hleast : (10 : ℤ) ^ digits ≤ round x := by
    rw [hround, Int.le_floor]
    push_cast
    linarith
  have hmost : round x ≤ (10 : ℤ) ^ (digits + 1) := by
    rw [hround, ← Int.lt_add_one_iff, Int.floor_lt]
    push_cast
    linarith
  have hleast' : (10 : ℚ) ^ digits ≤ round x := by exact_mod_cast hleast
  have htens : |x - round x| ≤ x - 10 ^ digits := by
    have hle := round_le x (10 ^ digits)
    push_cast at hle
    rwa [abs_of_nonneg (sub_nonneg.2 hlow)] at hle
  refine ⟨?_, ?_, ?_⟩
  · obtain ⟨n, hn⟩ := Int.eq_ofNat_of_zero_le ((by positivity : (0 : ℤ) ≤ 10 ^ digits).trans hleast)
    rw [hn] at hmost ⊢
    exact IsShort.hasDigits (isShort_natCast (by exact_mod_cast hmost)) (Nat.le_add_left 1 digits)
  · intro z hz
    rw [abs_sub_comm, abs_sub_comm z]
    obtain ⟨n, rfl⟩ | hsmall := hz.exists_natCast
    · exact_mod_cast round_le x n
    · -- a number without so many digits before the point is farther away than the power of ten
      calc |x - round x|
          ≤ x - 10 ^ digits := htens
        _ ≤ x - z := by linarith
        _ ≤ |x - z| := le_abs_self _
  · intro z hz heq
    obtain ⟨n, rfl⟩ | hsmall := hz.exists_natCast
    · by_contra hlt
      have hnext : round x + 1 ≤ n := by
        have hlt : round x < n := by exact_mod_cast not_le.1 hlt
        omega
      have hnext' : (round x : ℚ) + 1 ≤ n := by exact_mod_cast hnext
      have hfloor : x + 1 / 2 < round x + 1 := by
        rw [hround]
        exact Int.lt_floor_add_one _
      have hhalf := abs_sub_round x
      rw [abs_sub_comm, ← heq] at hhalf
      have := le_abs_self ((n : ℚ) - x)
      linarith
    · exact hsmall.trans hleast'

/-- Rounding to significant digits gives the nearest number. -/
theorem isNearest_roundTo (hdigits : 1 ≤ digits) (hx : 0 < x) :
    IsNearest digits x (roundTo digits x) := by
  obtain ⟨d, rfl⟩ := Nat.exists_eq_add_of_le' hdigits
  have hplace : ((d + 1 : ℕ) : ℤ) - 1 - Int.log 10 x = d - Int.log 10 x := by
    push_cast
    ring
  refine IsNearest.of_mul_zpow (k := (d : ℤ) - Int.log 10 x) ?_
  have hlow := pow_le_scaled hx d
  have hhigh := scaled_lt_pow x d
  rw [zpow_natCast] at hlow
  rw [zpow_add_one₀ (by norm_num), zpow_natCast, ← pow_succ] at hhigh
  have hback : roundTo (d + 1) x * 10 ^ ((d : ℤ) - Int.log 10 x) =
      round (x * 10 ^ ((d : ℤ) - Int.log 10 x)) := by
    unfold roundTo
    rw [round_eq, hplace, mul_assoc, ← zpow_add₀ (by norm_num)]
    push_cast
    rw [add_sub_cancel_right, sub_add_sub_cancel', sub_self, zpow_zero, mul_one]
  rw [hback]
  exact isNearest_round hlow hhigh

/-- A mantissa with few digits has few places. -/
theorem Decimal.IsMantissa.scale_le_of_hasDigits {d : Decimal} (h : d.IsMantissa) {places : Nat}
    (hfew : HasDigits (places + 1) d.toRat) : d.scale ≤ places := by
  obtain ⟨n, hn⟩ | hsmall := (hfew.isShort h.toRat_pos.le).exists_units places
  · exact h.scale_le hn
  · -- a mantissa that is no larger than one is one
    have hpow : (0 : ℚ) < 10 ^ places := by positivity
    have hone : d.toRat = 1 := by
      refine le_antisymm ?_ h.one_le_toRat
      exact le_of_mul_le_mul_right (by rwa [one_mul]) hpow
    have hinteger : d.toRat * 10 ^ 0 = (1 : ℕ) := by
      rw [hone, pow_zero, mul_one, Nat.cast_one]
    exact (h.scale_le hinteger).trans (Nat.zero_le places)

namespace Probability

variable {p q : Probability}

/-- A number with no more digits stays as it is. -/
theorem roundSignificant_eq_self (h : p.Normal) (hdigits : 1 ≤ digits)
    (hfew : HasDigits digits p.toRat) : p.roundSignificant digits = p := by
  by_cases hzero : p.isZero = true
  · exact roundSignificant_of_isZero hzero digits
  obtain ⟨places, rfl⟩ := Nat.exists_eq_add_of_le' hdigits
  have hmantissa := h.isMantissa hzero
  have hfew' : HasDigits (places + 1) p.mantissa.toRat := by
    have hpoint := hfew.mul_zpow (-p.exponent)
    unfold toRat at hpoint
    rwa [mul_zpow_mul_zpow_neg] at hpoint
  have hscale := hmantissa.scale_le_of_hasDigits hfew'
  have hround : p.mantissa.round .awayFromZero (places + 1 - 1) = p.mantissa := by
    unfold Decimal.round
    exact dif_neg (by omega)
  rw [roundSignificant_eq hzero hdigits, hround]
  exact ofScaled_mantissa hmantissa

/-- A larger number is rounded to no smaller one. -/
theorem toRat_roundSignificant_mono (hp : p.Normal) (hq : q.Normal) (hpos : 0 < p.toRat)
    (hdigits : 1 ≤ digits) (hle : p.toRat ≤ q.toRat) :
    (p.roundSignificant digits).toRat ≤ (q.roundSignificant digits).toRat := by
  rw [toRat_roundSignificant hp hdigits, toRat_roundSignificant hq hdigits]
  exact (isNearest_roundTo hdigits hpos).mono (isNearest_roundTo hdigits (hpos.trans_le hle)) hle

/-- A positive number in normal form, with room for a carry, is rounded without an overflow,
to the one number nearest to it with at most so many significant digits, of two the larger.
Rounding again changes nothing, and rounding keeps the order. -/
theorem roundSignificant_nearest (h : p.Normal) (hpos : 0 < p.toRat) (hroom : HasRoom p.exponent)
    (hdigits : 1 ≤ digits) :
    p.roundDigits digits = .ok (p.roundSignificant digits) ∧
    (∀ y, IsNearest digits p.toRat y ↔ y = (p.roundSignificant digits).toRat) ∧
    (p.roundSignificant digits).roundSignificant digits = p.roundSignificant digits ∧
    ∀ q : Probability, q.Normal → 0 < q.toRat → HasRoom q.exponent → p.compare q ≠ .gt →
      (p.roundSignificant digits).compare (q.roundSignificant digits) ≠ .gt := by
  have hnearest : IsNearest digits p.toRat (p.roundSignificant digits).toRat := by
    rw [toRat_roundSignificant h hdigits]
    exact isNearest_roundTo hdigits hpos
  refine ⟨roundDigits_eq_ok h hdigits hroom, ?_, ?_, ?_⟩
  · intro y
    constructor
    · intro hy
      exact hy.unique hnearest
    · rintro rfl
      exact hnearest
  · exact roundSignificant_eq_self (normal_roundSignificant h digits) hdigits hnearest.hasDigits
  · intro q hq _ _ hle
    rw [(normal_roundSignificant h digits).compare_le_iff (normal_roundSignificant hq digits)]
    rw [h.compare_le_iff hq] at hle
    exact toRat_roundSignificant_mono h hq hpos hdigits hle

/-- Six digits, all of them nines but the last: rounded to five they carry to one, which
is no larger than what one itself is rounded to. -/
theorem nines_roundSignificant_nearest :
    ∃ p : Probability, p.Normal ∧ 0 < p.toRat ∧ HasRoom p.exponent ∧
      p.roundDigits 5 = .ok one ∧ p.roundSignificant 5 = one ∧ IsNearest 5 p.toRat 1 ∧
      one.roundSignificant 5 = one ∧
      p.compare one ≠ .gt ∧ (p.roundSignificant 5).compare (one.roundSignificant 5) ≠ .gt := by
  have hp : (⟨⟨false, 999996, 5, by decide, by decide⟩, -1⟩ : Probability).Normal :=
    .inr ⟨rfl, by decide, by decide, by decide⟩
  have hpos : 0 < (⟨⟨false, 999996, 5, by decide, by decide⟩, -1⟩ : Probability).toRat :=
    hp.toRat_pos (by decide)
  have hroom : HasRoom (-1) := ⟨by norm_num, by norm_num⟩
  have hround :
      (⟨⟨false, 999996, 5, by decide, by decide⟩, -1⟩ : Probability).roundSignificant 5 = one := by
    decide +kernel
  obtain ⟨hrun, hnearest, hagain, hmono⟩ :=
    roundSignificant_nearest hp hpos hroom (by decide : 1 ≤ 5)
  have hle := hmono one normal_one (by simp) ⟨by decide, by decide⟩ (by decide)
  rw [hround, toRat_one] at hnearest
  rw [hround] at hagain hrun
  exact ⟨_, hp, hpos, hroom, hrun, hround, (hnearest 1).2 rfl, hagain, by decide, hle⟩

end Probability

end BeliefNet
