import Mathlib
import BeliefNet.Proofs.Decimal.Value

/-!
# Relative error

`Within k x y` says that `y` has come from `x` by `k` roundings of relative
error `unitRoundoff` at most. The relation carries an error bound through
products and sums of any length:

* an exact factor adds no error (`Within.mul_right`), and terms with the same
  error have a sum with that error (`Within.add`);
* one rounding more is one step more (`Within.trans`);
* fewer than `10 ^ 20` roundings at most double a number or halve it
  (`Within.le_two_mul`, `Within.half_le`).

`Decimal.Rounded.within` is the bound for one rounding of a decimal.
-/

namespace BeliefNet

/-- What one rounding of a decimal operation may cost. -/
def unitRoundoff : ℚ := 1 / 10 ^ 27

theorem unitRoundoff_pos : 0 < unitRoundoff := by
  norm_num [unitRoundoff]

theorem unitRoundoff_lt_one : unitRoundoff < 1 := by
  norm_num [unitRoundoff]

theorem one_sub_unitRoundoff_pos : 0 < 1 - unitRoundoff := by
  linarith [unitRoundoff_lt_one]

theorem one_add_unitRoundoff_pos : 0 < 1 + unitRoundoff := by
  linarith [unitRoundoff_pos]

/-- `y` lies within the error that `k` roundings of `x` may add up to. -/
def Within (k : Nat) (x y : ℚ) : Prop :=
  (1 - unitRoundoff) ^ k * x ≤ y ∧ y ≤ (1 + unitRoundoff) ^ k * x

namespace Within

variable {j k : Nat} {x x' y y' z : ℚ}

theorem refl (x : ℚ) : Within 0 x x := by
  simp [Within]

/-- A relative error of one rounding, as a bound on the difference. -/
theorem of_abs_sub_le (h : |y - x| ≤ unitRoundoff * x) : Within 1 x y := by
  obtain ⟨hlow, hhigh⟩ := abs_le.1 h
  constructor
  · rw [pow_one, sub_mul, one_mul]
    linarith
  · rw [pow_one, add_mul, one_mul]
    linarith

theorem abs_sub_le (h : Within 1 x y) : |y - x| ≤ unitRoundoff * x := by
  obtain ⟨hlow, hhigh⟩ := h
  rw [pow_one, sub_mul, one_mul] at hlow
  rw [pow_one, add_mul, one_mul] at hhigh
  rw [abs_le]
  constructor
  · linarith
  · linarith

theorem zero (k : Nat) : Within k 0 0 := by
  simp [Within]

/-- More roundings allow more. -/
theorem mono (h : Within j x y) (hx : 0 ≤ x) (hjk : j ≤ k) : Within k x y := by
  have hone : 1 - unitRoundoff ≤ 1 := by linarith [unitRoundoff_pos]
  constructor
  · refine le_trans (mul_le_mul_of_nonneg_right ?_ hx) h.1
    exact pow_le_pow_of_le_one one_sub_unitRoundoff_pos.le hone hjk
  · refine le_trans h.2 (mul_le_mul_of_nonneg_right ?_ hx)
    exact pow_le_pow_right₀ (by linarith [unitRoundoff_pos]) hjk

theorem trans (h : Within j x y) (h' : Within k y z) : Within (j + k) x z := by
  have hlow : (0 : ℚ) ≤ (1 - unitRoundoff) ^ k := pow_nonneg one_sub_unitRoundoff_pos.le _
  have hhigh : (0 : ℚ) ≤ (1 + unitRoundoff) ^ k := pow_nonneg one_add_unitRoundoff_pos.le _
  constructor
  · calc (1 - unitRoundoff) ^ (j + k) * x
        = (1 - unitRoundoff) ^ k * ((1 - unitRoundoff) ^ j * x) := by ring
      _ ≤ (1 - unitRoundoff) ^ k * y := mul_le_mul_of_nonneg_left h.1 hlow
      _ ≤ z := h'.1
  · calc z
        ≤ (1 + unitRoundoff) ^ k * y := h'.2
      _ ≤ (1 + unitRoundoff) ^ k * ((1 + unitRoundoff) ^ j * x) :=
          mul_le_mul_of_nonneg_left h.2 hhigh
      _ = (1 + unitRoundoff) ^ (j + k) * x := by ring

/-- An exact factor adds no error. -/
theorem mul_right (h : Within k x y) {c : ℚ} (hc : 0 ≤ c) : Within k (x * c) (y * c) := by
  constructor
  · rw [← mul_assoc]
    exact mul_le_mul_of_nonneg_right h.1 hc
  · rw [← mul_assoc]
    exact mul_le_mul_of_nonneg_right h.2 hc

/-- Terms with the same error have a sum with that error. -/
theorem add (h : Within k x y) (h' : Within k x' y') : Within k (x + x') (y + y') := by
  constructor
  · rw [mul_add]
    exact add_le_add h.1 h'.1
  · rw [mul_add]
    exact add_le_add h.2 h'.2

theorem sum {α : Type} {f g : α → ℚ} {l : List α} (h : ∀ a ∈ l, Within k (f a) (g a)) :
    Within k (l.map f).sum (l.map g).sum := by
  induction l with
  | nil => exact zero k
  | cons a l ih =>
    rw [List.map_cons, List.map_cons, List.sum_cons, List.sum_cons]
    exact (h a List.mem_cons_self).add (ih fun b hb => h b (List.mem_cons_of_mem a hb))

/-- A number is zero if and only if its rounded form is. -/
theorem eq_zero_iff (h : Within k x y) (hx : 0 ≤ x) : y = 0 ↔ x = 0 := by
  have hpow : (0 : ℚ) < (1 - unitRoundoff) ^ k := pow_pos one_sub_unitRoundoff_pos k
  constructor
  · rintro rfl
    refine le_antisymm ?_ hx
    by_contra hpos
    exact absurd h.1 (mul_pos hpow (not_le.1 hpos)).not_ge
  · rintro rfl
    simpa [Within, le_antisymm_iff, and_comm] using h

/-- The accumulated error of fewer than `10 ^ 20` roundings is small. -/
theorem one_half_le_pow (hk : k ≤ 10 ^ 20) : (1 / 2 : ℚ) ≤ (1 - unitRoundoff) ^ k := by
  -- Bernoulli: `k` roundings cost `k` times one at most
  have hbernoulli := one_add_mul_le_pow (a := -unitRoundoff)
    (by linarith [unitRoundoff_lt_one]) k
  have hk' : (k : ℚ) ≤ 10 ^ 20 := by exact_mod_cast hk
  have hmul : (k : ℚ) * unitRoundoff ≤ 10 ^ 20 * unitRoundoff :=
    mul_le_mul_of_nonneg_right hk' unitRoundoff_pos.le
  have hsmall : (10 ^ 20 * unitRoundoff : ℚ) ≤ 1 / 2 := by norm_num [unitRoundoff]
  rw [← sub_eq_add_neg] at hbernoulli
  linarith

theorem pow_le_two (hk : k ≤ 10 ^ 20) : (1 + unitRoundoff) ^ k ≤ 2 := by
  have hhalf := one_half_le_pow hk
  have hpos : (0 : ℚ) < (1 + unitRoundoff) ^ k := pow_pos one_add_unitRoundoff_pos k
  -- the bound from above follows from the one from below
  have hprod : (1 - unitRoundoff) ^ k * (1 + unitRoundoff) ^ k ≤ 1 := by
    rw [← mul_pow]
    refine pow_le_one₀ ?_ ?_
    · exact (mul_pos one_sub_unitRoundoff_pos one_add_unitRoundoff_pos).le
    · nlinarith [sq_nonneg unitRoundoff]
  nlinarith

theorem le_two_mul (h : Within k x y) (hx : 0 ≤ x) (hk : k ≤ 10 ^ 20) : y ≤ 2 * x :=
  h.2.trans (mul_le_mul_of_nonneg_right (pow_le_two hk) hx)

theorem half_le (h : Within k x y) (hx : 0 ≤ x) (hk : k ≤ 10 ^ 20) : 1 / 2 * x ≤ y :=
  (mul_le_mul_of_nonneg_right (one_half_le_pow hk) hx).trans h.1

end Within

namespace Decimal.Rounded

variable {num den places : Nat} {d : Decimal}

/-- The relative error of one rounding, for a quotient that is not much smaller
than one. The places may be as many as there are, or as many as are needed. -/
theorem within (h : Rounded num den places d) (hden : 0 < den) (hone : (1 / 10 : ℚ) ≤ num / den)
    (hplaces : places = maxScale ∨ ∃ m : ℕ, (num / den : ℚ) * 10 ^ places = m) :
    Within 1 (num / den) d.toRat := by
  have hpow : (0 : ℚ) < 10 ^ d.scale := by positivity
  have herror := h.abs_toRat_sub_le hden
  rcases h.scale_le.eq_or_lt with heq | hlt
  · rcases hplaces with hmax | ⟨m, hm⟩
    · refine Within.of_abs_sub_le (herror.trans ?_)
      rw [heq, hmax, unitRoundoff]
      norm_num
      linarith
    · rw [h.toRat_eq_of_natCast hden (heq ▸ hm)]
      exact (Within.refl _).mono (by linarith) (Nat.zero_le _)
  · -- as many digits as there is room for are far more than 27
    refine Within.of_abs_sub_le (herror.trans ?_)
    have hfull := h.room_full hden hlt
    rw [pow_succ (10 : ℚ), ← mul_assoc] at hfull
    rw [div_le_iff₀ hpow, mul_assoc, unitRoundoff]
    norm_num at hfull ⊢
    linarith

end Decimal.Rounded

end BeliefNet
