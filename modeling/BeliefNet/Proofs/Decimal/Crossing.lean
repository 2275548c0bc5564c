import Mathlib
import BeliefNet.Proofs.Decimal.Value

/-!
# What rounding does not cross

A number is short if it has few digits, wherever its point stands (`IsShort`).
Rounding a decimal may reach a number of 28 digits but crosses none
(`Decimal.Rounded.keepsSide`): such a number either is an integer number of units
of the last place, or lies below all that have as many digits as the result.
-/

namespace BeliefNet

/-- A number of at most so many digits, or the power of ten behind them. -/
def IsShort (digits : Nat) (x : ℚ) : Prop :=
  ∃ (n : ℕ) (k : ℤ), n ≤ 10 ^ digits ∧ x = n * 10 ^ k

/-- `y` may have reached a short number from `x`, but has crossed none. -/
structure KeepsSide (digits : Nat) (x y : ℚ) : Prop where
  le : ∀ z, IsShort digits z → z ≤ x → z ≤ y
  ge : ∀ z, IsShort digits z → x ≤ z → y ≤ z

variable {digits digits' : Nat} {x y z : ℚ}

/-- The point is moved back by the opposite power of ten. -/
theorem mul_zpow_mul_zpow_neg (x : ℚ) (k : ℤ) : x * 10 ^ k * 10 ^ (-k) = x := by
  rw [mul_assoc, ← zpow_add₀ (by norm_num), add_neg_cancel, zpow_zero, mul_one]

theorem isShort_zpow (digits : Nat) (k : ℤ) : IsShort digits (10 ^ k) :=
  ⟨1, k, Nat.one_le_pow _ _ (by decide), by simp⟩

theorem isShort_natCast {n : ℕ} (h : n ≤ 10 ^ digits) : IsShort digits n := ⟨n, 0, h, by simp⟩

theorem IsShort.mono (h : IsShort digits x) (hle : digits ≤ digits') : IsShort digits' x := by
  obtain ⟨n, k, hn, rfl⟩ := h
  exact ⟨n, k, hn.trans (Nat.pow_le_pow_right (by decide) hle), rfl⟩

theorem IsShort.mul_zpow (h : IsShort digits x) (k : ℤ) : IsShort digits (x * 10 ^ k) := by
  obtain ⟨n, j, hn, rfl⟩ := h
  refine ⟨n, j + k, hn, ?_⟩
  rw [mul_assoc, ← zpow_add₀ (by norm_num)]

/-- With its point moved a short number is an integer, or has one digit less in
front of the point. -/
theorem IsShort.exists_units (h : IsShort (digits + 1) x) (places : Nat) :
    (∃ m : ℕ, x * 10 ^ places = m) ∨ x * 10 ^ places ≤ 10 ^ digits := by
  obtain ⟨n, j, hn, rfl⟩ := h
  have hunits : (n : ℚ) * 10 ^ j * 10 ^ places = n * 10 ^ (j + places) := by
    rw [mul_assoc, zpow_add₀ (by norm_num), zpow_natCast]
  rw [hunits]
  by_cases hinteger : 0 ≤ j + places
  · left
    refine ⟨n * 10 ^ (j + places).toNat, ?_⟩
    push_cast
    rw [← zpow_natCast, Int.toNat_of_nonneg hinteger]
  · right
    have hn : (n : ℚ) ≤ 10 ^ (digits + 1) := by exact_mod_cast hn
    have hsmall : (10 : ℚ) ^ (j + places) ≤ 10 ^ (-1 : ℤ) :=
      zpow_le_zpow_right₀ (by norm_num) (by omega)
    calc (n : ℚ) * 10 ^ (j + places)
        ≤ 10 ^ (digits + 1) * 10 ^ (-1 : ℤ) := by gcongr
      _ = 10 ^ digits := by
        rw [pow_succ, zpow_neg_one, mul_inv_cancel_right₀ (by norm_num)]

namespace KeepsSide

theorem refl (digits : Nat) (x : ℚ) : KeepsSide digits x x := ⟨fun _ _ => id, fun _ _ => id⟩

theorem mono (h : KeepsSide digits' x y) (hle : digits ≤ digits') : KeepsSide digits x y where
  le z hz := h.le z (hz.mono hle)
  ge z hz := h.ge z (hz.mono hle)

/-- The point does not matter. -/
theorem mul_zpow (h : KeepsSide digits x y) (k : ℤ) :
    KeepsSide digits (x * 10 ^ k) (y * 10 ^ k) := by
  have hpow : (0 : ℚ) < 10 ^ k := by positivity
  have hback (z : ℚ) : z = z * 10 ^ (-k) * 10 ^ k := by
    have hz := mul_zpow_mul_zpow_neg z (-k)
    rw [neg_neg] at hz
    exact hz.symm
  constructor
  · intro z hz hle
    rw [hback z] at hle ⊢
    exact mul_le_mul_of_nonneg_right
      (h.le _ (hz.mul_zpow _) (le_of_mul_le_mul_right hle hpow)) hpow.le
  · intro z hz hle
    rw [hback z] at hle ⊢
    exact mul_le_mul_of_nonneg_right
      (h.ge _ (hz.mul_zpow _) (le_of_mul_le_mul_right hle hpow)) hpow.le

end KeepsSide

namespace Decimal.Rounded

variable {num den places : Nat} {d : Decimal} {n : ℕ}

/-- Rounding does not cross an integer number of units of the last place, from
above. -/
theorem le_digits (h : Rounded num den places d) (hden : 0 < den)
    (hn : (n : ℚ) ≤ num / den * 10 ^ d.scale) : n ≤ d.digits := by
  rw [h.digits]
  refine le_roundQuotient_of_le _ hden ?_
  rw [← ratio_mul, le_div_iff₀ (by exact_mod_cast hden)] at hn
  exact_mod_cast hn

/-- And not from below. -/
theorem digits_le (h : Rounded num den places d) (hden : 0 < den)
    (hn : (num / den * 10 ^ d.scale : ℚ) ≤ n) : d.digits ≤ n := by
  rw [h.digits]
  refine roundQuotient_le_of_le _ hden ?_
  rw [← ratio_mul, div_le_iff₀ (by exact_mod_cast hden)] at hn
  exact_mod_cast hn

/-- Digits that are 28 at least cross no number of 28 digits. -/
theorem keepsSide_of_le (h : Rounded num den places d) (hden : 0 < den)
    (hlow : (10 ^ 27 : ℚ) ≤ num / den * 10 ^ d.scale) : KeepsSide 28 (num / den) d.toRat := by
  have hpow : (0 : ℚ) < 10 ^ d.scale := by positivity
  have hdigits := toRat_mul_pow h.negative
  have htens : 10 ^ 27 ≤ d.digits := h.le_digits hden (by exact_mod_cast hlow)
  constructor
  · intro z hz hle
    refine le_of_mul_le_mul_right ?_ hpow
    rw [hdigits]
    obtain ⟨m, hm⟩ | hsmall := hz.exists_units d.scale
    · rw [hm]
      exact_mod_cast h.le_digits hden (hm ▸ mul_le_mul_of_nonneg_right hle hpow.le)
    · exact hsmall.trans (by exact_mod_cast htens)
  · intro z hz hle
    refine le_of_mul_le_mul_right ?_ hpow
    have hscaled := mul_le_mul_of_nonneg_right hle hpow.le
    rw [hdigits]
    obtain ⟨m, hm⟩ | hsmall := hz.exists_units d.scale
    · rw [hm] at hscaled ⊢
      exact_mod_cast h.digits_le hden hscaled
    · have hupper : d.digits ≤ 10 ^ 27 :=
        h.digits_le hden (by exact_mod_cast hscaled.trans hsmall)
      calc (d.digits : ℚ)
          ≤ 10 ^ 27 := by exact_mod_cast hupper
        _ ≤ z * 10 ^ d.scale := hlow.trans hscaled

/-- Rounding crosses no number of 28 digits, for a quotient that is not much
smaller than one. The places may be as many as there are, or as many as are
needed. -/
theorem keepsSide (h : Rounded num den places d) (hden : 0 < den)
    (hone : (1 / 10 : ℚ) ≤ num / den)
    (hplaces : places = maxScale ∨ ∃ m : ℕ, (num / den : ℚ) * 10 ^ places = m) :
    KeepsSide 28 (num / den) d.toRat := by
  rcases h.scale_le.eq_or_lt with heq | hlt
  · rcases hplaces with hmax | ⟨m, hm⟩
    · refine h.keepsSide_of_le hden ?_
      rw [heq, hmax]
      norm_num
      linarith
    · rw [h.toRat_eq_of_natCast hden (heq ▸ hm)]
      exact .refl 28 _
  · refine h.keepsSide_of_le hden ?_
    have hfull := h.room_full hden hlt
    rw [pow_succ (10 : ℚ), ← mul_assoc] at hfull
    norm_num at hfull ⊢
    linarith

end Decimal.Rounded

end BeliefNet
