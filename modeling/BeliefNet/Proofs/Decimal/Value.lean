import Mathlib
import BeliefNet.Decimal.Basic
import BeliefNet.Proofs.Decimal.Nearest

/-!
# The numbers that decimals stand for

`Decimal.toRat` is the value of a decimal. An operation that rounds is
described by `Decimal.Rounded num den places d`: `d` is `num / den` at the most
places, `places` at most, at which the rounded digits have room.

* `exists_ofRatio?` says that `ofRatio?` finds such a decimal.
* `Rounded.abs_toRat_sub_le` and `Rounded.full` bound its error.
* `Rounded.toRat_eq` gives the cases in which there is none.
* `toRat_trim`, `toRat_round`, `toRat_complement` and `compare_eq` give the
  values of the other operations.
-/

namespace BeliefNet

@[simp]
theorem natCast_tenPow (k : Nat) : ((tenPow k : ℕ) : ℚ) = 10 ^ k := by
  simp [tenPow]

theorem tenPow_eq (k : Nat) : tenPow k = 10 ^ k := rfl

theorem twoPow_eq (k : Nat) : twoPow k = 2 ^ k := rfl

/-- A natural quotient is rounded without a sign. -/
theorem roundSignedQuotient_natCast (tie : TieRule) (num : Nat) {den : Nat} (hden : 0 < den) :
    roundSignedQuotient tie (num : ℤ) den = roundQuotient tie num den := by
  unfold roundSignedQuotient
  rw [Int.natAbs_natCast]
  rcases Nat.eq_zero_or_pos num with rfl | hpos
  · simp [roundQuotient_zero tie hden]
  · rw [Int.sign_eq_one_of_pos (by exact_mod_cast hpos), one_mul]

namespace Decimal

/-- The number that a decimal stands for. -/
def toRat (d : Decimal) : ℚ := d.coefficient / 10 ^ d.scale

theorem coefficient_of_nonneg {d : Decimal} (h : d.negative = false) :
    d.coefficient = d.digits := by
  simp [coefficient, h]

theorem toRat_eq_of_nonneg {d : Decimal} (h : d.negative = false) :
    d.toRat = d.digits / 10 ^ d.scale := by
  rw [toRat, coefficient_of_nonneg h, Int.cast_natCast]

theorem toRat_eq_zero_of_digits {d : Decimal} (h : d.digits = 0) : d.toRat = 0 := by
  simp [toRat, (coefficient_eq_zero d).2 h]

theorem toRat_eq_zero_iff (d : Decimal) : d.toRat = 0 ↔ d.digits = 0 := by
  rw [← coefficient_eq_zero]
  simp [toRat]

theorem digits_ne_zero_of_pos {d : Decimal} (h : 0 < d.toRat) : d.digits ≠ 0 := by
  rw [Ne, ← toRat_eq_zero_iff]
  exact h.ne'

/-- A number that is not negative has no sign, unless it is zero. -/
theorem negative_of_nonneg {d : Decimal} (h : 0 ≤ d.toRat) (hdigits : d.digits ≠ 0) :
    d.negative = false := by
  by_contra hneg
  rw [Bool.not_eq_false] at hneg
  have hpos : (0 : ℚ) < d.digits / 10 ^ d.scale := by positivity
  have hvalue : d.toRat = -(d.digits / 10 ^ d.scale) := by
    simp [toRat, coefficient, hneg, neg_div]
  linarith

@[simp]
theorem toRat_zero : zero.toRat = 0 := toRat_eq_zero_of_digits rfl

@[simp]
theorem toRat_one : one.toRat = 1 := by
  simp [toRat_eq_of_nonneg, one]

/-- The value times the power of its scale gives the digits back. -/
theorem toRat_mul_pow {d : Decimal} (h : d.negative = false) :
    d.toRat * 10 ^ d.scale = d.digits := by
  rw [toRat_eq_of_nonneg h, div_mul_cancel₀]
  positivity

/-! ## Rounding a quotient -/

/-- `d` is `num / den` rounded once, a half to the even neighbour, at the most
places, `places` at most, at which the digits have room. -/
structure Rounded (num den places : Nat) (d : Decimal) : Prop where
  negative : d.negative = false
  scale_le : d.scale ≤ places
  digits : d.digits = roundQuotient .toEven (num * tenPow d.scale) den
  full : ∀ k, d.scale < k → k ≤ places →
    twoPow 96 ≤ roundQuotient .toEven (num * tenPow k) den

/-- Digits with room make a decimal. -/
theorem exists_ofParts? {digits scale : Nat} (hdigits : digits < twoPow 96)
    (hscale : scale ≤ maxScale) :
    ∃ d, ofParts? (digits : ℤ) scale = some d ∧
      d.negative = false ∧ d.digits = digits ∧ d.scale = scale := by
  unfold ofParts?
  rw [dif_pos ⟨by simpa using hdigits, hscale⟩]
  exact ⟨_, rfl, by simp, by simp, rfl⟩

theorem ofParts?_eq_none {digits scale : Nat} (hdigits : twoPow 96 ≤ digits) :
    ofParts? (digits : ℤ) scale = none := by
  unfold ofParts?
  rw [dif_neg]
  rintro ⟨hlt, -⟩
  rw [Int.natAbs_natCast] at hlt
  omega

/-- A quotient whose integer has room is rounded. -/
theorem exists_ofRatio? {num den places : Nat} (hden : 0 < den)
    (hfit : roundQuotient .toEven num den < twoPow 96) (hplaces : places ≤ maxScale) :
    ∃ d, ofRatio? (num : ℤ) den places = some d ∧ Rounded num den places d := by
  induction places with
  | zero =>
    obtain ⟨d, hd, hneg, hdigits, hscale⟩ := exists_ofParts? hfit hplaces
    refine ⟨d, ?_, hneg, hscale.le, ?_, fun k hk hk' => by omega⟩
    · rw [ofRatio?, roundSignedQuotient_natCast _ _ hden, hd]
    · rw [hdigits, hscale, show tenPow 0 = 1 from rfl, Nat.mul_one]
  | succ places ih =>
    have hcast : (num : ℤ) * tenPow (places + 1) = ((num * tenPow (places + 1) : ℕ) : ℤ) := by
      push_cast
      rfl
    rw [ofRatio?, hcast, roundSignedQuotient_natCast _ _ hden]
    rcases Nat.lt_or_ge (roundQuotient .toEven (num * tenPow (places + 1)) den) (twoPow 96)
      with hroom | hroom
    · obtain ⟨d, hd, hneg, hdigits, hscale⟩ := exists_ofParts? hroom hplaces
      refine ⟨d, by rw [hd]; rfl, hneg, hscale.le, by rw [hdigits, hscale], ?_⟩
      intro k hk hk'
      omega
    · -- no room at this many places, so the search goes on with one less
      obtain ⟨d, hd, hrounded⟩ := ih (by omega)
      refine ⟨d, by rw [ofParts?_eq_none hroom, hd]; rfl, hrounded.negative,
        hrounded.scale_le.trans (Nat.le_succ _), hrounded.digits, ?_⟩
      intro k hk hk'
      rcases hk'.eq_or_lt with rfl | hlt
      · exact hroom
      · exact hrounded.full k hk (by omega)

namespace Rounded

variable {num den places : Nat} {d : Decimal}

theorem ratio_mul (num den k : Nat) :
    ((num * tenPow k : ℕ) : ℚ) / den = num / den * 10 ^ k := by
  push_cast
  rw [natCast_tenPow]
  ring

/-- The error is at most half a unit of the last place. -/
theorem abs_toRat_sub_le (h : Rounded num den places d) (hden : 0 < den) :
    |d.toRat - num / den| ≤ 1 / 2 / 10 ^ d.scale := by
  have hpow : (0 : ℚ) < 10 ^ d.scale := by positivity
  have hnear := abs_roundQuotient_sub_le .toEven (num * tenPow d.scale) hden
  rw [← h.digits, ratio_mul, ← toRat_mul_pow h.negative, ← sub_mul, abs_mul,
    abs_of_pos hpow] at hnear
  rwa [le_div_iff₀ hpow]

/-- If places are left out, the digits are as many as there is room for. -/
theorem room_full (h : Rounded num den places d) (hden : 0 < den) (hlt : d.scale < places) :
    (2 ^ 96 : ℚ) ≤ num / den * 10 ^ (d.scale + 1) + 1 / 2 := by
  have hroom : ((twoPow 96 : ℕ) : ℚ) ≤
      roundQuotient .toEven (num * tenPow (d.scale + 1)) den := by
    exact_mod_cast h.full _ (Nat.lt_succ_self _) hlt
  have hnear := (abs_le.1 (abs_roundQuotient_sub_le .toEven (num * tenPow (d.scale + 1)) hden)).2
  rw [ratio_mul] at hnear
  rw [twoPow_eq] at hroom
  push_cast at hroom
  linarith

/-- There is no error where the scaled quotient is an integer. -/
theorem toRat_eq_of_natCast (h : Rounded num den places d) (hden : 0 < den) {n : Nat}
    (hn : (num / den : ℚ) * 10 ^ d.scale = n) : d.toRat = num / den := by
  have hpow : (10 : ℚ) ^ d.scale ≠ 0 := by positivity
  have hden' : (den : ℚ) ≠ 0 := by exact_mod_cast hden.ne'
  have hnum : num * tenPow d.scale = n * den := by
    have : ((num * tenPow d.scale : ℕ) : ℚ) = ((n * den : ℕ) : ℚ) := by
      push_cast
      rw [natCast_tenPow, ← hn]
      field_simp
    exact_mod_cast this
  rw [← mul_left_inj' hpow, hn, toRat_mul_pow h.negative, h.digits, hnum,
    roundQuotient_mul_self _ _ hden]

/-- There is no error if the quotient has few enough digits, and as many places
as were asked for hold them. -/
theorem toRat_eq (h : Rounded num den places d) (hden : 0 < den) {n k m : Nat}
    (hn : (num / den : ℚ) * 10 ^ k = n) (hroom : n < 2 ^ 96)
    (hm : (num / den : ℚ) * 10 ^ places = m) : d.toRat = num / den := by
  rcases h.scale_le.eq_or_lt with heq | hlt
  · exact h.toRat_eq_of_natCast hden (heq ▸ hm)
  · rcases Nat.lt_or_ge d.scale k with hk | hk
    · -- one place more would still have had room
      exfalso
      have hfull := h.room_full hden hlt
      have hle : (num / den : ℚ) * 10 ^ (d.scale + 1) ≤ n := by
        rw [← hn]
        gcongr
        · norm_num
        · exact hk
      have hroom' : (n : ℚ) + 1 ≤ 2 ^ 96 := by exact_mod_cast hroom
      linarith
    · refine h.toRat_eq_of_natCast hden (n := n * 10 ^ (d.scale - k)) ?_
      push_cast
      rw [← hn, mul_assoc, ← pow_add]
      congr 2
      omega

/-- Rounding does not cross an integer. -/
theorem toRat_le_natCast (h : Rounded num den places d) (hden : 0 < den) {n : Nat}
    (hn : (num / den : ℚ) ≤ n) : d.toRat ≤ n := by
  have hle : num ≤ n * den := by
    rw [div_le_iff₀ (by exact_mod_cast hden)] at hn
    exact_mod_cast hn
  have hdigits : d.digits ≤ n * tenPow d.scale := by
    rw [h.digits]
    refine roundQuotient_le_of_le _ hden ?_
    rw [Nat.mul_right_comm]
    exact Nat.mul_le_mul_right _ hle
  rw [toRat_eq_of_nonneg h.negative, div_le_iff₀ (by positivity)]
  exact_mod_cast hdigits

end Rounded

/-! ## Zeros at the end -/

/-- Dropped zeros can be put back. -/
theorem dropZeros_eq (digits scale : Nat) :
    digits = (dropZeros digits scale).1 * 10 ^ (scale - (dropZeros digits scale).2) := by
  induction scale generalizing digits with
  | zero => simp [dropZeros]
  | succ scale ih =>
    unfold dropZeros
    split
    · rename_i hzero
      have hle := snd_dropZeros_le (digits / 10) scale
      rw [Nat.succ_sub hle, pow_succ, ← mul_assoc, ← ih]
      omega
    · simp

/-- What is left ends in a digit that is not zero, or has no fraction. -/
theorem dropZeros_trimmed (digits scale : Nat) :
    (dropZeros digits scale).2 = 0 ∨ (dropZeros digits scale).1 % 10 ≠ 0 := by
  induction scale generalizing digits with
  | zero => exact .inl rfl
  | succ scale ih =>
    unfold dropZeros
    split
    · exact ih _
    · rename_i hlast
      exact .inr hlast

theorem digits_trim (d : Decimal) :
    d.digits = d.trim.digits * 10 ^ (d.scale - d.trim.scale) :=
  dropZeros_eq d.digits d.scale

theorem scale_trim_le (d : Decimal) : d.trim.scale ≤ d.scale :=
  snd_dropZeros_le _ _

/-- Zeros at the end of the fraction do not count. -/
@[simp]
theorem toRat_trim (d : Decimal) : d.trim.toRat = d.toRat := by
  have hpow : (10 : ℚ) ^ d.scale = 10 ^ d.trim.scale * 10 ^ (d.scale - d.trim.scale) := by
    rw [← pow_add, Nat.add_sub_cancel' (scale_trim_le d)]
  have hdigits : (d.digits : ℚ) = d.trim.digits * 10 ^ (d.scale - d.trim.scale) := by
    exact_mod_cast digits_trim d
  have habs : (d.digits : ℚ) / 10 ^ d.scale = d.trim.digits / 10 ^ d.trim.scale := by
    rw [hdigits, hpow]
    field_simp
  have hneg : d.trim.negative = d.negative := rfl
  unfold toRat coefficient
  rw [hneg]
  split
  · push_cast
    rw [neg_div, neg_div, habs]
  · push_cast
    rw [habs]

/-- The digits are the value at the number of places kept. -/
theorem toRat_mul_pow_eq_natCast {d : Decimal} (h : d.negative = false) {k : Nat}
    (hk : d.trim.scale ≤ k) : ∃ n : ℕ, d.toRat * 10 ^ k = n := by
  refine ⟨d.trim.digits * 10 ^ (k - d.trim.scale), ?_⟩
  have hneg : d.trim.negative = false := h
  rw [← toRat_trim, ← Nat.add_sub_cancel' hk, pow_add, ← mul_assoc, toRat_mul_pow hneg,
    Nat.add_sub_cancel_left]
  push_cast
  rfl

/-! ## The leading digit -/

/-- The exponent of the leading digit is the logarithm of the digits. -/
theorem leading_eq_log (d : Decimal) : d.leading = Nat.log 10 d.digits := by
  have hlog : Nat.log 10 d.digits ≤ maxScale := by
    have hlt : d.digits < 10 ^ (maxScale + 1) := d.digits_lt.trans (by decide)
    have := Nat.log_lt_of_lt_pow' (Nat.succ_ne_zero _) hlt
    omega
  have hpower : ∀ k, (tenPow (k + 1) ≤ d.digits ↔ k < Nat.log 10 d.digits) := by
    intro k
    rcases Nat.eq_zero_or_pos d.digits with hzero | hpos
    · simp [hzero, tenPow_eq]
    · rw [tenPow_eq, ← Nat.le_log_iff_pow_le (by decide) hpos.ne']
      exact Nat.succ_le_iff
  unfold leading powersOfTen
  simp only [List.countP_map, Function.comp_def, hpower]
  -- the powers that are counted are the first ones
  generalize Nat.log 10 d.digits = length at hlog
  rw [List.countP_eq_length_filter]
  have hfilter : (List.range maxScale).filter (fun k => decide (k < length)) =
      List.range length := by
    conv_lhs => rw [← Nat.add_sub_cancel' hlog, List.range_add]
    rw [List.filter_append, List.filter_eq_self.2 fun k hk => by simpa using hk,
      List.filter_eq_nil_iff.2 fun k hk => by simp at hk ⊢; omega, List.append_nil]
  rw [hfilter, List.length_range]

theorem tenPow_leading_le {d : Decimal} (h : d.digits ≠ 0) : 10 ^ d.leading ≤ d.digits := by
  rw [leading_eq_log]
  exact Nat.pow_log_le_self 10 h

theorem lt_tenPow_leading (d : Decimal) : d.digits < 10 ^ (d.leading + 1) := by
  rw [leading_eq_log]
  exact Nat.lt_pow_succ_log_self (by decide) _

/-! ## Rounding, order and complement -/

/-- Rounding to a number of places gives the nearest number with so many
places, of two the larger. -/
theorem toRat_round {d : Decimal} (h : d.negative = false) (places : Nat) :
    (d.round .awayFromZero places).toRat = ⌊d.toRat * 10 ^ places + 1 / 2⌋ / 10 ^ places := by
  unfold Decimal.round
  split
  · rename_i hlt
    have hscale : d.toRat * 10 ^ places = d.digits / (tenPow (d.scale - places) : ℕ) := by
      have hpow : (10 : ℚ) ^ d.scale = 10 ^ places * 10 ^ (d.scale - places) := by
        rw [← pow_add, Nat.add_sub_cancel' hlt.le]
      rw [toRat_eq_of_nonneg h, hpow, natCast_tenPow]
      field_simp
    rw [hscale, ← roundQuotient_awayFromZero _ (tenPow_pos _), Int.cast_natCast]
    exact toRat_eq_of_nonneg h
  · rename_i hle
    have hint : d.toRat * 10 ^ places = ((d.digits * 10 ^ (places - d.scale) : ℕ) : ℤ) := by
      have hpow : (10 : ℚ) ^ places = 10 ^ d.scale * 10 ^ (places - d.scale) := by
        rw [← pow_add, Nat.add_sub_cancel' (Nat.le_of_not_lt hle)]
      rw [hpow, ← mul_assoc, toRat_mul_pow h]
      push_cast
      rfl
    have hfloor : ⌊d.toRat * 10 ^ places + 1 / 2⌋ =
        ((d.digits * 10 ^ (places - d.scale) : ℕ) : ℤ) := by
      rw [hint, Int.floor_intCast_add]
      norm_num
    rw [hfloor, ← hint, mul_div_cancel_right₀]
    positivity

/-- The order of decimals is that of their values. -/
theorem compare_eq (a b : Decimal) : a.compare b = cmp a.toRat b.toRat := by
  have ha : a.toRat = (a.coefficient * tenPow b.scale : ℤ) / 10 ^ (a.scale + b.scale) := by
    rw [toRat, pow_add]
    push_cast
    rw [natCast_tenPow]
    field_simp
  have hb : b.toRat = (b.coefficient * tenPow a.scale : ℤ) / 10 ^ (a.scale + b.scale) := by
    rw [toRat, pow_add]
    push_cast
    rw [natCast_tenPow]
    field_simp
  have hpow : (0 : ℚ) < 10 ^ (a.scale + b.scale) := by positivity
  -- over one denominator, the numerators decide
  have hmono : StrictMono fun n : ℤ => (n : ℚ) / 10 ^ (a.scale + b.scale) := by
    intro m n hmn
    have : (m : ℚ) < n := by exact_mod_cast hmn
    exact div_lt_div_of_pos_right this hpow
  rw [ha, hb, compare]
  exact (cmp_eq_compare _ _).symm.trans (hmono.cmp_map_eq _ _).symm

theorem InUnit.toRat_nonneg {d : Decimal} (h : d.InUnit) : 0 ≤ d.toRat := by
  have hcoefficient : (0 : ℚ) ≤ d.coefficient := by exact_mod_cast h.1
  unfold toRat
  positivity

/-- A number between 0 and 1 is negative at most in its sign. -/
theorem InUnit.negative {d : Decimal} (h : d.InUnit) (hdigits : d.digits ≠ 0) :
    d.negative = false :=
  negative_of_nonneg h.toRat_nonneg hdigits

theorem InUnit.toRat_le_one {d : Decimal} (h : d.InUnit) : d.toRat ≤ 1 := by
  have hle : (d.coefficient : ℚ) ≤ ((tenPow d.scale : ℕ) : ℚ) := by exact_mod_cast h.2
  rw [natCast_tenPow] at hle
  unfold toRat
  exact div_le_one_of_le₀ hle (by positivity)

/-- The complement is one minus the number. -/
theorem toRat_complement {d : Decimal} (h : d.InUnit) : d.complement.toRat = 1 - d.toRat := by
  unfold complement
  split
  · rename_i hzero
    simp [toRat_eq_zero_of_digits hzero]
  · rename_i hdigits
    have hneg := h.negative hdigits
    have hle : d.digits ≤ tenPow d.scale := by
      have hle := h.2
      simp only [coefficient, hneg, Bool.false_eq_true, if_false] at hle
      exact_mod_cast hle
    have hpow : (10 : ℚ) ^ d.scale ≠ 0 := by positivity
    rw [toRat_eq_of_nonneg rfl, toRat_eq_of_nonneg hneg, Nat.cast_sub hle, natCast_tenPow, sub_div,
      div_self hpow]

theorem inUnit_complement (d : Decimal) : d.complement.InUnit := by
  unfold complement
  split
  · decide
  · rename_i hdigits
    unfold InUnit coefficient
    have := Nat.sub_le (tenPow d.scale) d.digits
    simp only [Bool.false_eq_true, if_false]
    omega

end Decimal

end BeliefNet
