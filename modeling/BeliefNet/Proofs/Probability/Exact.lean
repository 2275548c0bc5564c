import Mathlib
import BeliefNet.Proofs.Probability.Product
import BeliefNet.Proofs.Probability.Sum

/-!
# Arithmetic without rounding

`HasPlaces k x` says that `x` is a natural number of units of `10 ^ -k`. For
numbers of at most one and 28 places the operations are exact:

* a product, if the places of its factors add up to at most 28
  (`exists_mul?_eq`);
* a sum of at most one (`roundedSum_eq`), and so one of any number of terms
  (`IsExact.exists_foldlM`).
-/

namespace BeliefNet

/-- At most `k` decimal places, and no sign. -/
def HasPlaces (k : Nat) (x : ℚ) : Prop := ∃ n : ℕ, x * 10 ^ k = n

namespace HasPlaces

variable {j k : Nat} {x y : ℚ}

theorem zero (k : Nat) : HasPlaces k 0 := ⟨0, by simp⟩

theorem one : HasPlaces 0 1 := ⟨1, by simp⟩

theorem mono (h : HasPlaces j x) (hjk : j ≤ k) : HasPlaces k x := by
  obtain ⟨n, hn⟩ := h
  refine ⟨n * 10 ^ (k - j), ?_⟩
  rw [← Nat.add_sub_cancel' hjk, pow_add, ← mul_assoc, hn, Nat.add_sub_cancel_left]
  push_cast
  rfl

theorem mul (h : HasPlaces j x) (h' : HasPlaces k y) : HasPlaces (j + k) (x * y) := by
  obtain ⟨n, hn⟩ := h
  obtain ⟨m, hm⟩ := h'
  refine ⟨n * m, ?_⟩
  push_cast
  rw [← hn, ← hm, pow_add]
  ring

theorem add (h : HasPlaces k x) (h' : HasPlaces k y) : HasPlaces k (x + y) := by
  obtain ⟨n, hn⟩ := h
  obtain ⟨m, hm⟩ := h'
  refine ⟨n + m, ?_⟩
  push_cast
  rw [← hn, ← hm]
  ring

theorem nonneg (h : HasPlaces k x) : 0 ≤ x := by
  obtain ⟨n, hn⟩ := h
  have hpow : (0 : ℚ) < 10 ^ k := by positivity
  refine nonneg_of_mul_nonneg_left ?_ hpow
  rw [hn]
  positivity

/-- A number with `k` places that is not zero is at least the unit of the last
of them. -/
theorem pow_le (h : HasPlaces k x) (hx : x ≠ 0) : (10 : ℚ) ^ (-k : ℤ) ≤ x := by
  obtain ⟨n, hn⟩ := h
  have hpow : (0 : ℚ) < 10 ^ k := by positivity
  have hone : 1 ≤ n := by
    rw [Nat.one_le_iff_ne_zero]
    rintro rfl
    rw [Nat.cast_zero, mul_eq_zero] at hn
    exact hn.elim hx hpow.ne'
  rw [zpow_neg, zpow_natCast, inv_le_iff_one_le_mul₀ hpow, hn]
  exact_mod_cast hone

/-- The entries of a table have as many places as are left when their zeros
are dropped. -/
theorem of_trim {d : Decimal} (h : d.InUnit) (hk : d.trim.scale ≤ k) : HasPlaces k d.toRat := by
  by_cases hdigits : d.digits = 0
  · rw [Decimal.toRat_eq_zero_of_digits hdigits]
    exact zero k
  · exact Decimal.toRat_mul_pow_eq_natCast (h.negative hdigits) hk

end HasPlaces

namespace Probability

open Decimal (Rounded maxScale)

variable {a b large small : Probability} {i j k : Nat}

/-- A number with `k` places has an exponent of at least `-k`. -/
theorem Normal.neg_le_exponent (h : a.Normal) (hzero : ¬a.isZero = true)
    (hk : HasPlaces k a.toRat) : -(k : ℤ) ≤ a.exponent :=
  h.le_exponent hzero (hk.pow_le (h.toRat_pos hzero).ne')

/-- A number of at most one has no positive exponent. -/
theorem Normal.exponent_nonpos (h : a.Normal) (hzero : ¬a.isZero = true) (hone : a.toRat ≤ 1) :
    a.exponent ≤ 0 := by
  have := h.exponent_lt hzero (k := 1) (by norm_num; linarith)
  omega

/-- Mantissas have the digits of the product, and no others: fewer than 96 bits
of them, if the places add up to at most 28. -/
theorem exists_digits_mul (hi : HasPlaces i a.toRat) (hj : HasPlaces j b.toRat)
    (hone : a.toRat ≤ 1) (hone' : b.toRat ≤ 1) (hbudget : i + j ≤ 28) {k : Nat}
    (hk : (k : ℤ) = (i + j : ℕ) + (a.exponent + b.exponent)) :
    ∃ n : ℕ, a.mantissa.toRat * b.mantissa.toRat * 10 ^ k = n ∧ n < 2 ^ 96 := by
  obtain ⟨n, hn⟩ := hi.mul hj
  refine ⟨n, ?_, ?_⟩
  · rw [← hn, toRat_mul_toRat, mul_assoc _ ((10 : ℚ) ^ (a.exponent + b.exponent)),
      ← zpow_natCast, ← zpow_natCast, hk, ← zpow_add₀ (by norm_num), add_comm]
  · have hle : (n : ℚ) ≤ 10 ^ 28 := by
      rw [← hn]
      calc a.toRat * b.toRat * 10 ^ (i + j)
          ≤ 1 * 10 ^ (i + j) := by
            gcongr
            exact mul_le_one₀ hone hj.nonneg hone'
        _ ≤ 10 ^ 28 := by
            rw [one_mul]
            exact pow_le_pow_right₀ (by norm_num) hbudget
    have hlt : n ≤ 10 ^ 28 := by exact_mod_cast hle
    omega

/-- A product whose places add up to at most 28 is exact. -/
theorem exists_mul?_eq (ha : a.Normal) (hb : b.Normal) (hi : HasPlaces i a.toRat)
    (hj : HasPlaces j b.toRat) (hone : a.toRat ≤ 1) (hone' : b.toRat ≤ 1)
    (hbudget : i + j ≤ 28) :
    ∃ c, a.mul? b = some c ∧ c.Normal ∧ c.toRat = a.toRat * b.toRat := by
  rcases ha with rfl | hma
  · exact ⟨zero, zero_mul? b, normal_zero, by simp⟩
  rcases hb with rfl | hmb
  · exact ⟨zero, mul?_of_isZero rfl, normal_zero, by simp⟩
  have hzero : ¬a.isZero = true := not_isZero hma
  have hzero' : ¬b.isZero = true := not_isZero hmb
  have hlow := Normal.neg_le_exponent (.inr hma) hzero hi
  have hlow' := Normal.neg_le_exponent (.inr hmb) hzero' hj
  have hhigh := Normal.exponent_nonpos (.inr hma) hzero hone
  have hhigh' := Normal.exponent_nonpos (.inr hmb) hzero' hone'
  have hsafe : SafeExponent (a.exponent + b.exponent) := by
    unfold SafeExponent
    omega
  obtain ⟨d, hrounded, hmul, hvalue⟩ := exists_mul? hma hmb hsafe
  refine ⟨_, hmul, normal_of_rounded hrounded _, ?_⟩
  rw [hvalue, toRat_mul_toRat]
  congr 1
  have hden := tenPow_pos (a.mantissa.scale + b.mantissa.scale)
  have hratio := hma.mul_ratio hmb
  obtain ⟨k, hk⟩ : ∃ k : ℕ, (k : ℤ) = (i + j : ℕ) + (a.exponent + b.exponent) :=
    ⟨((i + j : ℕ) + (a.exponent + b.exponent)).toNat, by omega⟩
  obtain ⟨n, hdigits, hroom⟩ := exists_digits_mul hi hj hone hone' hbudget hk
  -- the places that the decimal product asks for hold all of these digits
  obtain ⟨m, hm⟩ : ∃ m : ℕ, a.mantissa.toRat * b.mantissa.toRat *
      10 ^ min maxScale (a.mantissa.scale + b.mantissa.scale) = m := by
    rcases min_choice maxScale (a.mantissa.scale + b.mantissa.scale) with hmin | hmin
    · rw [hmin]
      exact HasPlaces.mono ⟨n, hdigits⟩ (by show k ≤ 28; omega)
    · refine ⟨a.mantissa.digits * b.mantissa.digits, ?_⟩
      rw [hmin, ← hratio, natCast_tenPow, div_mul_cancel₀]
      positivity
  rw [← hratio] at hdigits hm ⊢
  exact hrounded.toRat_eq hden hdigits hroom hm

/-- The units of a mantissa, from the places of the number. -/
theorem units_eq_of_places (ha : a.mantissa.IsMantissa) {n t : Nat} (hn : a.toRat * 10 ^ k = n)
    (ht : (t : ℤ) = 28 - a.exponent - k) : a.mantissa.units = n * 10 ^ t := by
  have hcast : (a.mantissa.units : ℚ) = ((n * 10 ^ t : ℕ) : ℚ) := by
    have hpow : (10 : ℚ) ^ a.exponent ≠ 0 := by positivity
    push_cast
    rw [← hn, toRat_eq_units ha, ← zpow_natCast _ t, ht, zpow_sub₀ (by norm_num),
      zpow_sub₀ (by norm_num), zpow_natCast]
    norm_num
    field_simp
  exact_mod_cast hcast

/-- A sum of at most one is exact, the larger term first. -/
theorem alignedSum_eq (hl : large.mantissa.IsMantissa) (hs : small.mantissa.IsMantissa)
    (hle : small.exponent ≤ large.exponent) (hk : HasPlaces k large.toRat)
    (hk' : HasPlaces k small.toRat) (hbudget : k ≤ 28) (hone : large.toRat + small.toRat ≤ 1) :
    alignedSum large small = large.toRat + small.toRat := by
  have hzero : ¬large.isZero = true := not_isZero hl
  have hzero' : ¬small.isZero = true := not_isZero hs
  have hhigh := Normal.exponent_nonpos (.inr hl) hzero (by linarith [hk'.nonneg])
  have hlow := Normal.neg_le_exponent (.inr hs) hzero' hk'
  obtain ⟨n, hn⟩ := hk
  obtain ⟨m, hm⟩ := hk'
  obtain ⟨t, ht⟩ : ∃ t : ℕ, (t : ℤ) = 28 - large.exponent - k :=
    ⟨(28 - large.exponent - k).toNat, by omega⟩
  have hlarge := units_eq_of_places hl hn ht
  have hsmall : small.mantissa.units =
      m * 10 ^ t * 10 ^ (large.exponent - small.exponent).toNat := by
    rw [mul_assoc, ← pow_add]
    exact units_eq_of_places hs hm (by push_cast; omega)
  have hsum : sumUnits large small = (n + m) * 10 ^ t := by
    rw [sumUnits, alignUnits_eq (by omega) hsmall, hlarge, ← Nat.add_mul]
    refine keepDigits_eq ?_
    rcases Nat.eq_zero_or_pos t with rfl | hpos
    · -- all places are used, and the sum is at most one
      left
      have hle : ((n + m : ℕ) : ℚ) ≤ 10 ^ 28 := by
        push_cast
        rw [← hn, ← hm, ← add_mul]
        calc (large.toRat + small.toRat) * 10 ^ k
            ≤ 1 * 10 ^ k := by gcongr
          _ ≤ 10 ^ 28 := by
              rw [one_mul]
              exact pow_le_pow_right₀ (by norm_num) hbudget
      have hle' : n + m ≤ 10 ^ 28 := by exact_mod_cast hle
      rw [pow_zero, mul_one, twoPow_eq]
      omega
    · exact .inr (Dvd.dvd.mul_left (dvd_pow_self 10 hpos.ne') _)
  have hpow : (10 : ℚ) ^ large.exponent ≠ 0 := by positivity
  rw [alignedSum, hsum]
  push_cast
  rw [← hn, ← hm, ← zpow_natCast _ t, ht, zpow_sub₀ (by norm_num), zpow_sub₀ (by norm_num),
    zpow_natCast]
  norm_num
  field_simp

/-- A sum of at most one is exact. -/
theorem roundedSum_eq (ha : a.Normal) (hb : b.Normal) (hk : HasPlaces k a.toRat)
    (hk' : HasPlaces k b.toRat) (hbudget : k ≤ 28) (hone : a.toRat + b.toRat ≤ 1) :
    roundedSum a b = a.toRat + b.toRat := by
  unfold roundedSum
  split
  · rename_i hzero
    rw [(toRat_eq_zero_iff b).2 hzero, add_zero]
  · rename_i hzero'
    split
    · rename_i hzero
      rw [(toRat_eq_zero_iff a).2 hzero, zero_add]
    · rename_i hzero
      split
      · rename_i hle
        exact alignedSum_eq (ha.isMantissa hzero) (hb.isMantissa hzero') hle hk hk' hbudget hone
      · rename_i hlt
        rw [add_comm] at hone ⊢
        exact alignedSum_eq (hb.isMantissa hzero') (ha.isMantissa hzero) (by omega) hk' hk
          hbudget hone

/-! ## Products and sums of many numbers -/

/-- `p` is the number `x` of the unit interval, which has `k` places. -/
structure IsExact (k : Nat) (x : ℚ) (p : Probability) : Prop where
  normal : p.Normal
  toRat_eq : p.toRat = x
  places : HasPlaces k x
  le_one : x ≤ 1

namespace IsExact

variable {x y : ℚ} {p q : Probability}

theorem zero (k : Nat) : IsExact k 0 zero :=
  ⟨normal_zero, toRat_zero, HasPlaces.zero k, zero_le_one⟩

theorem one : IsExact 0 1 one := ⟨normal_one, toRat_one, HasPlaces.one, le_rfl⟩

theorem mul {d : Decimal} (h : IsExact i x p) (hd : d.InUnit) (hj : d.trim.scale ≤ j)
    (hbudget : i + j ≤ 28) :
    ∃ q, p.mul? (ofDecimal d) = some q ∧ IsExact (i + j) (x * d.toRat) q := by
  obtain ⟨hnormal, rfl, hi, hone⟩ := h
  have hplaces : HasPlaces j d.toRat := HasPlaces.of_trim hd hj
  have hvalue := toRat_ofDecimal hd
  obtain ⟨q, hmul, hq, hproduct⟩ := exists_mul?_eq hnormal (normal_ofDecimal hd) hi
    (hvalue.symm ▸ hplaces) hone (hvalue.symm ▸ hd.toRat_le_one) hbudget
  rw [hvalue] at hproduct
  exact ⟨q, hmul, hq, hproduct, hi.mul hplaces,
    mul_le_one₀ hone hd.toRat_nonneg hd.toRat_le_one⟩

theorem add (hp : IsExact k x p) (hq : IsExact k y q) (hk : k ≤ 28) (hone : x + y ≤ 1) :
    ∃ c, p.add? q = some c ∧ IsExact k (x + y) c := by
  obtain ⟨c, hadd, hnormal, hvalue, -⟩ := exists_add? hp.normal hq.normal
  obtain ⟨hp, rfl, hi, -⟩ := hp
  obtain ⟨hq, rfl, hj, -⟩ := hq
  rw [roundedSum_eq hp hq hi hj hk hone] at hvalue
  exact ⟨c, hadd, hnormal, hvalue, hi.add hj, hone⟩

/-- A sum of any number of terms is exact, as long as it is at most one. -/
theorem exists_foldlM {terms : List Probability} (hp : IsExact k x p) (hk : k ≤ 28)
    (hterms : ∀ t ∈ terms, IsExact k t.toRat t)
    (hone : x + (terms.map toRat).sum ≤ 1) :
    ∃ sum, terms.foldlM add? p = some sum ∧
      IsExact k (x + (terms.map toRat).sum) sum := by
  induction terms generalizing x p with
  | nil => exact ⟨p, rfl, by simpa using hp⟩
  | cons t terms ih =>
    have hterms' : ∀ u ∈ terms, IsExact k u.toRat u := fun u hu =>
      hterms u (List.mem_cons_of_mem t hu)
    have hrest : 0 ≤ (terms.map toRat).sum := by
      refine List.sum_nonneg fun y hy => ?_
      obtain ⟨u, hu, rfl⟩ := List.mem_map.1 hy
      exact (hterms' u hu).normal.toRat_nonneg
    rw [List.map_cons, List.sum_cons, ← add_assoc] at hone ⊢
    obtain ⟨next, hadd, hnext⟩ := hp.add (hterms t List.mem_cons_self) hk (by linarith)
    rw [List.foldlM_cons, hadd]
    exact ih hnext hterms' hone

end IsExact

end Probability

end BeliefNet
