import Mathlib
import BeliefNet.Proofs.Probability.Exact

/-!
# Running products and sums

A product of `k` entries has gone through `k` roundings, and a sum of `k`
terms too. `RunningProduct` and `RunningSum` say how far they may be from the
exact product and sum, and how small they are if they are not zero; from that
follow bounds on the exponents, which is why no step overflows
(`RunningProduct.step`, `RunningSum.step`). A sum of fewer terms, in the same
order, is not larger (`sum_le_of_sublist`).
-/

namespace BeliefNet

/-- The smallest entry that is not zero has all its 28 places. -/
theorem Decimal.InUnit.pow_le {d : Decimal} (h : d.InUnit) (hne : d.toRat ≠ 0) :
    (10 : ℚ) ^ (-28 : ℤ) ≤ d.toRat :=
  (HasPlaces.of_trim h (d.scale_trim_le.trans d.scale_le)).pow_le hne

/-- Networks this large keep all exponents far from the ends of their range. -/
def maxVariables : Nat := 10 ^ 7

namespace Probability

/-! ## Products -/

/-- The invariant of a product: `k` entries with the exact product `x` have
been multiplied. -/
structure RunningProduct (k : Nat) (x : ℚ) (p : Probability) : Prop where
  normal : p.Normal
  within : Within k x p.toRat
  le_one : x ≤ 1
  low : x = 0 ∨ (10 : ℚ) ^ (-28 * k : ℤ) ≤ x

namespace RunningProduct

variable {k : Nat} {x : ℚ} {p : Probability}

theorem one : RunningProduct 0 1 .one where
  normal := normal_one
  within := by
    rw [toRat_one]
    exact Within.refl 1
  le_one := le_rfl
  low := .inr (by simp)

theorem zero (k : Nat) : RunningProduct k 0 .zero where
  normal := normal_zero
  within := by
    rw [toRat_zero]
    exact Within.zero k
  le_one := zero_le_one
  low := .inl rfl

theorem nonneg (h : RunningProduct k x p) : 0 ≤ x := by
  rcases h.low with rfl | hlow
  · exact le_rfl
  · exact le_trans (by positivity) hlow

/-- Only a product that is zero is rounded to zero. -/
theorem isZero_iff (h : RunningProduct k x p) : p.isZero = true ↔ x = 0 := by
  rw [← toRat_eq_zero_iff]
  exact h.within.eq_zero_iff h.nonneg

theorem exponent_bounds (h : RunningProduct k x p) (hk : k ≤ 10 ^ 20) :
    -28 * k - 1 ≤ p.exponent ∧ p.exponent ≤ 0 := by
  rcases h.low with rfl | hlow
  · rw [h.normal.eq_zero_of_isZero (h.isZero_iff.2 rfl)]
    exact ⟨by show (-28 * k - 1 : ℤ) ≤ 0; omega, le_rfl⟩
  · exact h.normal.exponent_of_within _ 0 h.within hk hlow (by simpa using h.le_one)

/-- One entry more is one rounding more, and no overflow. -/
theorem step {d : Decimal} (h : RunningProduct k x p) (hk : k ≤ maxVariables) (hd : d.InUnit) :
    ∃ q, p.mul? (ofDecimal d) = some q ∧ RunningProduct (k + 1) (x * d.toRat) q ∧
      p.mul (ofDecimal d) = some (.ok q) := by
  have hfactor := normal_ofDecimal hd
  have hvalue := toRat_ofDecimal hd
  unfold maxVariables at hk
  have hbounds := h.exponent_bounds (by omega)
  have hfactorBounds : -28 ≤ (ofDecimal d).exponent ∧ (ofDecimal d).exponent ≤ 0 := by
    by_cases hzero : (ofDecimal d).isZero = true
    · rw [hfactor.eq_zero_of_isZero hzero]
      exact ⟨by decide, le_rfl⟩
    · have hne : d.toRat ≠ 0 := by
        rw [← hvalue]
        exact (hfactor.toRat_pos hzero).ne'
      refine ⟨hfactor.le_exponent hzero ?_, hfactor.exponent_nonpos hzero ?_⟩
      · rw [hvalue]
        exact hd.pow_le hne
      · rw [hvalue]
        exact hd.toRat_le_one
  have hsafe : SafeExponent (p.exponent + (ofDecimal d).exponent) := by
    unfold SafeExponent
    omega
  obtain ⟨q, hmul, hnormal, hwithin⟩ := exists_mul?_within h.normal hfactor hsafe
  rw [hvalue] at hwithin
  -- the error so far scales with the entry, and the new rounding comes on top
  have hnext : RunningProduct (k + 1) (x * d.toRat) q := by
    refine ⟨hnormal, (h.within.mul_right hd.toRat_nonneg).trans hwithin,
      mul_le_one₀ h.le_one hd.toRat_nonneg hd.toRat_le_one, ?_⟩
    rcases h.low with rfl | hlow
    · exact .inl (zero_mul _)
    · by_cases hne : d.toRat = 0
      · exact .inl (by rw [hne, mul_zero])
      · right
        calc (10 : ℚ) ^ (-28 * (k + 1 : ℕ) : ℤ)
            = 10 ^ (-28 * k : ℤ) * 10 ^ (-28 : ℤ) := by
              rw [← zpow_add₀ (by norm_num)]
              congr 1
              push_cast
              ring
          _ ≤ x * d.toRat := by
              gcongr
              · exact h.nonneg
              · exact hd.pow_le hne
  refine ⟨q, hmul, hnext, mul_of_mul? hmul ?_⟩
  have hexponent := hnext.exponent_bounds (by omega)
  unfold InRange
  push_cast at hexponent
  omega

end RunningProduct

/-! ## Sums -/

/-- The invariant of a sum: `k` terms with the sum `x` have been added, none of
them between zero and `10 ^ low`. -/
structure RunningSum (low : ℤ) (k : Nat) (x : ℚ) (total : Probability) : Prop where
  normal : total.Normal
  within : Within k x total.toRat
  low : x = 0 ∨ (10 : ℚ) ^ low ≤ x

/-- What a sum is made of. -/
structure Summand (low : ℤ) (term : Probability) : Prop where
  normal : term.Normal
  le_two : term.toRat ≤ 2
  low : term.toRat = 0 ∨ (10 : ℚ) ^ low ≤ term.toRat

theorem RunningProduct.summand {k : Nat} {x : ℚ} {p : Probability} (h : RunningProduct k x p)
    (hk : k ≤ maxVariables) : Summand (-28 * k - 1) p where
  normal := h.normal
  le_two := by
    have := h.within.le_two_mul h.nonneg (hk.trans (by norm_num [maxVariables]))
    linarith [h.le_one]
  low := by
    by_cases hzero : p.isZero = true
    · exact .inl ((toRat_eq_zero_iff p).2 hzero)
    · right
      calc (10 : ℚ) ^ (-28 * k - 1 : ℤ)
          ≤ 10 ^ p.exponent :=
            zpow_le_zpow_right₀ (by norm_num)
              (h.exponent_bounds (hk.trans (by norm_num [maxVariables]))).1
        _ ≤ p.toRat := h.normal.pow_exponent_le hzero

theorem Summand.hasRoom {low : ℤ} {term : Probability} (h : Summand low term)
    (hlow : -2 ^ 30 ≤ low) : HasRoom term.exponent := by
  by_cases hzero : term.isZero = true
  · rw [h.normal.eq_zero_of_isZero hzero]
    exact ⟨by decide, by decide⟩
  · have hle : low ≤ term.exponent := by
      refine h.normal.le_exponent hzero ?_
      rcases h.low with hvalue | hle
      · exact absurd hvalue (h.normal.toRat_pos hzero).ne'
      · exact hle
    have hlt : term.exponent < 1 := by
      refine h.normal.exponent_lt hzero ?_
      norm_num
      linarith [h.le_two]
    unfold HasRoom
    omega

namespace RunningSum

variable {low : ℤ} {k : Nat} {x : ℚ} {total term : Probability}

theorem zero (low : ℤ) : RunningSum low 0 0 .zero where
  normal := normal_zero
  within := by
    rw [toRat_zero]
    exact Within.zero 0
  low := .inl rfl

theorem nonneg (h : RunningSum low k x total) : 0 ≤ x := by
  rcases h.low with rfl | hlow
  · exact le_rfl
  · exact le_trans (by positivity) hlow

/-- The totals stay below `10 ^ 20`, which bounds their exponents. -/
theorem exponent_bounds (h : RunningSum low k x total) (hk : k ≤ 10 ^ 20) (hx : x ≤ 10 ^ 20)
    (hlow : low ≤ 0) : low - 1 ≤ total.exponent ∧ total.exponent ≤ 20 := by
  rcases h.low with rfl | hle
  · have hzero : total.isZero = true :=
      (toRat_eq_zero_iff total).1 ((h.within.eq_zero_iff le_rfl).2 rfl)
    rw [h.normal.eq_zero_of_isZero hzero]
    exact ⟨by show low - 1 ≤ 0; omega, by decide⟩
  · exact h.normal.exponent_of_within low 20 h.within hk hle (by exact_mod_cast hx)

/-- One term more is one rounding more, and no overflow. -/
theorem step (h : RunningSum low k x total) (hterm : Summand low term) (hk : k ≤ 10 ^ 20)
    (hx : x ≤ 10 ^ 20) (hlow : -2 ^ 30 ≤ low) (hlow' : low ≤ 0) :
    ∃ sum, total.add? term = some sum ∧ RunningSum low (k + 1) (x + term.toRat) sum ∧
      sum.toRat = roundedSum total term ∧ total.add term = some (.ok sum) := by
  have hbounds := h.exponent_bounds hk hx hlow'
  have hroom : HasRoom total.exponent := by
    unfold HasRoom
    omega
  obtain ⟨sum, hadd, hnormal, hvalue, -⟩ := exists_add? h.normal hterm.normal
  obtain ⟨-, hrun⟩ := add_of_add? h.normal hterm.normal hroom (hterm.hasRoom hlow) hadd
  refine ⟨sum, hadd, ⟨hnormal, ?_, ?_⟩, hvalue, hrun⟩
  · -- the term is exact, so it may stand in for one with the error of the total
    have hexact : Within k term.toRat term.toRat :=
      (Within.refl _).mono hterm.normal.toRat_nonneg (Nat.zero_le k)
    rw [hvalue]
    exact (h.within.add hexact).trans (within_roundedSum h.normal hterm.normal)
  · rcases hterm.low with hzero | hle
    · rw [hzero, add_zero]
      exact h.low
    · right
      linarith [h.nonneg]

end RunningSum

variable {low : ℤ} {k : Nat} {x : ℚ} {total : Probability}

/-- The sum of some terms, one rounding for each. -/
theorem RunningSum.exists_foldlM {terms : List Probability} (h : RunningSum low k x total)
    (hterms : ∀ term ∈ terms, Summand low term) (hk : k + 2 * terms.length ≤ 10 ^ 20)
    (hx : x + 2 * terms.length ≤ 10 ^ 20) (hlow : -2 ^ 30 ≤ low) (hlow' : low ≤ 0) :
    ∃ sum, terms.foldlM add? total = some sum ∧
      RunningSum low (k + terms.length) (x + (terms.map toRat).sum) sum := by
  induction terms generalizing k x total with
  | nil => exact ⟨total, rfl, by simpa using h⟩
  | cons term terms ih =>
    have hterm := hterms term List.mem_cons_self
    rw [List.length_cons] at hk hx
    push_cast at hx
    have hlength : (0 : ℚ) ≤ terms.length := by positivity
    obtain ⟨next, hadd, hnext, -⟩ := h.step hterm (by omega) (by linarith) hlow hlow'
    obtain ⟨sum, hfold, hsum⟩ := ih hnext
      (fun term hterm => hterms term (List.mem_cons_of_mem _ hterm)) (by omega)
      (by linarith [hterm.le_two])
    refine ⟨sum, ?_, ?_⟩
    · rw [List.foldlM_cons, hadd]
      exact hfold
    · rw [List.length_cons, List.map_cons, List.sum_cons, ← add_assoc, ← add_assoc,
        Nat.add_right_comm]
      exact hsum

/-- Terms that are left out make a sum smaller, and so does a smaller start. -/
theorem RunningSum.le_of_sublist {x' : ℚ} {k' : Nat} {total' sum sum' : Probability}
    {terms terms' : List Probability} (hsub : terms'.Sublist terms)
    (h : RunningSum low k x total) (h' : RunningSum low k' x' total')
    (hterms : ∀ term ∈ terms, Summand low term) (hk : k + 2 * terms.length ≤ 10 ^ 20)
    (hk' : k' + 2 * terms'.length ≤ 10 ^ 20) (hx : x + 2 * terms.length ≤ 10 ^ 20)
    (hx' : x' + 2 * terms'.length ≤ 10 ^ 20) (hlow : -2 ^ 30 ≤ low) (hlow' : low ≤ 0)
    (hle : total'.toRat ≤ total.toRat) (hsum : terms.foldlM add? total = some sum)
    (hsum' : terms'.foldlM add? total' = some sum') : sum'.toRat ≤ sum.toRat := by
  induction hsub generalizing k k' x x' total total' with
  | slnil =>
    cases hsum
    cases hsum'
    exact hle
  | @cons terms' terms term hsub ih =>
    have hterm := hterms term List.mem_cons_self
    rw [List.length_cons] at hk hx
    push_cast at hx
    have hlength : (0 : ℚ) ≤ terms.length := by positivity
    obtain ⟨next, hadd, hnext, hvalue, -⟩ := h.step hterm (by omega) (by linarith) hlow hlow'
    rw [List.foldlM_cons, hadd] at hsum
    -- only the longer sum has this term, and it grows by it
    refine ih hnext h' (fun term hterm => hterms term (List.mem_cons_of_mem _ hterm))
      (by omega) hk' (by linarith [hterm.le_two]) hx' (hle.trans ?_) hsum hsum'
    rw [hvalue]
    exact le_roundedSum_left h.normal hterm.normal
  | @cons_cons terms' terms term hsub ih =>
    have hterm := hterms term List.mem_cons_self
    rw [List.length_cons] at hk hx hk' hx'
    push_cast at hx hx'
    have hlength : (0 : ℚ) ≤ terms.length := by positivity
    have hlength' : (0 : ℚ) ≤ terms'.length := by positivity
    obtain ⟨next, hadd, hnext, hvalue, -⟩ := h.step hterm (by omega) (by linarith) hlow hlow'
    obtain ⟨next', hadd', hnext', hvalue', -⟩ :=
      h'.step hterm (by omega) (by linarith) hlow hlow'
    rw [List.foldlM_cons, hadd] at hsum
    rw [List.foldlM_cons, hadd'] at hsum'
    -- both sums have this term, and adding it keeps their order
    refine ih hnext hnext' (fun term hterm => hterms term (List.mem_cons_of_mem _ hterm))
      (by omega) (by omega) (by linarith [hterm.le_two]) (by linarith [hterm.le_two]) ?_ hsum
      hsum'
    rw [hvalue, hvalue']
    exact roundedSum_le_roundedSum h'.normal h.normal hterm.normal hle

/-- A sum from zero, and the bounds of its exponent. -/
theorem exists_sum {terms : List Probability} (hterms : ∀ term ∈ terms, Summand low term)
    (hcount : 2 * terms.length ≤ 10 ^ 20) (hlow : -2 ^ 30 ≤ low) (hlow' : low ≤ 0) :
    ∃ sum, terms.foldlM add? .zero = some sum ∧
      RunningSum low terms.length (terms.map toRat).sum sum ∧
      low - 1 ≤ sum.exponent ∧ sum.exponent ≤ 20 := by
  have hcount' : (2 * terms.length : ℚ) ≤ 10 ^ 20 := by exact_mod_cast hcount
  obtain ⟨sum, hfold, hsum⟩ := (RunningSum.zero low).exists_foldlM hterms (by omega)
    (by rwa [zero_add]) hlow hlow'
  rw [Nat.zero_add, zero_add] at hsum
  have hle : (terms.map toRat).sum ≤ 2 * terms.length := by
    have hsmall := List.sum_le_card_nsmul (terms.map toRat) 2 fun x hx => by
      obtain ⟨term, hterm, rfl⟩ := List.mem_map.1 hx
      exact (hterms term hterm).le_two
    rw [List.length_map, nsmul_eq_mul, mul_comm] at hsmall
    exact hsmall
  exact ⟨sum, hfold, hsum, hsum.exponent_bounds (by omega) (by linarith) hlow'⟩

/-- A sum of fewer terms, in the same order, is not larger. -/
theorem sum_le_of_sublist {terms terms' : List Probability} {sum sum' : Probability}
    (hsub : terms'.Sublist terms) (hterms : ∀ term ∈ terms, Summand low term)
    (hcount : 2 * terms.length ≤ 10 ^ 20) (hlow : -2 ^ 30 ≤ low) (hlow' : low ≤ 0)
    (hsum : terms.foldlM add? .zero = some sum) (hsum' : terms'.foldlM add? .zero = some sum') :
    sum'.toRat ≤ sum.toRat := by
  have hcount' : (2 * terms.length : ℚ) ≤ 10 ^ 20 := by exact_mod_cast hcount
  have hlength := hsub.length_le
  have hlength' : (terms'.length : ℚ) ≤ terms.length := by exact_mod_cast hlength
  exact RunningSum.le_of_sublist hsub (.zero low) (.zero low) hterms (by omega) (by omega)
    (by linarith) (by linarith) hlow hlow' le_rfl hsum hsum'

/-! ## Quotients -/

/-- The numbers that joint probabilities can be. -/
structure Bounded (p : Probability) : Prop where
  normal : p.Normal
  low : -2 ^ 29 ≤ p.exponent
  high : p.exponent ≤ 20

/-- Their quotients exist, and are rounded once. -/
theorem Bounded.exists_div? {a b : Probability} (ha : a.Bounded) (hb : b.Bounded)
    (hzero : ¬b.isZero = true) :
    ∃ c, a.div? b = some c ∧ c.Normal ∧ SafeExponent c.exponent ∧
      Within 1 (a.toRat / b.toRat) c.toRat ∧ (a.toRat ≤ b.toRat → c.toRat ≤ 1) := by
  have hlow := ha.low
  have hhigh := ha.high
  have hlow' := hb.low
  have hhigh' := hb.high
  have hsafe : SafeExponent (a.exponent - b.exponent) := by
    unfold SafeExponent
    omega
  obtain ⟨c, hdiv, hnormal, hwithin⟩ := exists_div?_within ha.normal hb.normal hzero hsafe
  refine ⟨c, hdiv, hnormal, ?_, hwithin, fun hle => ?_⟩
  · by_cases hzero' : a.isZero = true
    · rw [(toRat_eq_zero_iff a).2 hzero', zero_div] at hwithin
      have hc : c.isZero = true :=
        (toRat_eq_zero_iff c).1 ((hwithin.eq_zero_iff le_rfl).2 rfl)
      rw [hnormal.eq_zero_of_isZero hc]
      exact ⟨by decide, by decide⟩
    · -- the quotient is at most one power of ten away from that of the exponents
      have hpos' := hb.normal.toRat_pos hzero
      have hexponent := hnormal.exponent_of_within (a.exponent - (b.exponent + 1))
        (a.exponent + 1 - b.exponent) hwithin (by norm_num) ?_ ?_
      · unfold SafeExponent
        omega
      · rw [zpow_sub₀ (by norm_num)]
        gcongr
        · exact ha.normal.toRat_nonneg
        · exact ha.normal.pow_exponent_le hzero'
        · exact (hb.normal.lt_pow_exponent hzero).le
      · rw [zpow_sub₀ (by norm_num)]
        gcongr
        · exact (ha.normal.lt_pow_exponent hzero').le
        · exact hb.normal.pow_exponent_le hzero
  · obtain ⟨c', hdiv', -, hone⟩ := exists_div?_le_one ha.normal hb.normal hzero hsafe hle
    obtain rfl : c = c' := Option.some.inj (hdiv.symm.trans hdiv')
    exact hone

end Probability

end BeliefNet
