import Mathlib
import BeliefNet.Proofs.Probability.ScaledForm

/-!
# Moving the point in steps

A result is brought to its form by steps that each move the point by one digit and
count the exponent by one. All steps go in one direction, so the exponents on the
way lie between the first and the last (`carry_of_le`, `borrow_of_le`): the steps
overflow if and only if the last exponent is out of range, and otherwise reach the
form of the same number (`normalize_eq`).

So every operation is the one without bounds, and a look at the exponent of its
result (`mul_eq`, `div_eq`, `add_eq`, `roundDigits_eq`). Whatever it returns without an
overflow is exact, whether or not the exponents it was given were in range
(`mul?_of_mul`, `div?_of_div`, `add?_of_add`, `roundSignificant_of_roundDigits`).
-/

namespace BeliefNet

namespace Probability

/-- An exponent of 32 bits. -/
def InRange (exponent : Int) : Prop := -2 ^ 31 ≤ exponent ∧ exponent < 2 ^ 31

instance (exponent : Int) : Decidable (InRange exponent) :=
  inferInstanceAs (Decidable (_ ∧ _))

variable {a b c p : Probability} {d d' : Decimal} {e e' : Int}

theorem exponent?_of_inRange (h : InRange e) : exponent? e = some e := by
  unfold exponent?
  rw [twoPow_eq]
  exact if_pos (by exact_mod_cast h)

theorem exponent?_eq_none_iff : exponent? e = none ↔ ¬InRange e := by
  by_cases h : InRange e
  · simp [exponent?_of_inRange h, h]
  · unfold exponent?
    rw [twoPow_eq, if_neg (by exact_mod_cast h)]
    simp [h]

theorem exponent?_eq_some (h : exponent? e = some e') : InRange e ∧ e' = e := by
  by_cases hrange : InRange e
  · rw [exponent?_of_inRange hrange] at h
    exact ⟨hrange, (Option.some.inj h).symm⟩
  · rw [exponent?_eq_none_iff.2 hrange] at h
    cases h

theorem checkStep_eq (e : Int) :
    checkStep e = if InRange e then .ok e else .error .exponent := by
  unfold checkStep
  by_cases h : InRange e
  · rw [exponent?_of_inRange h, if_pos h]
  · rw [exponent?_eq_none_iff.2 h, if_neg h]

/-! ## The loops -/

/-- More than one digit stands before the point. -/
theorem tenPow_scale_succ_le_iff (hdigits : d.digits ≠ 0) :
    tenPow (d.scale + 1) ≤ d.digits ↔ d.scale + 1 ≤ d.leading := by
  rw [tenPow_eq, Decimal.leading_eq_log, Nat.le_log_iff_pow_le (by decide) hdigits]

/-- No digit but zero stands before the point. -/
theorem digits_lt_tenPow_scale_iff (hdigits : d.digits ≠ 0) :
    d.digits < tenPow d.scale ↔ d.leading < d.scale := by
  rw [tenPow_eq, Decimal.leading_eq_log, Nat.log_lt_iff_lt_pow (by decide) hdigits]

/-- With one digit before the point there is nothing to move. -/
theorem leadingForm_of_scale_eq (h : d.scale = d.leading) : leadingForm d = d := by
  simp only [leadingForm, ← h]

theorem carried_of_scale_eq (h : d.scale = d.leading) (e : Int) : carried d e = e := by
  unfold carried
  omega

/-- A step to the left leaves the number that is reached in the end as it is. -/
theorem carried_pointLeft (h : tenPow (d.scale + 1) ≤ d.digits) (e : Int) :
    carried (d.pointLeft h) (e + 1) = carried d e := by
  show e + 1 + (d.leading : Int) - ((d.scale + 1 : Nat) : Int) = e + d.leading - d.scale
  push_cast
  ring

/-- So does a step to the right. -/
theorem carried_pointRight (h : d.scale ≠ 0) (e : Int) :
    carried d.pointRight (e - 1) = carried d e := by
  show e - 1 + (d.leading : Int) - ((d.scale - 1 : Nat) : Int) = e + d.leading - d.scale
  omega

theorem carry_of_ge (hdigits : d.digits ≠ 0) (h : d.leading ≤ d.scale) (e : Int) :
    carry d e = .ok (d, e) := by
  have hone : ¬tenPow (d.scale + 1) ≤ d.digits := by
    rw [tenPow_scale_succ_le_iff hdigits]
    omega
  rw [carry, dif_neg hone]

theorem borrow_of_ge (hdigits : d.digits ≠ 0) (h : d.scale ≤ d.leading) (e : Int) :
    borrow d e = .ok (d, e) := by
  have hone : ¬(d.digits < tenPow d.scale ∧ d.scale ≠ 0) := by
    rw [digits_lt_tenPow_scale_iff hdigits]
    omega
  rw [borrow, if_neg hone]

/-- With a digit or more before the point the steps to the left end behind the
first, unless the last exponent is out of range: those before are between it and
the first. -/
theorem carry_of_le (hdigits : d.digits ≠ 0) (h : d.scale ≤ d.leading) (he : InRange e) :
    carry d e =
      if InRange (carried d e) then .ok (leadingForm d, carried d e) else .error .exponent := by
  fun_induction carry d e with
  | case1 d e hmore ih =>
    have hnext := (tenPow_scale_succ_le_iff hdigits).1 hmore
    rw [checkStep_eq]
    by_cases hstep : InRange (e + 1)
    · rw [if_pos hstep]
      show carry (d.pointLeft hmore) (e + 1) = _
      rw [ih (e + 1) hdigits hnext hstep, carried_pointLeft]
      rfl
    · have hlast : ¬InRange (carried d e) := by
        unfold InRange carried at *
        omega
      rw [if_neg hstep, if_neg hlast]
      rfl
  | case2 d e hone =>
    have hscale : d.scale = d.leading := by
      rw [tenPow_scale_succ_le_iff hdigits] at hone
      omega
    rw [carried_of_scale_eq hscale, leadingForm_of_scale_eq hscale, if_pos he]

/-- With one digit at most before the point the steps to the right end behind the
first that is not zero, unless the last exponent is out of range. -/
theorem borrow_of_le (hdigits : d.digits ≠ 0) (h : d.leading ≤ d.scale) (he : InRange e) :
    borrow d e =
      if InRange (carried d e) then .ok (leadingForm d, carried d e) else .error .exponent := by
  fun_induction borrow d e with
  | case1 d e hless ih =>
    have hnext := (digits_lt_tenPow_scale_iff hdigits).1 hless.1
    rw [checkStep_eq]
    by_cases hstep : InRange (e - 1)
    · rw [if_pos hstep]
      show borrow d.pointRight (e - 1) = _
      rw [ih (e - 1) hdigits (Nat.le_sub_one_of_lt hnext) hstep, carried_pointRight hless.2]
      rfl
    · have hlast : ¬InRange (carried d e) := by
        unfold InRange carried at *
        omega
      rw [if_neg hstep, if_neg hlast]
      rfl
  | case2 d e hone =>
    have hscale : d.scale = d.leading := by
      rw [digits_lt_tenPow_scale_iff hdigits] at hone
      omega
    rw [carried_of_scale_eq hscale, leadingForm_of_scale_eq hscale, if_pos he]

/-- A number with its exponent, if that is in range. -/
def checkRange (p : Probability) : Except Overflow Probability :=
  if InRange p.exponent then .ok p else .error .exponent

theorem checkRange_of_inRange (h : InRange p.exponent) : checkRange p = .ok p := if_pos h

theorem checkRange_eq_ok_iff : checkRange p = .ok c ↔ InRange p.exponent ∧ p = c := by
  unfold checkRange
  split
  · rename_i h
    simp [h]
  · rename_i h
    simp [h]

/-- The steps reach the form of the number, or overflow if its exponent is out of
range. -/
theorem normalize_eq (he : InRange e) : normalize d e = checkRange (ofScaled d e) := by
  unfold normalize checkRange ofScaled
  by_cases hdigits : d.digits = 0
  · rw [if_pos hdigits, if_pos hdigits, if_pos ⟨by decide, by decide⟩]
  rw [if_neg hdigits, if_neg hdigits]
  show (carry d e >>= fun carried => borrow carried.1 carried.2 >>= fun borrowed =>
      pure (⟨borrowed.1.trim, borrowed.2⟩ : Probability)) =
    if InRange (carried d e) then .ok ⟨(leadingForm d).trim, carried d e⟩ else .error .exponent
  -- one of the loops has all the steps, and the other has none
  rcases Nat.le_total d.scale d.leading with hle | hle
  · rw [carry_of_le hdigits hle he]
    by_cases hlast : InRange (carried d e)
    · rw [if_pos hlast, if_pos hlast]
      show (borrow (leadingForm d) (carried d e) >>= fun borrowed =>
        pure (⟨borrowed.1.trim, borrowed.2⟩ : Probability)) = _
      rw [borrow_of_ge (d := leadingForm d) hdigits le_rfl]
      rfl
    · rw [if_neg hlast, if_neg hlast]
      rfl
  · rw [carry_of_ge hdigits hle]
    show (borrow d e >>= fun borrowed =>
      pure (⟨borrowed.1.trim, borrowed.2⟩ : Probability)) = _
    rw [borrow_of_le hdigits hle he]
    by_cases hlast : InRange (carried d e)
    · rw [if_pos hlast, if_pos hlast]
      rfl
    · rw [if_neg hlast, if_neg hlast]
      rfl

/-! ## Whatever the first exponent -/

theorem checkStep_eq_ok (h : checkStep e = .ok e') : e' = e := by
  rw [checkStep_eq] at h
  split at h
  · exact (Except.ok.inj h).symm
  · cases h

/-- Steps to the left keep the number, and end with one digit at most before the
point. -/
theorem eq_of_carry (hdigits : d.digits ≠ 0) (h : carry d e = .ok (d', e')) :
    d'.leading ≤ d'.scale ∧ leadingForm d' = leadingForm d ∧ carried d' e' = carried d e := by
  fun_induction carry d e with
  | case1 d e hmore ih =>
    cases hstep : checkStep (e + 1) with
    | error _ =>
      rw [hstep] at h
      cases h
    | ok next =>
      rw [hstep] at h
      obtain rfl := checkStep_eq_ok hstep
      obtain ⟨hend, hform, hcarried⟩ := ih (e + 1) hdigits h
      exact ⟨hend, hform, hcarried.trans (carried_pointLeft hmore e)⟩
  | case2 d e hone =>
    cases h
    rw [tenPow_scale_succ_le_iff hdigits] at hone
    exact ⟨by omega, rfl, rfl⟩

/-- Steps to the right keep the number, and end with one digit before the point. -/
theorem eq_of_borrow (hdigits : d.digits ≠ 0) (hle : d.leading ≤ d.scale)
    (h : borrow d e = .ok (d', e')) : d' = leadingForm d ∧ e' = carried d e := by
  fun_induction borrow d e with
  | case1 d e hless ih =>
    have hnext := (digits_lt_tenPow_scale_iff hdigits).1 hless.1
    cases hstep : checkStep (e - 1) with
    | error _ =>
      rw [hstep] at h
      cases h
    | ok next =>
      rw [hstep] at h
      obtain rfl := checkStep_eq_ok hstep
      obtain ⟨hform, hcarried⟩ := ih (e - 1) hdigits (Nat.le_sub_one_of_lt hnext) h
      exact ⟨hform, hcarried.trans (carried_pointRight hless.2 e)⟩
  | case2 d e hone =>
    have hscale : d.scale = d.leading := by
      rw [digits_lt_tenPow_scale_iff hdigits] at hone
      omega
    cases h
    rw [carried_of_scale_eq hscale, leadingForm_of_scale_eq hscale]
    exact ⟨rfl, rfl⟩

/-- A form that is reached is that of the number. -/
theorem ofScaled_of_normalize (h : normalize d e = .ok p) : ofScaled d e = p := by
  unfold normalize at h
  unfold ofScaled
  by_cases hdigits : d.digits = 0
  · rw [if_pos hdigits] at h ⊢
    exact Except.ok.inj h
  rw [if_neg hdigits] at h ⊢
  cases hcarry : carry d e with
  | error _ =>
    rw [hcarry] at h
    cases h
  | ok raised =>
    obtain ⟨raised, e₁⟩ := raised
    obtain ⟨hle, hform, hcarried⟩ := eq_of_carry hdigits hcarry
    rw [hcarry] at h
    have hkept : (leadingForm raised).digits = (leadingForm d).digits := by rw [hform]
    have hdigits' : raised.digits ≠ 0 := hkept.trans_ne hdigits
    cases hborrow : borrow raised e₁ with
    | error _ =>
      simp only [bind, Except.bind, hborrow] at h
      cases h
    | ok lowered =>
      obtain ⟨lowered, e₂⟩ := lowered
      obtain ⟨rfl, rfl⟩ := eq_of_borrow hdigits' hle hborrow
      simp only [bind, Except.bind, hborrow] at h
      rw [← Except.ok.inj h, hform, hcarried]
      rfl

/-! ## The operations -/

/-- The exponents of what an operation finds are in range. -/
def Unscaled.InRange : Unscaled → Prop
  | kept p => Probability.InRange p.exponent
  | scaled _ exponent => Probability.InRange exponent

theorem Unscaled.normalize_eq {found : Unscaled} (h : found.InRange) :
    found.normalize = checkRange found.exact := by
  cases found with
  | kept p => exact (checkRange_of_inRange h).symm
  | scaled mantissa exponent => exact Probability.normalize_eq h

theorem Unscaled.exact_of_normalize {found : Unscaled} (h : found.normalize = .ok c) :
    found.exact = c := by
  cases found with
  | kept p => exact Except.ok.inj h
  | scaled mantissa exponent => exact ofScaled_of_normalize h

theorem map_normalize_eq {found : Option Unscaled} (h : ∀ r ∈ found, r.InRange) :
    found.map Unscaled.normalize = (found.map Unscaled.exact).map checkRange := by
  cases found with
  | none => rfl
  | some r => exact congrArg some (Unscaled.normalize_eq (h r rfl))

theorem map_exact_of_map_normalize {found : Option Unscaled}
    (h : found.map Unscaled.normalize = some (.ok c)) : found.map Unscaled.exact = some c := by
  obtain ⟨r, hr, hc⟩ := Option.map_eq_some_iff.1 h
  rw [hr]
  exact congrArg some (Unscaled.exact_of_normalize hc)

theorem inRange_zero : InRange zero.exponent := ⟨by decide, by decide⟩

theorem inRange_product (a b : Probability) : ∀ r ∈ a.product b, r.InRange := by
  intro r hr
  unfold product at hr
  split at hr
  · cases hr
    exact inRange_zero
  · simp only [Option.bind_eq_bind, Option.mem_def, Option.bind_eq_some_iff] at hr
    obtain ⟨mantissa, -, exponent, hexponent, hr⟩ := hr
    cases hr
    obtain ⟨hrange, rfl⟩ := exponent?_eq_some hexponent
    exact hrange

theorem inRange_quotient (a b : Probability) : ∀ r ∈ a.quotient b, r.InRange := by
  intro r hr
  unfold quotient at hr
  split at hr
  · cases hr
  split at hr
  · cases hr
    exact inRange_zero
  · simp only [Option.bind_eq_bind, Option.mem_def, Option.bind_eq_some_iff] at hr
    obtain ⟨mantissa, -, exponent, hexponent, hr⟩ := hr
    cases hr
    obtain ⟨hrange, rfl⟩ := exponent?_eq_some hexponent
    exact hrange

theorem inRange_alignedSum? (hlarge : InRange a.exponent) : ∀ r ∈ alignedSum? a b, r.InRange := by
  intro r hr
  unfold alignedSum? at hr
  split at hr
  · simp only [Option.bind_eq_bind, Option.mem_def, Option.bind_eq_some_iff] at hr
    obtain ⟨shifted, -, mantissa, -, hr⟩ := hr
    cases hr
    exact hlarge
  · cases hr
    exact hlarge

theorem inRange_sum (ha : InRange a.exponent) (hb : InRange b.exponent) :
    ∀ r ∈ a.sum b, r.InRange := by
  unfold sum
  split
  · rintro r ⟨⟩
    exact ha
  split
  · rintro r ⟨⟩
    exact hb
  split
  · exact inRange_alignedSum? ha
  · exact inRange_alignedSum? hb

theorem inRange_significant (hp : InRange p.exponent) (digits : Nat) :
    (p.significant digits).InRange := by
  unfold significant
  split
  · exact hp
  · exact hp

theorem mul_eq (a b : Probability) : a.mul b = (a.mul? b).map checkRange :=
  map_normalize_eq (inRange_product a b)

theorem div_eq (a b : Probability) : a.div b = (a.div? b).map checkRange :=
  map_normalize_eq (inRange_quotient a b)

theorem add_eq (ha : InRange a.exponent) (hb : InRange b.exponent) :
    a.add b = (a.add? b).map checkRange :=
  map_normalize_eq (inRange_sum ha hb)

theorem roundDigits_eq (hp : InRange p.exponent) (digits : Nat) :
    p.roundDigits digits = checkRange (p.roundSignificant digits) :=
  Unscaled.normalize_eq (inRange_significant hp digits)

theorem mul?_of_mul (h : a.mul b = some (.ok c)) : a.mul? b = some c :=
  map_exact_of_map_normalize h

theorem div?_of_div (h : a.div b = some (.ok c)) : a.div? b = some c :=
  map_exact_of_map_normalize h

theorem add?_of_add (h : a.add b = some (.ok c)) : a.add? b = some c :=
  map_exact_of_map_normalize h

theorem roundSignificant_of_roundDigits {digits : Nat} (h : p.roundDigits digits = .ok c) :
    p.roundSignificant digits = c :=
  Unscaled.exact_of_normalize h

theorem mul_of_mul? (h : a.mul? b = some c) (hrange : InRange c.exponent) :
    a.mul b = some (.ok c) := by
  rw [mul_eq, h, Option.map_some, checkRange_of_inRange hrange]

theorem div_of_div? (h : a.div? b = some c) (hrange : InRange c.exponent) :
    a.div b = some (.ok c) := by
  rw [div_eq, h, Option.map_some, checkRange_of_inRange hrange]

/-- There is a result, or an overflow, if and only if there is one without
bounds. -/
theorem mul_eq_none_iff : a.mul b = none ↔ a.mul? b = none := by
  unfold mul mul?
  simp

theorem div_eq_none_iff : a.div b = none ↔ a.div? b = none := by
  unfold div div?
  simp

theorem add_eq_none_iff : a.add b = none ↔ a.add? b = none := by
  unfold add add?
  simp

end Probability

end BeliefNet
