import Mathlib
import BeliefNet.Proofs.Inference.Enumeration
import BeliefNet.Proofs.Probability.Running

/-!
# The accuracy of joint probabilities

The product for a world goes through one rounding for each variable, and the
sum through one for each world. So a joint probability exists, and has the
relative error of all these roundings (`Complete.joint_within`), whatever is
stored in the tables.
-/

namespace BeliefNet

namespace Network

open Probability (RunningProduct RunningSum Summand)

variable {n : Network} {w : World} {f : Filter} {fixed : List Term}

/-- The product for a world, and zero if there is none. -/
def term (n : Network) (w : World) : Probability := (n.productIn w).toOption.getD .zero

/-- The rule for a product along the variables. An invariant of the variables
that are done holds of all of them at the end, also if the product ends early
with zero. -/
theorem exists_productFrom {nodes : List Variable} (I : List Variable → Probability → Prop)
    (hstep : ∀ done v rest p, nodes = done ++ v :: rest → I done p →
      ∃ d q, entry f v = .ok d ∧ p.mul? (.ofDecimal d) = some q ∧ I (done ++ [v]) q)
    (hzero : ∀ done rest p, nodes = done ++ rest → I done p → p.isZero = true → I nodes p)
    {p : Probability} (hstart : I [] p) : ∃ q, productFrom f p nodes = .ok q ∧ I nodes q := by
  suffices ∀ rest done p, nodes = done ++ rest → I done p →
      ∃ q, productFrom f p rest = .ok q ∧ I nodes q from this nodes [] p rfl hstart
  intro rest
  induction rest with
  | nil =>
    intro done p hsplit h
    rw [List.append_nil] at hsplit
    exact ⟨p, rfl, hsplit ▸ h⟩
  | cons v rest ih =>
    intro done p hsplit h
    obtain ⟨d, next, hd, hmul, hnext⟩ := hstep done v rest p hsplit h
    rw [List.append_cons] at hsplit
    unfold productFrom
    simp only [hd, bind, Except.bind, hmul]
    -- zero ends the product, and it is the product of all entries
    by_cases hend : next.isZero = true
    · rw [if_pos hend]
      exact ⟨next, rfl, hzero _ _ _ hsplit hnext hend⟩
    · rw [if_neg hend]
      exact ih (done ++ [v]) next hsplit hnext

/-- The exact product of the entries of some variables. -/
def storedProduct (n : Network) (w : World) (nodes : List Variable) : ℚ :=
  (nodes.map fun v => n.stored w v).prod

theorem storedProduct_concat (n : Network) (w : World) (nodes : List Variable) (v : Variable) :
    n.storedProduct w (nodes ++ [v]) = n.storedProduct w nodes * n.stored w v := by
  simp [storedProduct]

theorem storedProduct_append_of_eq_zero {nodes : List Variable}
    (h : n.storedProduct w nodes = 0) (rest : List Variable) :
    n.storedProduct w (nodes ++ rest) = 0 := by
  unfold storedProduct at h ⊢
  rw [List.map_append, List.prod_append, h, zero_mul]

/-- The filter of a world selects the entries that are stored for it. -/
theorem Complete.exists_entry_eq (h : n.Complete) {v : Variable} (hv : v ∈ n.nodes) (w : World) :
    ∃ d : Decimal, entry (n.worldFilter w) v = .ok d ∧ d.InUnit ∧ n.stored w v = d.toRat ∧
      v.table.get? (n.rowIn w v) = .ok (some d) := by
  obtain ⟨d, hget, hunit, hstored⟩ := h.exists_entry hv w
  refine ⟨d, ?_, hunit, hstored, hget⟩
  rw [h.entry_eq hv fun _ hid => value?_worldFilter h.toWellFormed hid, hget]

theorem term_eq {p : Probability} (h : n.productIn w = .ok p) : n.term w = p := by
  unfold term
  rw [h]
  rfl

/-- The sum over the worlds is the sum of their products. -/
theorem foldlM_addWorld {ws : List World} {total sum : Probability}
    (hterm : ∀ w ∈ ws, n.productIn w = .ok (n.term w))
    (hsum : (ws.map n.term).foldlM Probability.add? total = some sum) :
    ws.foldlM n.addWorld total = .ok sum := by
  induction ws generalizing total with
  | nil =>
    cases hsum
    rfl
  | cons w ws ih =>
    rw [List.map_cons, List.foldlM_cons] at hsum
    rw [List.foldlM_cons]
    cases hadd : total.add? (n.term w) with
    | none =>
      rw [hadd] at hsum
      cases hsum
    | some next =>
      rw [hadd] at hsum
      have hstep : n.addWorld total w = .ok next := by
        unfold addWorld
        rw [hterm w List.mem_cons_self]
        simp only [bind, Except.bind, hadd]
        rfl
      rw [hstep]
      exact ih (fun u hu => hterm u (List.mem_cons_of_mem w hu)) hsum

/-- Fewer than 64 free variables leave a number of worlds that can be added
up. -/
theorem two_mul_length_le (hfree : (n.free fixed).length < 64) :
    2 * ((n.worlds fixed).map n.term).length ≤ 10 ^ 20 := by
  have hcount : (n.worlds fixed).length ≤ 2 ^ 63 := by
    rw [length_worlds]
    exact Nat.pow_le_pow_right (by decide) (by omega)
  rw [List.length_map]
  omega

namespace Complete

/-- The product for a world: one rounding for each variable. -/
theorem productIn_eq (h : n.Complete) (hsize : n.nodes.length ≤ maxVariables) (w : World) :
    n.productIn w = .ok (n.term w) ∧
      RunningProduct n.nodes.length (n.weight w) (n.term w) := by
  have hrun : ∃ p, n.productIn w = .ok p ∧
      RunningProduct n.nodes.length (n.storedProduct w n.nodes) p := by
    refine exists_productFrom
      (fun done p => RunningProduct done.length (n.storedProduct w done) p) ?_ ?_
      RunningProduct.one
    · intro done v rest p hsplit hdone
      have hlength := congrArg List.length hsplit
      rw [List.length_append, List.length_cons] at hlength
      obtain ⟨d, hd, hunit, hstored, -⟩ := h.exists_entry_eq (v := v) (by simp [hsplit]) w
      obtain ⟨q, hmul, hq, -⟩ := hdone.step (by omega) hunit
      refine ⟨d, q, hd, hmul, ?_⟩
      rw [storedProduct_concat, hstored, List.length_append]
      exact hq
    · intro done rest p hsplit hdone hzero
      rw [hdone.normal.eq_zero_of_isZero hzero, hsplit,
        storedProduct_append_of_eq_zero (hdone.isZero_iff.1 hzero)]
      exact RunningProduct.zero _
  obtain ⟨p, hp, hrunning⟩ := hrun
  rw [term_eq hp]
  exact ⟨hp, hrunning⟩

theorem summands (h : n.Complete) (hsize : n.nodes.length ≤ maxVariables)
    (fixed : List Term) :
    ∀ term ∈ (n.worlds fixed).map n.term, Summand (-28 * n.nodes.length - 1) term := by
  intro term hterm
  obtain ⟨w, -, rfl⟩ := List.mem_map.1 hterm
  exact (h.productIn_eq hsize w).2.summand hsize

/-- The joint probability exists, as the sum of the products for the worlds. -/
theorem exists_joint (h : n.Complete) (hsize : n.nodes.length ≤ maxVariables)
    (hfree : (n.free fixed).length < 64) :
    ∃ j, n.joint fixed = .ok j ∧ j.Bounded ∧
      ((n.worlds fixed).map n.term).foldlM Probability.add? .zero = some j ∧
      Within (n.worlds fixed).length
        (((n.worlds fixed).map n.term).map Probability.toRat).sum j.toRat := by
  obtain ⟨j, hfold, hrunning, hlow, hhigh⟩ := Probability.exists_sum (h.summands hsize fixed)
    (two_mul_length_le hfree) (by unfold maxVariables at hsize; omega) (by omega)
  refine ⟨j, ?_, ⟨hrunning.normal, ?_, hhigh⟩, hfold, ?_⟩
  · rw [h.joint_eq (isReady_iff.1 h.ready) hfree]
    exact foldlM_addWorld (fun w _ => (h.productIn_eq hsize w).1) hfold
  · unfold maxVariables at hsize
    omega
  · have hwithin := hrunning.within
    rwa [List.length_map] at hwithin

/-- The joint probability is as accurate as its roundings allow. -/
theorem joint_within (h : n.Complete) (hsize : n.nodes.length ≤ maxVariables)
    (hconsistent : Term.Consistent fixed) (hdefined : ∀ t ∈ fixed, t.id ∈ n.ids)
    (hfree : (n.free fixed).length < 64) :
    ∃ j, n.joint fixed = .ok j ∧ j.Bounded ∧
      Within (n.nodes.length + 2 ^ (n.free fixed).length) (n.prob fixed) j.toRat := by
  obtain ⟨j, hjoint, hbounded, -, hwithin⟩ := h.exists_joint hsize hfree
  refine ⟨j, hjoint, hbounded, ?_⟩
  -- one rounding for each variable, then one for each world
  have hproducts : Within n.nodes.length (n.prob fixed)
      (((n.worlds fixed).map n.term).map Probability.toRat).sum := by
    rw [prob, ← h.sum_worlds hconsistent hdefined, List.map_map]
    exact Within.sum fun w _ => (h.productIn_eq hsize w).2.within
  rw [← length_worlds]
  exact hproducts.trans hwithin

/-- With more terms, the joint probability is not larger, whatever is rounded:
the sum has fewer summands, in the same order. -/
theorem joint_le (h : n.Complete) (hsize : n.nodes.length ≤ maxVariables)
    {terms : List Term} (hsub : fixed ⊆ terms) (hconsistent : Term.Consistent terms)
    (hdefined : ∀ t ∈ terms, t.id ∈ n.ids) (hfree : (n.free fixed).length < 64) :
    ∃ a b, n.joint terms = .ok a ∧ n.joint fixed = .ok b ∧ a.Bounded ∧ b.Bounded ∧
      a.toRat ≤ b.toRat := by
  have hfree' : (n.free terms).length < 64 :=
    lt_of_le_of_lt (h.length_free_le hsub) hfree
  obtain ⟨a, ha, hbounded, hfold, -⟩ := h.exists_joint hsize hfree'
  obtain ⟨b, hb, hbounded', hfold', -⟩ := h.exists_joint hsize hfree
  refine ⟨a, b, ha, hb, hbounded, hbounded', ?_⟩
  exact Probability.sum_le_of_sublist ((h.worlds_sublist hsub hconsistent hdefined).map n.term)
    (h.summands hsize fixed) (two_mul_length_le hfree)
    (by unfold maxVariables at hsize; omega) (by omega) hfold' hfold

end Complete

/-- In every network that operations can build, and whatever is stored in its
tables, the joint probability of consistent terms exists and differs from the
exact one by no more than one rounding for each variable and each world. -/
theorem Reachable.joint_accurate (h : n.Reachable) (hready : n.isReady = true)
    (hsize : n.nodes.length ≤ 10 ^ 7) (hconsistent : Term.Consistent fixed)
    (hdefined : ∀ t ∈ fixed, n.contains t.id = true) (hfree : (n.free fixed).length < 64) :
    ∃ j, n.joint fixed = .ok j ∧
      (1 - unitRoundoff) ^ (n.nodes.length + 2 ^ (n.free fixed).length) * n.prob fixed ≤
        j.toRat ∧
      j.toRat ≤
        (1 + unitRoundoff) ^ (n.nodes.length + 2 ^ (n.free fixed).length) * n.prob fixed := by
  obtain ⟨j, hjoint, -, hwithin⟩ := (h.complete hready).joint_within hsize hconsistent
    (fun t ht => mem_ids.2 (hdefined t ht)) hfree
  exact ⟨j, hjoint, hwithin⟩

/-- The alarm goes off in 2.93 percent of all cases, and a sum of two products
of two entries keeps nearly all digits of that. -/
theorem alarm_joint_accurate :
    ∃ j, alarm.joint [⟨"alarm", true⟩] = .ok j ∧
      (1 - unitRoundoff) ^ (2 + 2) * (293 / 10000) ≤ j.toRat ∧
      j.toRat ≤ (1 + unitRoundoff) ^ (2 + 2) * (293 / 10000) := by
  have hprob : alarm.prob [⟨"alarm", true⟩] = 293 / 10000 := by decide +kernel
  have hconsistent : Term.Consistent [⟨"alarm", true⟩] := by decide
  rw [← hprob]
  exact alarm_reachable.joint_accurate alarm_ready (by decide) hconsistent (by decide) (by decide)

end Network

end BeliefNet
