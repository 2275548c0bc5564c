import Mathlib
import BeliefNet.Expression

/-!
# Expressions that mean the same

Two expressions have the same key if and only if each side of one is a
permutation of that side of the other (`Expression.same_iff_perm`): the order of
terms is linear, so lists with the same members, repetitions counted, sort to
the same list (`Term.mergeSort_eq_iff_perm`).
-/

namespace BeliefNet

namespace Term

variable {a b c : Term}

theorem le_of_id_eq (h : a.id = b.id) : le a b = (!a.value || b.value) := by
  unfold le
  rw [if_pos h]

theorem le_of_id_ne (h : a.id ≠ b.id) : le a b = decide (a.id < b.id) := by
  unfold le
  rw [if_neg h]

/-- A term is below another with the same or a later id. -/
theorem id_le_of_le (h : le a b = true) : a.id ≤ b.id := by
  by_cases hid : a.id = b.id
  · exact hid.le
  · rw [le_of_id_ne hid, decide_eq_true_iff] at h
    exact h.le

theorem le_total (a b : Term) : (le a b || le b a) = true := by
  by_cases hid : a.id = b.id
  · rw [le_of_id_eq hid, le_of_id_eq hid.symm]
    cases a.value <;> cases b.value <;> rfl
  · rw [le_of_id_ne hid, le_of_id_ne (Ne.symm hid), Bool.or_eq_true, decide_eq_true_iff,
      decide_eq_true_iff]
    exact lt_or_gt_of_ne hid

theorem le_antisymm (hab : le a b = true) (hba : le b a = true) : a = b := by
  have hid : a.id = b.id := (id_le_of_le hab).antisymm (id_le_of_le hba)
  rw [le_of_id_eq hid] at hab
  rw [le_of_id_eq hid.symm] at hba
  have hvalue : a.value = b.value := by
    cases ha : a.value <;> cases hb : b.value <;> simp_all
  cases a
  cases b
  simp_all

theorem le_trans (hab : le a b = true) (hbc : le b c = true) : le a c = true := by
  by_cases hid : a.id = c.id
  · -- the ids between two equal ones are equal, so the values decide
    have hab' : a.id = b.id :=
      (id_le_of_le hab).antisymm (hid ▸ id_le_of_le hbc)
    rw [le_of_id_eq hab'] at hab
    rw [le_of_id_eq (hab'.symm.trans hid)] at hbc
    rw [le_of_id_eq hid]
    cases ha : a.value <;> cases hb : b.value <;> cases hc : c.value <;> simp_all
  · rw [le_of_id_ne hid, decide_eq_true_iff]
    exact lt_of_le_of_ne ((id_le_of_le hab).trans (id_le_of_le hbc)) hid

/-- Lists of terms sort to the same list if and only if they are permutations of
each other. -/
theorem mergeSort_eq_iff_perm {terms terms' : List Term} :
    terms.mergeSort le = terms'.mergeSort le ↔ terms.Perm terms' := by
  constructor
  · intro h
    exact (List.mergeSort_perm terms le).symm.trans
      ((List.Perm.of_eq h).trans (List.mergeSort_perm terms' le))
  · intro h
    have hsorted : ∀ l : List Term, (l.mergeSort le).Pairwise fun a b => le a b = true :=
      List.pairwise_mergeSort (fun _ _ _ => le_trans) le_total
    refine List.Perm.eq_of_pairwise (fun a b _ _ => le_antisymm) (hsorted terms)
      (hsorted terms') ?_
    exact (List.mergeSort_perm terms le).trans
      (h.trans (List.mergeSort_perm terms' le).symm)

end Term

namespace Expression

variable {a b : Expression}

theorem same_iff : a.same b = true ↔ a.key = b.key := by
  simp [same]

/-- The sides are permutations of each other. -/
theorem same_iff_perm :
    a.same b = true ↔ a.hypotheses.Perm b.hypotheses ∧ a.evidence.Perm b.evidence := by
  rw [same_iff]
  unfold key
  rw [Prod.mk.injEq, Term.mergeSort_eq_iff_perm, Term.mergeSort_eq_iff_perm]

@[simp] theorem same_refl (a : Expression) : a.same a = true := same_iff.2 rfl

theorem same_comm (a b : Expression) : a.same b = b.same a := by
  rw [Bool.eq_iff_iff, same_iff, same_iff, eq_comm]

/-- Expressions that are the same cannot be told apart by a third. -/
theorem same_congr (h : a.same b = true) (c : Expression) : c.same a = c.same b := by
  rw [Bool.eq_iff_iff, same_iff, same_iff, same_iff.1 h]

end Expression

end BeliefNet
