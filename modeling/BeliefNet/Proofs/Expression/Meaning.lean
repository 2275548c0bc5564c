import Mathlib
import BeliefNet.Proofs.Expression.Same
import BeliefNet.Proofs.Expression.Terms

/-!
# What an expression means

An expression means the set of its hypotheses and the set of its evidence,
however often and in whatever order the terms are given. Dropping repetitions and
sorting the rest is a canonical form of such a set (`Term.merged_perm_iff`). A hash
function is given this form, with the length of each side ahead of its terms, and
so nothing is lost: the sides can be told apart, and read back
(`Expression.hashItems_eq_iff`).
-/

namespace BeliefNet

namespace Term

variable {terms terms' : List Term}

/-- Without their repetitions, lists of terms are permutations of each other if
they have the same members. -/
theorem merged_perm_iff (h : Consistent terms) (h' : Consistent terms') :
    (merged terms).Perm (merged terms') ↔ ∀ t, t ∈ terms ↔ t ∈ terms' := by
  have hnodup : (merged terms).Nodup := (nodup_merged h).of_map _
  have hnodup' : (merged terms').Nodup := (nodup_merged h').of_map _
  rw [List.perm_ext_iff_of_nodup hnodup hnodup']
  simp only [mem_merged h, mem_merged h']

end Term

namespace Expression

variable {terms terms' : List Term} {rest rest' : List HashItem} {x y : Expression}

/-- The items of a side show where it ends, and what its terms are. -/
theorem sideItems_append_inj (h : sideItems terms ++ rest = sideItems terms' ++ rest') :
    terms = terms' ∧ rest = rest' := by
  unfold sideItems at h
  rw [List.cons_append, List.cons_append, List.cons.injEq, HashItem.count.injEq] at h
  obtain ⟨hlength, hitems⟩ := h
  -- with the lengths known to be equal, the terms are compared one by one
  induction terms generalizing terms' with
  | nil =>
    obtain rfl : terms' = [] := List.length_eq_zero_iff.1 hlength.symm
    exact ⟨rfl, hitems⟩
  | cons t terms ih =>
    cases terms' with
    | nil => cases hlength
    | cons u terms' =>
      simp only [List.flatMap_cons, List.cons_append, List.nil_append, List.cons.injEq,
        HashItem.id.injEq, HashItem.value.injEq] at hitems
      obtain ⟨hid, hvalue, hitems⟩ := hitems
      obtain ⟨rfl, hrest⟩ := ih (Nat.succ.inj hlength) hitems
      have ht : t = u := by
        cases t
        cases u
        exact congrArg₂ Term.mk hid hvalue
      exact ⟨by rw [ht], hrest⟩

/-- A hash function is given the same of two expressions exactly if they are
equal. -/
theorem hashItems_eq_iff : x.hashItems = y.hashItems ↔ x.same y = true := by
  rw [same_iff]
  constructor
  · intro h
    obtain ⟨hhypotheses, hitems⟩ := sideItems_append_inj h
    have hitems' : sideItems x.key.2 ++ [] = sideItems y.key.2 ++ [] := by rw [hitems]
    exact Prod.ext hhypotheses (sideItems_append_inj hitems').1
  · intro h
    unfold hashItems
    rw [h]

/-- Expressions are the same exactly if the terms they were formed of are, on each
side. -/
theorem same_iff_mem {hypotheses evidence hypotheses' evidence' : List Term}
    (hx : ofTerms hypotheses evidence = .ok x) (hy : ofTerms hypotheses' evidence' = .ok y) :
    x.same y = true ↔
      (∀ t, t ∈ hypotheses ↔ t ∈ hypotheses') ∧ ∀ t, t ∈ evidence ↔ t ∈ evidence' := by
  obtain ⟨hadmissible, rfl⟩ := ofTerms_eq_ok_iff.1 hx
  obtain ⟨hadmissible', rfl⟩ := ofTerms_eq_ok_iff.1 hy
  rw [same_iff_perm]
  show (Term.merged hypotheses).Perm (Term.merged hypotheses') ∧
    (Term.merged evidence).Perm (Term.merged evidence') ↔ _
  rw [Term.merged_perm_iff hadmissible.hypotheses_consistent hadmissible'.hypotheses_consistent,
    Term.merged_perm_iff hadmissible.evidence_consistent hadmissible'.evidence_consistent]

/-- Terms form an expression if there is a hypothesis, no side contradicts itself
and no variable is on both. Two expressions are equal, and a hash function is given
the same of them, if each side has the same set of terms, and not otherwise. -/
theorem equal_iff_same_meaning (hypotheses evidence hypotheses' evidence' : List Term) :
    ((∃ x, ofTerms hypotheses evidence = .ok x) ↔
      hypotheses ≠ [] ∧ Term.Consistent hypotheses ∧ Term.Consistent evidence ∧
        ∀ t ∈ hypotheses, ∀ u ∈ evidence, t.id ≠ u.id) ∧
    ∀ x y, ofTerms hypotheses evidence = .ok x → ofTerms hypotheses' evidence' = .ok y →
      (x.same y = true ↔
        (∀ t, t ∈ hypotheses ↔ t ∈ hypotheses') ∧ ∀ t, t ∈ evidence ↔ t ∈ evidence') ∧
      (x.hashItems = y.hashItems ↔
        (∀ t, t ∈ hypotheses ↔ t ∈ hypotheses') ∧ ∀ t, t ∈ evidence ↔ t ∈ evidence') := by
  refine ⟨?_, ?_⟩
  · constructor
    · rintro ⟨x, hx⟩
      obtain ⟨⟨hne, hconsistent, hconsistent', hdisjoint⟩, -⟩ := ofTerms_eq_ok_iff.1 hx
      exact ⟨hne, hconsistent, hconsistent', hdisjoint⟩
    · rintro ⟨hne, hconsistent, hconsistent', hdisjoint⟩
      exact ⟨_, ofTerms_eq_ok_iff.2 ⟨⟨hne, hconsistent, hconsistent', hdisjoint⟩, rfl⟩⟩
  · intro x y hx hy
    have hsame := same_iff_mem hx hy
    exact ⟨hsame, hashItems_eq_iff.trans hsame⟩

/-- The same terms in another order and with repetitions. -/
theorem rain_equal_iff_same_meaning :
    ∃ x y, ofTerms [⟨"W", true⟩, ⟨"C", false⟩] [⟨"S", true⟩, ⟨"R", false⟩] = .ok x ∧
      ofTerms [⟨"C", false⟩, ⟨"W", true⟩, ⟨"C", false⟩] [⟨"R", false⟩, ⟨"S", true⟩] = .ok y ∧
      x ≠ y ∧ x.same y = true ∧ x.hashItems = y.hashItems := by
  obtain ⟨-, hequal⟩ := equal_iff_same_meaning [⟨"W", true⟩, ⟨"C", false⟩]
    [⟨"S", true⟩, ⟨"R", false⟩] [⟨"C", false⟩, ⟨"W", true⟩, ⟨"C", false⟩]
    [⟨"R", false⟩, ⟨"S", true⟩]
  obtain ⟨hsame, hitems⟩ := hequal
    ⟨⟨[⟨"W", true⟩, ⟨"C", false⟩], [⟨"S", true⟩, ⟨"R", false⟩]⟩⟩
    ⟨⟨[⟨"C", false⟩, ⟨"W", true⟩], [⟨"R", false⟩, ⟨"S", true⟩]⟩⟩ (by decide) (by decide)
  have hmeaning : (∀ t : Term, t ∈ [⟨"W", true⟩, ⟨"C", false⟩] ↔
      t ∈ [⟨"C", false⟩, ⟨"W", true⟩, ⟨"C", false⟩]) ∧
      ∀ t : Term, t ∈ [⟨"S", true⟩, ⟨"R", false⟩] ↔ t ∈ [⟨"R", false⟩, ⟨"S", true⟩] := by
    constructor
    · intro t
      simp only [List.mem_cons, List.not_mem_nil]
      tauto
    · intro t
      simp only [List.mem_cons, List.not_mem_nil]
      tauto
  exact ⟨_, _, by decide, by decide, by decide, hsame.2 hmeaning, hitems.2 hmeaning⟩

end Expression

end BeliefNet
