import Mathlib
import BeliefNet.Proofs.Term.Consistent

/-!
# Which terms form an expression

Terms form an expression if there is a hypothesis, neither side contradicts
itself and no variable is on both sides (`Expression.Admissible`). The sides of
the expression are then the terms without repetitions
(`Expression.ofTerms_eq_ok_iff`), and they form the same expression again
(`Expression.ofQuery_of_ofTerms`).
-/

namespace BeliefNet

namespace Expression

variable {hypotheses evidence : List Term} {x : Expression}

/-- What is asked of the terms of an expression. -/
structure Admissible (hypotheses evidence : List Term) : Prop where
  hypothesis : hypotheses ≠ []
  hypotheses_consistent : Term.Consistent hypotheses
  evidence_consistent : Term.Consistent evidence
  disjoint : ∀ t ∈ hypotheses, ∀ u ∈ evidence, t.id ≠ u.id

/-- The search for a shared variable fails if there is none. -/
theorem find?_shared_eq_none :
    (hypotheses.find? fun h => evidence.any (·.id == h.id)) = none ↔
      ∀ t ∈ hypotheses, ∀ u ∈ evidence, t.id ≠ u.id := by
  rw [List.find?_eq_none]
  refine forall₂_congr fun t _ => ?_
  simp [@eq_comm _ t.id]

/-- Admissible terms, and no others, form an expression. -/
theorem ofTerms_eq_ok_iff :
    ofTerms hypotheses evidence = .ok x ↔
      Admissible hypotheses evidence ∧ x = ⟨⟨Term.merged hypotheses, Term.merged evidence⟩⟩ := by
  unfold ofTerms
  by_cases hconsistent : Term.Consistent hypotheses
  case neg =>
    obtain ⟨id, herror⟩ := Term.merge_eq_error hconsistent
    rw [herror]
    simp only [reduceCtorEq, false_iff, not_and]
    exact fun h => absurd h.hypotheses_consistent hconsistent
  by_cases hconsistent' : Term.Consistent evidence
  case neg =>
    obtain ⟨id, herror⟩ := Term.merge_eq_error hconsistent'
    rw [Term.merge_eq_merged hconsistent, herror]
    simp only [reduceCtorEq, false_iff, not_and]
    exact fun h => absurd h.evidence_consistent hconsistent'
  rw [Term.merge_eq_merged hconsistent, Term.merge_eq_merged hconsistent']
  simp only [List.isEmpty_iff, Term.merged_eq_nil_iff hconsistent]
  by_cases hempty : hypotheses = []
  · simp only [if_pos hempty, reduceCtorEq, false_iff, not_and]
    exact fun h => absurd hempty h.hypothesis
  have hshared : (∀ t ∈ Term.merged hypotheses, ∀ u ∈ Term.merged evidence, t.id ≠ u.id) ↔
      ∀ t ∈ hypotheses, ∀ u ∈ evidence, t.id ≠ u.id := by
    simp only [Term.mem_merged hconsistent, Term.mem_merged hconsistent']
  rw [if_neg hempty]
  split
  · rename_i shared hfind
    simp only [reduceCtorEq, false_iff, not_and]
    intro h
    rw [find?_shared_eq_none.2 (hshared.2 h.disjoint)] at hfind
    cases hfind
  · rename_i hfind
    have hdisjoint := hshared.1 (find?_shared_eq_none.1 hfind)
    constructor
    · rintro ⟨⟩
      exact ⟨⟨hempty, hconsistent, hconsistent', hdisjoint⟩, rfl⟩
    · rintro ⟨-, rfl⟩
      rfl

theorem hypotheses_ne_nil_of_ofTerms (h : ofTerms hypotheses evidence = .ok x) :
    x.hypotheses ≠ [] := by
  obtain ⟨hadmissible, rfl⟩ := ofTerms_eq_ok_iff.1 h
  exact mt (Term.merged_eq_nil_iff hadmissible.hypotheses_consistent).1 hadmissible.hypothesis

/-- An expression has the terms it is formed of. -/
theorem mem_terms_of_ofTerms (h : ofTerms hypotheses evidence = .ok x) (t : Term) :
    t ∈ x.terms ↔ t ∈ hypotheses ++ evidence := by
  obtain ⟨hadmissible, rfl⟩ := ofTerms_eq_ok_iff.1 h
  simp only [Query.terms, List.mem_append, Term.mem_merged hadmissible.hypotheses_consistent,
    Term.mem_merged hadmissible.evidence_consistent]

/-- The terms of an expression form it again. -/
theorem ofQuery_of_ofTerms (h : ofTerms hypotheses evidence = .ok x) :
    ofQuery x.toQuery = .ok x := by
  have hhypothesis := hypotheses_ne_nil_of_ofTerms h
  obtain ⟨hadmissible, rfl⟩ := ofTerms_eq_ok_iff.1 h
  have hconsistent := hadmissible.hypotheses_consistent
  have hconsistent' := hadmissible.evidence_consistent
  refine ofTerms_eq_ok_iff.2 ⟨⟨hhypothesis, ?_, ?_, ?_⟩, ?_⟩
  · exact Term.consistent_merged hconsistent
  · exact Term.consistent_merged hconsistent'
  · intro t ht u hu
    exact hadmissible.disjoint t ((Term.mem_merged hconsistent t).1 ht) u
      ((Term.mem_merged hconsistent' u).1 hu)
  · rw [Term.merged_merged hconsistent, Term.merged_merged hconsistent']

end Expression

end BeliefNet
