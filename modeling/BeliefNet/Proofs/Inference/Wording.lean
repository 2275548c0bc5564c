import Mathlib
import BeliefNet.Proofs.Inference.Answer

/-!
# Other words for a query

A joint probability depends on the last value that each variable of the network
is given (`WellFormed.joint_congr`), and what is fixed in a query by its terms,
whatever their order and however often they are repeated. So queries that fix the
same are answered alike (`WellFormed.infer_congr`): with the same probability, or
with errors of the same kind. The errors themselves differ, as they quote the
query.
-/

namespace BeliefNet

namespace Network

variable {n : Network} {q q' : Query}

/-- Terms that are the same up to order and repetition have the same joint
probability once they are merged. -/
theorem WellFormed.joint_merged_congr (h : n.WellFormed) {terms terms' : List Term}
    (hconsistent : Term.Consistent terms) (hmem : ∀ t, t ∈ terms' ↔ t ∈ terms) :
    n.joint (Term.merged terms') = n.joint (Term.merged terms) := by
  have hconsistent' : Term.Consistent terms' := (Term.consistent_congr hmem).2 hconsistent
  rw [h.joint_merged hconsistent, h.joint_merged hconsistent']
  exact h.joint_congr fun id _ => hconsistent.last?_congr hmem id

/-- Impossible evidence is one kind of error, however it is worded. -/
theorem kind_answerGiven (q q' : Query) (numerator denominator : Probability) :
    (answerGiven q numerator denominator).mapError Error.kind =
      (answerGiven q' numerator denominator).mapError Error.kind := by
  unfold answerGiven
  by_cases hzero : denominator.isZero = true
  · rw [if_pos hzero, if_pos hzero]
    rfl
  · rw [if_neg hzero, if_neg hzero]

/-- Queries with the same terms and the same evidence are answered alike. -/
theorem WellFormed.infer_congr (h : n.WellFormed) (hq : n.Asks q) (hq' : n.Asks q')
    (hterms : ∀ t, t ∈ q.terms ↔ t ∈ q'.terms) (hevidence : ∀ t, t ∈ q.evidence ↔ t ∈ q'.evidence) :
    (n.infer q).mapError Error.kind = (n.infer q').mapError Error.kind := by
  by_cases hconsistent : Term.Consistent q'.terms
  · have hconsistent' : Term.Consistent q.terms := (Term.consistent_congr hterms).2 hconsistent
    have hnumerator := h.joint_merged_congr hconsistent hterms
    by_cases hnone : q'.evidence = []
    · rw [infer_of_evidence_nil hq hconsistent' ((Term.eq_nil_congr hevidence).2 hnone),
        infer_of_evidence_nil hq' hconsistent hnone, hnumerator]
    · have hgiven : Term.Consistent q'.evidence :=
        hconsistent.subset (List.subset_append_right q'.hypotheses q'.evidence)
      rw [infer_of_evidence hq hconsistent' (mt (Term.eq_nil_congr hevidence).1 hnone),
        infer_of_evidence hq' hconsistent hnone, hnumerator,
        h.joint_merged_congr hgiven hevidence]
      cases n.joint (Term.merged q'.terms) with
      | error e => rfl
      | ok numerator =>
        cases n.joint (Term.merged q'.evidence) with
        | error e => rfl
        | ok denominator => exact kind_answerGiven q q' numerator denominator
  · rw [infer_of_not_consistent hq (mt (Term.consistent_congr hterms).1 hconsistent),
      infer_of_not_consistent hq' hconsistent]

/-- In every network that operations can build, an answer depends on what is
fixed: a joint probability on the last values of the variables, so that terms for
others do not count, and the answer to a query on which terms it has, and which
of them are evidence. -/
theorem Reachable.wording_irrelevant (h : n.Reachable) :
    (∀ fixed fixed' : List Term,
      (∀ id, n.contains id = true → Term.last? fixed id = Term.last? fixed' id) →
      n.joint fixed = n.joint fixed') ∧
    (∀ q q' : Query, q.hypotheses ≠ [] → q'.hypotheses ≠ [] →
      (∀ t ∈ q.terms, n.contains t.id = true) → (∀ t ∈ q'.terms, n.contains t.id = true) →
      (∀ t, t ∈ q.terms ↔ t ∈ q'.terms) → (∀ t, t ∈ q.evidence ↔ t ∈ q'.evidence) →
      (n.infer q).mapError Error.kind = (n.infer q').mapError Error.kind) := by
  constructor
  · intro fixed fixed' hlast
    exact h.wellFormed.joint_congr fun id hid => hlast id (mem_ids.1 hid)
  · intro q q' hsome hsome' hdefined hdefined' hterms hevidence
    exact h.wellFormed.infer_congr ⟨hsome, hdefined⟩ ⟨hsome', hdefined'⟩ hterms hevidence

/-- Smoke is no variable of the network, and of two values for the alarm the
later one counts; the fault may be repeated, and the alarm named on both
sides. -/
theorem alarm_wording_irrelevant :
    alarm.joint [⟨"alarm", false⟩, ⟨"smoke", true⟩, ⟨"fault", true⟩, ⟨"alarm", true⟩] =
      alarm.joint [⟨"alarm", true⟩, ⟨"fault", true⟩] ∧
    (alarm.infer ⟨[⟨"fault", true⟩], [⟨"alarm", true⟩]⟩).mapError Error.kind =
      (alarm.infer ⟨[⟨"fault", true⟩, ⟨"fault", true⟩],
        [⟨"alarm", true⟩, ⟨"alarm", true⟩]⟩).mapError Error.kind ∧
    (alarm.infer ⟨[⟨"fault", true⟩], [⟨"alarm", true⟩]⟩).mapError Error.kind =
      (alarm.infer ⟨[⟨"alarm", true⟩, ⟨"fault", true⟩],
        [⟨"alarm", true⟩]⟩).mapError Error.kind := by
  obtain ⟨hjoint, hinfer⟩ := alarm_reachable.wording_irrelevant
  refine ⟨?_, ?_, ?_⟩
  · refine hjoint _ _ fun id hid => ?_
    rw [contains_iff] at hid
    revert id
    decide
  · exact hinfer _ _ (by decide) (by decide) (by decide) (by decide)
      (by simp [Query.terms]) (by simp)
  · exact hinfer _ _ (by decide) (by decide) (by decide) (by decide)
      (by simp [Query.terms, or_comm]) (by simp)

end Network

end BeliefNet
