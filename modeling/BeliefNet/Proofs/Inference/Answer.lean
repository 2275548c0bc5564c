import Mathlib
import BeliefNet.Proofs.Inference.Accuracy
import BeliefNet.Proofs.Probability.Significant

/-!
# Answers

How a query that can be asked is answered: terms that contradict each other
have probability zero (`infer_of_not_consistent`), and for others the answer is
a joint probability (`infer_of_evidence_nil`), or a quotient of two
(`infer_of_evidence`).

Whatever is rounded, a joint probability does not grow when terms are added
(`Complete.joint_compare_le`), an answer given evidence lies between zero and
one (`Complete.infer_le_one`), and an answer is zero, or undefined, only where
the exact probability is.
-/

namespace BeliefNet

namespace Network

variable {n : Network} {q : Query} {fixed terms : List Term} {r : Probability}

/-- Without repetitions, terms have the same joint probability. -/
theorem WellFormed.joint_merged (h : n.WellFormed) (hconsistent : Term.Consistent terms) :
    n.joint (Term.merged terms) = n.joint terms :=
  h.joint_congr fun id _ => hconsistent.last?_congr (Term.mem_merged hconsistent) id

/-- A query has a hypothesis, and is about variables of the network. -/
structure Asks (n : Network) (q : Query) : Prop where
  hypothesis : q.hypotheses ≠ []
  defined : ∀ t ∈ q.terms, n.contains t.id = true

theorem checkQuery_eq_ok_iff : n.checkQuery q = .ok () ↔ n.Asks q := by
  unfold checkQuery
  constructor
  · intro h
    split at h
    · cases h
    · rename_i hnone
      split at h
      · cases h
      · rename_i hfind
        refine ⟨by simpa using hnone, fun t ht => ?_⟩
        simpa using List.find?_eq_none.1 hfind t ht
  · rintro ⟨hhypothesis, hdefined⟩
    have hfind : q.terms.find? (fun t => !n.contains t.id) = none := by
      rw [List.find?_eq_none]
      intro t ht
      simp [hdefined t ht]
    rw [if_neg (by simpa using hhypothesis), hfind]

/-- The answer given evidence, from the joint probabilities. -/
def answerGiven (q : Query) (numerator denominator : Probability) : Except Error Probability :=
  if denominator.isZero then
    .error (.impossibleEvidence q)
  else
    match numerator.div? denominator with
    | some quotient => .ok (quotient.roundSignificant significantDigits)
    | none => .error (.quotientOverflow numerator denominator)

/-- Contradicting terms have probability zero. -/
theorem infer_of_not_consistent (hq : n.Asks q) (h : ¬Term.Consistent q.terms) :
    n.infer q = .ok .zero := by
  obtain ⟨id, herror⟩ := Term.merge_eq_error h
  unfold infer
  rw [checkQuery_eq_ok_iff.2 hq, herror]
  rfl

/-- Without evidence the answer is the joint probability of the hypotheses. -/
theorem infer_of_evidence_nil (hq : n.Asks q) (h : Term.Consistent q.terms)
    (hnone : q.evidence = []) :
    n.infer q = (n.joint (Term.merged q.terms)).map (·.roundSignificant significantDigits) := by
  have hevidence : q.hasEvidence = false := by simp [Query.hasEvidence, hnone]
  unfold infer
  rw [checkQuery_eq_ok_iff.2 hq, Term.merge_eq_merged h, hevidence]
  simp only [bind, Except.bind]
  cases n.joint (Term.merged q.terms) with
  | error e => rfl
  | ok j => rfl

/-- With evidence it is a quotient of joint probabilities. -/
theorem infer_of_evidence (hq : n.Asks q) (h : Term.Consistent q.terms)
    (hsome : q.evidence ≠ []) :
    n.infer q = (do
      let numerator ← n.joint (Term.merged q.terms)
      let denominator ← n.joint (Term.merged q.evidence)
      answerGiven q numerator denominator) := by
  have hevidence : q.hasEvidence = true := by simpa [Query.hasEvidence] using hsome
  unfold infer answerGiven
  rw [checkQuery_eq_ok_iff.2 hq, Term.merge_eq_merged h, hevidence]
  simp only [bind, Except.bind]
  cases n.joint (Term.merged q.terms) with
  | error e => rfl
  | ok numerator =>
    show Except.bind (n.joint (Term.merged q.evidence)) _ = _
    cases n.joint (Term.merged q.evidence) with
    | error e => rfl
    | ok denominator =>
      simp only [Except.bind]
      split
      · rfl
      · rfl

/-- A query that is answered can be asked. -/
theorem asks_of_infer (h : n.infer q = .ok r) : n.Asks q := by
  rw [← checkQuery_eq_ok_iff]
  unfold infer at h
  cases hcheck : n.checkQuery q with
  | error e =>
    rw [hcheck] at h
    cases h
  | ok _ => rfl

/-- A joint probability that exists leaves few variables free. -/
theorem length_free_lt_of_joint {j : Probability} (h : n.joint fixed = .ok j) :
    (n.free fixed).length < 64 := by
  unfold joint at h
  cases hcheck : n.checkReady with
  | error e =>
    rw [hcheck] at h
    cases h
  | ok _ =>
    rw [hcheck] at h
    simp only [bind, Except.bind] at h
    split at h
    · rename_i hempty
      rw [Bool.and_eq_true, List.isEmpty_iff, List.isEmpty_iff] at hempty
      rw [hempty.2]
      decide
    · split at h
      · cases h
      · omega

/-- So does an answer given evidence. -/
theorem length_free_lt_of_infer (h : n.infer q = .ok r) (hconsistent : Term.Consistent q.terms)
    (hsome : q.evidence ≠ []) : (n.free q.evidence).length < 64 := by
  have hevidence : Term.Consistent q.evidence :=
    hconsistent.subset (List.subset_append_right q.hypotheses q.evidence)
  rw [infer_of_evidence (asks_of_infer h) hconsistent hsome] at h
  cases hnumerator : n.joint (Term.merged q.terms) with
  | error e =>
    rw [hnumerator] at h
    cases h
  | ok numerator =>
    cases hdenominator : n.joint (Term.merged q.evidence) with
    | error e =>
      rw [hnumerator, hdenominator] at h
      cases h
    | ok denominator =>
      rw [← free_congr fun id _ => hevidence.last?_congr (Term.mem_merged hevidence) id]
      exact length_free_lt_of_joint hdenominator

/-! ## Answers given evidence -/

/-- A quotient of joint probabilities is answered with its significant digits,
which keep zero, one and the order. -/
theorem exists_answerGiven {a b : Probability} (q : Query) (ha : a.Bounded) (hb : b.Bounded)
    (hzero : ¬b.isZero = true) (hle : a.toRat ≤ b.toRat) :
    ∃ r, answerGiven q a b = .ok r ∧ r.Normal ∧ r.toRat ≤ 1 ∧ (r.toRat = 0 ↔ a.toRat = 0) ∧
      (a = b → r = .one) := by
  obtain ⟨c, hdiv, hnormal, -, hwithin, hone⟩ := ha.exists_div? hb hzero
  have hpos := hb.normal.toRat_pos hzero
  have hratio : 0 ≤ a.toRat / b.toRat := div_nonneg ha.normal.toRat_nonneg hpos.le
  have hrounded := Probability.toRat_roundSignificant hnormal (by decide : 1 ≤ significantDigits)
  refine ⟨c.roundSignificant significantDigits, ?_,
    Probability.normal_roundSignificant hnormal _, ?_, ?_, ?_⟩
  · unfold answerGiven
    rw [if_neg hzero, hdiv]
  · rw [hrounded]
    exact roundTo_le_one (by decide) hnormal.toRat_nonneg (hone hle)
  · rw [hrounded, roundTo_eq_zero_iff (by decide) hnormal.toRat_nonneg,
      hwithin.eq_zero_iff hratio, div_eq_zero_iff, or_iff_left hpos.ne']
  · rintro rfl
    rw [Probability.div?_self ha.normal hzero] at hdiv
    refine (Probability.normal_roundSignificant hnormal _).eq_of_toRat_eq
      Probability.normal_one ?_
    rw [hrounded, ← Option.some.inj hdiv, Probability.toRat_one]
    exact roundTo_one (by decide)

namespace Complete

/-- The joint probabilities that an answer given evidence is made of. -/
theorem infer_given (h : n.Complete) (hsize : n.nodes.length ≤ maxVariables) (hq : n.Asks q)
    (hconsistent : Term.Consistent q.terms) (hsome : q.evidence ≠ [])
    (hfree : (n.free q.evidence).length < 64) :
    ∃ a b, n.infer q = answerGiven q a b ∧ a.Bounded ∧ b.Bounded ∧ a.toRat ≤ b.toRat ∧
      (a.toRat = 0 ↔ n.prob q.terms = 0) ∧ (b.isZero = true ↔ n.prob q.evidence = 0) ∧
      ((∀ t ∈ q.hypotheses, t ∈ q.evidence) → a = b) := by
  have hevidence : Term.Consistent q.evidence :=
    hconsistent.subset (List.subset_append_right q.hypotheses q.evidence)
  have hdefined : ∀ t ∈ q.terms, t.id ∈ n.ids := fun t ht => mem_ids.2 (hq.defined t ht)
  have hdefined' : ∀ t ∈ q.evidence, t.id ∈ n.ids := fun t ht =>
    hdefined t (List.mem_append_right _ ht)
  have hsub : q.evidence ⊆ q.terms := List.subset_append_right q.hypotheses q.evidence
  have hfree' : (n.free q.terms).length < 64 := lt_of_le_of_lt (h.length_free_le hsub) hfree
  obtain ⟨a, b, ha, hb, hbounded, hbounded', hle⟩ :=
    h.joint_le hsize hsub hconsistent hdefined hfree
  obtain ⟨a', ha', -, hwithin⟩ := h.joint_within hsize hconsistent hdefined hfree'
  obtain ⟨b', hb', -, hwithin'⟩ := h.joint_within hsize hevidence hdefined' hfree
  obtain rfl : a = a' := Except.ok.inj (ha.symm.trans ha')
  obtain rfl : b = b' := Except.ok.inj (hb.symm.trans hb')
  refine ⟨a, b, ?_, hbounded, hbounded', hle, hwithin.eq_zero_iff (h.prob_nonneg _), ?_, ?_⟩
  · rw [infer_of_evidence hq hconsistent hsome, h.joint_merged hconsistent,
      h.joint_merged hevidence, ha, hb]
    rfl
  · rw [← Probability.toRat_eq_zero_iff]
    exact hwithin'.eq_zero_iff (h.prob_nonneg _)
  · intro hall
    have hmem : ∀ t, t ∈ q.terms ↔ t ∈ q.evidence := by
      intro t
      rw [Query.terms, List.mem_append, or_iff_right_of_imp (hall t)]
    rw [h.joint_congr fun id _ => hevidence.last?_congr hmem id, hb] at ha
    exact (Except.ok.inj ha).symm

/-- Without evidence the answer is the joint probability with its significant
digits. -/
theorem infer_unconditional (h : n.Complete) (hsize : n.nodes.length ≤ maxVariables)
    (hq : n.Asks q) (hconsistent : Term.Consistent q.terms) (hnone : q.evidence = [])
    (hfree : (n.free q.hypotheses).length < 64) :
    ∃ r, n.infer q = .ok r ∧ r.Normal ∧ (r.toRat = 0 ↔ n.prob q.terms = 0) := by
  have hterms : q.terms = q.hypotheses := by rw [Query.terms, hnone, List.append_nil]
  rw [← hterms] at hfree
  obtain ⟨a, ha, hbounded, hwithin⟩ := h.joint_within hsize hconsistent
    (fun t ht => mem_ids.2 (hq.defined t ht)) hfree
  refine ⟨a.roundSignificant significantDigits, ?_,
    Probability.normal_roundSignificant hbounded.normal _, ?_⟩
  · rw [infer_of_evidence_nil hq hconsistent hnone, h.joint_merged hconsistent, ha]
    rfl
  · rw [Probability.toRat_roundSignificant hbounded.normal (by decide),
      roundTo_eq_zero_iff (by decide) hbounded.normal.toRat_nonneg]
    exact hwithin.eq_zero_iff (h.prob_nonneg _)

/-- A joint probability does not grow when a term is added. -/
theorem joint_compare_le (h : n.Complete) (hsize : n.nodes.length ≤ maxVariables) {t : Term}
    (hconsistent : Term.Consistent fixed) (hdefined : ∀ u ∈ fixed, n.contains u.id = true)
    (hfree : (n.free fixed).length < 64) (ht : n.contains t.id = true)
    (hnew : t.id ∉ fixed.map (·.id)) (hmem : ∀ u, u ∈ terms ↔ u ∈ fixed ∨ u = t) :
    ∃ a b, n.joint terms = .ok a ∧ n.joint fixed = .ok b ∧ a.compare b ≠ .gt := by
  have hterms : Term.Consistent terms := hconsistent.insert hnew fun u hu => (hmem u).1 hu
  have hids : ∀ u ∈ terms, u.id ∈ n.ids := by
    intro u hu
    rw [mem_ids]
    rcases (hmem u).1 hu with hu | rfl
    · exact hdefined u hu
    · exact ht
  obtain ⟨a, b, ha, hb, hbounded, hbounded', hle⟩ :=
    h.joint_le hsize (fun u hu => (hmem u).2 (.inl hu)) hterms hids hfree
  refine ⟨a, b, ha, hb, ?_⟩
  rw [hbounded.normal.compare_le_iff hbounded'.normal]
  exact hle

/-- An answer given evidence lies between zero and one. -/
theorem infer_le_one (h : n.Complete) (hsize : n.nodes.length ≤ maxVariables)
    (hsome : q.evidence ≠ []) (hr : n.infer q = .ok r) :
    Probability.zero.compare r ≠ .gt ∧ r.compare .one ≠ .gt ∧
      (Term.Consistent q.terms → (∀ t ∈ q.hypotheses, t ∈ q.evidence) → r = .one) := by
  have hq := asks_of_infer hr
  by_cases hconsistent : Term.Consistent q.terms
  · have hfree := length_free_lt_of_infer hr hconsistent hsome
    obtain ⟨a, b, hinfer, ha, hb, hle, -, -, heq⟩ :=
      h.infer_given hsize hq hconsistent hsome hfree
    have hzero : ¬b.isZero = true := by
      intro hzero
      rw [hinfer, answerGiven, if_pos hzero] at hr
      cases hr
    obtain ⟨r', hr', hnormal, hone, -, hself⟩ := exists_answerGiven q ha hb hzero hle
    obtain rfl : r = r' := Except.ok.inj (hr.symm.trans (hinfer.trans hr'))
    rw [Probability.normal_zero.compare_le_iff hnormal,
      hnormal.compare_le_iff Probability.normal_one, Probability.toRat_zero,
      Probability.toRat_one]
    exact ⟨hnormal.toRat_nonneg, hone, fun _ hall => hself (heq hall)⟩
  · rw [infer_of_not_consistent hq hconsistent] at hr
    cases hr
    exact ⟨by decide, by decide, fun h => absurd h hconsistent⟩

end Complete

/-- A joint probability does not grow when a term is added, whatever is
rounded, so an answer given evidence lies between zero and one; it is one if
the hypotheses are part of the evidence. -/
theorem Reachable.conditional_le_one (h : n.Reachable) (hready : n.isReady = true)
    (hsize : n.nodes.length ≤ 10 ^ 7) :
    (∀ (fixed extended : List Term) (t : Term), Term.Consistent fixed →
      (∀ u ∈ fixed, n.contains u.id = true) → (n.free fixed).length < 64 →
      n.contains t.id = true → t.id ∉ fixed.map (·.id) →
      (∀ u, u ∈ extended ↔ u ∈ fixed ∨ u = t) →
      ∃ a b, n.joint extended = .ok a ∧ n.joint fixed = .ok b ∧ a.compare b ≠ .gt) ∧
    (∀ (q : Query) (r : Probability), q.evidence ≠ [] → n.infer q = .ok r →
      Probability.zero.compare r ≠ .gt ∧ r.compare .one ≠ .gt ∧
        (Term.Consistent q.terms → (∀ t ∈ q.hypotheses, t ∈ q.evidence) → r = .one)) := by
  have hcomplete := h.complete hready
  constructor
  · intro fixed extended t hconsistent hdefined hfree ht hnew hmem
    exact hcomplete.joint_compare_le hsize hconsistent hdefined hfree ht hnew hmem
  · intro q r hsome hr
    exact hcomplete.infer_le_one hsize hsome hr

/-- So it is with the fault given the alarm, and with the alarm given itself. -/
theorem alarm_conditional_le_one :
    (∃ a b, alarm.joint [⟨"alarm", true⟩, ⟨"fault", true⟩] = .ok a ∧
      alarm.joint [⟨"alarm", true⟩] = .ok b ∧ a.compare b ≠ .gt) ∧
    (∃ r, alarm.infer ⟨[⟨"fault", true⟩], [⟨"alarm", true⟩]⟩ = .ok r ∧
      Probability.zero.compare r ≠ .gt ∧ r.compare .one ≠ .gt) ∧
    (∃ r, alarm.infer ⟨[⟨"alarm", true⟩], [⟨"alarm", true⟩]⟩ = .ok r ∧ r = .one) := by
  obtain ⟨hjoint, hanswer⟩ := alarm_reachable.conditional_le_one alarm_ready (by decide)
  refine ⟨?_, ?_, ?_⟩
  · exact hjoint [⟨"alarm", true⟩] _ ⟨"fault", true⟩ (by decide) (by decide) (by decide)
      (by decide) (by decide) (by simp [or_comm])
  · obtain ⟨r, hr⟩ : ∃ r, alarm.infer ⟨[⟨"fault", true⟩], [⟨"alarm", true⟩]⟩ = .ok r :=
      ⟨⟨⟨false, 32423, 4, by decide, by decide⟩, -1⟩, by decide +kernel⟩
    obtain ⟨hlow, hhigh, -⟩ := hanswer _ r (by decide) hr
    exact ⟨r, hr, hlow, hhigh⟩
  · have hr : alarm.infer ⟨[⟨"alarm", true⟩], [⟨"alarm", true⟩]⟩ = .ok .one := by decide +kernel
    obtain ⟨-, -, hone⟩ := hanswer _ _ (by decide) hr
    exact ⟨_, hr, hone (by decide) (by decide)⟩

/-- No rounding turns a positive probability into zero or into an error:
contradicting terms are answered with zero, evidence is refused if and only if
it is impossible, and every other answer is zero if and only if the exact
probability is. -/
theorem Reachable.infer_eq_zero_iff (h : n.Reachable) (hready : n.isReady = true)
    (hsize : n.nodes.length ≤ 10 ^ 7) {q : Query} (hhypothesis : q.hypotheses ≠ [])
    (hdefined : ∀ t ∈ q.terms, n.contains t.id = true)
    (hfree : (n.free (if q.evidence = [] then q.hypotheses else q.evidence)).length < 64) :
    (¬Term.Consistent q.terms → n.infer q = .ok .zero) ∧
    (Term.Consistent q.terms →
      (n.infer q = .error (.impossibleEvidence q) ↔
        q.evidence ≠ [] ∧ n.prob q.evidence = 0) ∧
      (¬(q.evidence ≠ [] ∧ n.prob q.evidence = 0) →
        ∃ r, n.infer q = .ok r ∧ (r = .zero ↔ n.prob q.terms = 0))) := by
  have hcomplete := h.complete hready
  have hq : n.Asks q := ⟨hhypothesis, hdefined⟩
  refine ⟨infer_of_not_consistent hq, fun hconsistent => ?_⟩
  by_cases hevidence : q.evidence = []
  · rw [if_pos hevidence] at hfree
    obtain ⟨r, hinfer, hnormal, hiff⟩ :=
      hcomplete.infer_unconditional hsize hq hconsistent hevidence hfree
    refine ⟨by simp [hinfer, hevidence], fun _ => ⟨r, hinfer, ?_⟩⟩
    rw [hnormal.eq_zero_iff, hiff]
  · rw [if_neg hevidence] at hfree
    obtain ⟨a, b, hinfer, ha, hb, hle, hiff, hiff', -⟩ :=
      hcomplete.infer_given hsize hq hconsistent hevidence hfree
    rw [hinfer]
    by_cases hzero : b.isZero = true
    · have herror : answerGiven q a b = .error (.impossibleEvidence q) := by
        unfold answerGiven
        rw [if_pos hzero]
      have himpossible : q.evidence ≠ [] ∧ n.prob q.evidence = 0 :=
        ⟨hevidence, hiff'.1 hzero⟩
      exact ⟨by simp [herror, himpossible], fun hnot => absurd himpossible hnot⟩
    · obtain ⟨r, hr, hnormal, -, hr', -⟩ := exists_answerGiven q ha hb hzero hle
      have hpossible : ¬(q.evidence ≠ [] ∧ n.prob q.evidence = 0) :=
        fun himpossible => hzero (hiff'.2 himpossible.2)
      refine ⟨?_, fun _ => ⟨r, hr, ?_⟩⟩
      · rw [hr]
        simp [hpossible]
      · rw [hnormal.eq_zero_iff, hr', hiff]

theorem alarm_infer_eq_zero_iff :
    alarm.infer ⟨[⟨"alarm", true⟩], [⟨"alarm", false⟩]⟩ = .ok .zero ∧
    ∃ r, alarm.infer ⟨[⟨"fault", true⟩], [⟨"alarm", true⟩]⟩ = .ok r ∧ r ≠ .zero := by
  constructor
  · have h := alarm_reachable.infer_eq_zero_iff alarm_ready (by decide)
      (q := ⟨[⟨"alarm", true⟩], [⟨"alarm", false⟩]⟩) (by decide) (by decide) (by decide)
    exact h.1 (by decide)
  · have h := alarm_reachable.infer_eq_zero_iff alarm_ready (by decide)
      (q := ⟨[⟨"fault", true⟩], [⟨"alarm", true⟩]⟩) (by decide) (by decide) (by decide)
    obtain ⟨r, hr, hiff⟩ := (h.2 (by decide)).2 (by decide +kernel)
    exact ⟨r, hr, fun hzero => absurd (hiff.1 hzero) (by decide +kernel)⟩

end Network

end BeliefNet
