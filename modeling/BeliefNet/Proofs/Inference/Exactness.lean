import Mathlib
import BeliefNet.Proofs.Inference.Answer

/-!
# Exact answers

The places of a network are the decimal places of its tables, added up. If they
are at most 28, no product and no sum is rounded (`Complete.joint_exact`): a
product never has more places than the tables of its factors, and all terms of
a sum together are at most one.

So the joint probabilities add up as exact ones do (`Complete.joint_add`), and
nothing fixed has probability one (`Complete.joint_nil`).

If they are at most 20, then only the answer itself is rounded, to its
significant digits (`Complete.infer_given_exact`).
-/

namespace BeliefNet

open Probability (IsExact)

/-- The most decimal places among the entries of a table, without zeros at
their ends. -/
def Table.places (t : Table) : Nat :=
  ((t.rows.filterMap (·.entry)).map (·.trim.scale)).foldr max 0

theorem Table.trim_scale_le_places {t : Table} {e : Expression} {d : Decimal}
    (h : t.get? e = .ok (some d)) : d.trim.scale ≤ t.places := by
  unfold Table.get? at h
  split at h
  · cases h
  · rename_i row hrow
    have hentry : row.entry = some d := Except.ok.inj h
    have hmem : d ∈ t.rows.filterMap (·.entry) :=
      List.mem_filterMap.2 ⟨row, List.mem_of_find?_eq_some hrow, hentry⟩
    exact List.le_max_of_le (List.mem_map_of_mem hmem) le_rfl

namespace Network

variable {n : Network} {fixed : List Term} {q : Query}

/-- The decimal places of the tables of some variables, added up. -/
def placesOf (nodes : List Variable) : Nat := (nodes.map (·.table.places)).sum

/-- The decimal places of the tables of a network, added up. -/
def places (n : Network) : Nat := placesOf n.nodes

theorem placesOf_concat (nodes : List Variable) (v : Variable) :
    placesOf (nodes ++ [v]) = placesOf nodes + v.table.places := by
  simp [placesOf]

theorem placesOf_append (nodes rest : List Variable) :
    placesOf (nodes ++ rest) = placesOf nodes + placesOf rest := by
  simp [placesOf]

namespace Complete

/-- The product for a world is its weight. -/
theorem productIn_exact (h : n.Complete) (hplaces : n.places ≤ 28) (w : World) :
    n.productIn w = .ok (n.term w) ∧ IsExact n.places (n.weight w) (n.term w) := by
  have hrun : ∃ p, n.productIn w = .ok p ∧
      IsExact (placesOf n.nodes) (n.storedProduct w n.nodes) p := by
    refine exists_productFrom (fun done p => IsExact (placesOf done) (n.storedProduct w done) p)
      ?_ ?_ IsExact.one
    · intro done v rest p hsplit hdone
      have hbudget : placesOf done + v.table.places ≤ 28 := by
        rw [places, hsplit, List.append_cons, placesOf_append, placesOf_concat] at hplaces
        omega
      obtain ⟨d, hd, hunit, hstored, hget⟩ := h.exists_entry_eq (v := v) (by simp [hsplit]) w
      obtain ⟨q, hmul, hq⟩ := hdone.mul hunit (Table.trim_scale_le_places hget) hbudget
      refine ⟨d, q, hd, hmul, ?_⟩
      rw [storedProduct_concat, placesOf_concat, hstored]
      exact hq
    · intro done rest p hsplit hdone hzero
      have hproduct : n.storedProduct w done = 0 := by
        rw [← hdone.toRat_eq, Probability.toRat_eq_zero_iff]
        exact hzero
      rw [hdone.normal.eq_zero_of_isZero hzero, hsplit,
        storedProduct_append_of_eq_zero hproduct]
      exact IsExact.zero _
  obtain ⟨p, hp, hexact⟩ := hrun
  rw [term_eq hp]
  exact ⟨hp, hexact⟩

/-- The joint probability of consistent terms is the exact one. -/
theorem joint_exact (h : n.Complete) (hplaces : n.places ≤ 28)
    (hconsistent : Term.Consistent fixed) (hdefined : ∀ t ∈ fixed, t.id ∈ n.ids)
    (hfree : (n.free fixed).length < 64) :
    ∃ j, n.joint fixed = .ok j ∧ IsExact n.places (n.prob fixed) j := by
  have hsum : (((n.worlds fixed).map n.term).map Probability.toRat).sum = n.prob fixed := by
    rw [prob, ← h.sum_worlds hconsistent hdefined, List.map_map]
    congr 1
    exact List.map_congr_left fun w _ => (h.productIn_exact hplaces w).2.toRat_eq
  have hterms : ∀ p ∈ (n.worlds fixed).map n.term, IsExact n.places p.toRat p := by
    intro p hp
    obtain ⟨w, -, rfl⟩ := List.mem_map.1 hp
    obtain ⟨-, hexact⟩ := h.productIn_exact hplaces w
    rw [hexact.toRat_eq]
    exact hexact
  obtain ⟨j, hfold, hj⟩ := (IsExact.zero n.places).exists_foldlM hplaces hterms (by
    rw [hsum, zero_add]
    exact h.prob_le_one fixed)
  rw [hsum, zero_add] at hj
  refine ⟨j, ?_, hj⟩
  rw [h.joint_eq (isReady_iff.1 h.ready) hfree]
  exact foldlM_addWorld (fun w _ => (h.productIn_exact hplaces w).1) hfold

/-- With nothing fixed, the joint probability is one. -/
theorem joint_nil (h : n.Complete) (hplaces : n.places ≤ 28) (hfew : n.nodes.length < 64) :
    n.joint [] = .ok .one := by
  have hfree : (n.free []).length < 64 := by
    simpa [free] using hfew
  have hconsistent : Term.Consistent [] := fun id hboth => List.not_mem_nil hboth.1
  obtain ⟨j, hjoint, hexact⟩ := h.joint_exact hplaces hconsistent (by simp) hfree
  have hone : j = .one := by
    refine hexact.normal.eq_of_toRat_eq Probability.normal_one ?_
    rw [hexact.toRat_eq, h.prob_nil, Probability.toRat_one]
  rw [hjoint, hone]

/-- The joint probabilities for the two values of a free variable add up to the
one without it, digit by digit. -/
theorem joint_add (h : n.Complete) (hplaces : n.places ≤ 28) (hconsistent : Term.Consistent fixed)
    (hdefined : ∀ t ∈ fixed, t.id ∈ n.ids) (hfew : (n.free fixed).length < 64) {id : String}
    (hid : id ∈ n.free fixed) {yes no : List Term}
    (hyes : ∀ t, t ∈ yes ↔ t ∈ fixed ∨ t = ⟨id, true⟩)
    (hno : ∀ t, t ∈ no ↔ t ∈ fixed ∨ t = ⟨id, false⟩) :
    ∃ a b j, n.joint yes = .ok a ∧ n.joint no = .ok b ∧ n.joint fixed = .ok j ∧
      a.add? b = some j ∧ j.toRat = n.prob fixed := by
  obtain ⟨hids, hnew⟩ := mem_free.1 hid
  have hextended : ∀ (value : Bool) (extended : List Term),
      (∀ t, t ∈ extended ↔ t ∈ fixed ∨ t = ⟨id, value⟩) →
      ∃ p, n.joint extended = .ok p ∧ IsExact n.places (n.prob extended) p := by
    intro value extended hmem
    have hsub : fixed ⊆ extended := fun t ht => (hmem t).2 (.inl ht)
    refine h.joint_exact hplaces (hconsistent.insert hnew fun t ht => (hmem t).1 ht) ?_
      (lt_of_le_of_lt (h.length_free_le hsub) hfew)
    intro t ht
    rcases (hmem t).1 ht with ht | rfl
    · exact hdefined t ht
    · exact hids
  obtain ⟨a, ha, hexact⟩ := hextended true yes hyes
  obtain ⟨b, hb, hexact'⟩ := hextended false no hno
  obtain ⟨j, hj, htotal⟩ := h.joint_exact hplaces hconsistent hdefined hfew
  have hprob : n.prob yes + n.prob no = n.prob fixed := prob_add_prob hyes hno
  obtain ⟨c, hadd, hsum⟩ := hexact.add hexact' hplaces (hprob ▸ h.prob_le_one fixed)
  -- normal forms of one number are equal, the scale and the exponent included
  have hsame : c = j := by
    refine hsum.normal.eq_of_toRat_eq htotal.normal ?_
    rw [hsum.toRat_eq, htotal.toRat_eq, hprob]
  exact ⟨a, b, j, ha, hb, hj, hsame ▸ hadd, htotal.toRat_eq⟩

/-- Given evidence, the answer is the quotient of the exact probabilities with
its significant digits. -/
theorem infer_given_exact (h : n.Complete) (hplaces : n.places ≤ 20) (hq : n.Asks q)
    (hconsistent : Term.Consistent q.terms) (hsome : q.evidence ≠ [])
    (hpossible : n.prob q.evidence ≠ 0) (hfree : (n.free q.evidence).length < 64) :
    ∃ r, n.infer q = .ok r ∧
      r.toRat = roundTo 5 (n.prob q.terms / n.prob q.evidence) := by
  have hsub : q.evidence ⊆ q.terms := List.subset_append_right q.hypotheses q.evidence
  have hevidence : Term.Consistent q.evidence := hconsistent.subset hsub
  have hdefined : ∀ t ∈ q.terms, t.id ∈ n.ids := fun t ht => mem_ids.2 (hq.defined t ht)
  have hfree' : (n.free q.terms).length < 64 := lt_of_le_of_lt (h.length_free_le hsub) hfree
  obtain ⟨a, ha, hexact⟩ := h.joint_exact (by omega) hconsistent hdefined hfree'
  obtain ⟨b, hb, hexact'⟩ :=
    h.joint_exact (by omega) hevidence (fun t ht => hdefined t (hsub ht)) hfree
  have hzero : ¬b.isZero = true := by
    rw [← Probability.toRat_eq_zero_iff, hexact'.toRat_eq]
    exact hpossible
  have hle : a.toRat ≤ b.toRat := by
    rw [hexact.toRat_eq, hexact'.toRat_eq]
    exact h.prob_anti hsub
  obtain ⟨c, hdiv, hnormal, hround⟩ := Probability.exists_div?_roundTo hexact.normal
    hexact'.normal hzero (hexact.toRat_eq ▸ hexact.places.mono hplaces)
    (hexact'.toRat_eq ▸ hexact'.places.mono hplaces) hle (hexact'.toRat_eq ▸ hexact'.le_one)
  refine ⟨c.roundSignificant significantDigits, ?_, ?_⟩
  · rw [infer_of_evidence hq hconsistent hsome, h.joint_merged hconsistent,
      h.joint_merged hevidence, ha, hb]
    show answerGiven q a b = _
    unfold answerGiven
    rw [if_neg hzero, hdiv]
  · rw [Probability.toRat_roundSignificant hnormal (by decide), ← hexact.toRat_eq,
      ← hexact'.toRat_eq]
    exact hround

/-- Without evidence, it is the exact probability with its significant
digits. -/
theorem infer_unconditional_exact (h : n.Complete) (hplaces : n.places ≤ 20) (hq : n.Asks q)
    (hconsistent : Term.Consistent q.terms) (hnone : q.evidence = [])
    (hfree : (n.free q.terms).length < 64) :
    ∃ r, n.infer q = .ok r ∧ r.toRat = roundTo 5 (n.prob q.terms) := by
  obtain ⟨a, ha, hexact⟩ := h.joint_exact (by omega) hconsistent
    (fun t ht => mem_ids.2 (hq.defined t ht)) hfree
  refine ⟨a.roundSignificant significantDigits, ?_, ?_⟩
  · rw [infer_of_evidence_nil hq hconsistent hnone, h.joint_merged hconsistent, ha]
    rfl
  · rw [Probability.toRat_roundSignificant hexact.normal (by decide), hexact.toRat_eq]
    rfl

end Complete

/-- In every network that operations can build, and whose tables have at most
20 decimal places together, an answer is the exact conditional probability
rounded to five significant digits. -/
theorem Reachable.infer_exact (h : n.Reachable) (hready : n.isReady = true)
    (hplaces : (n.nodes.map fun v => v.table.places).sum ≤ 20) {hypotheses evidence : List Term}
    (hhypothesis : hypotheses ≠ [])
    (hdefined : ∀ t ∈ hypotheses ++ evidence, n.contains t.id = true)
    (hconsistent : Term.Consistent (hypotheses ++ evidence)) (hpossible : n.prob evidence ≠ 0)
    (hfree : (n.free (if evidence = [] then hypotheses else evidence)).length < 64) :
    ∃ r, n.infer ⟨hypotheses, evidence⟩ = .ok r ∧
      r.toRat = roundTo 5 (if evidence = [] then n.prob hypotheses
        else n.prob (hypotheses ++ evidence) / n.prob evidence) := by
  have hcomplete := h.complete hready
  have hq : n.Asks ⟨hypotheses, evidence⟩ := ⟨hhypothesis, hdefined⟩
  by_cases hevidence : evidence = []
  · subst hevidence
    have hterms : (⟨hypotheses, []⟩ : Query).terms = hypotheses := List.append_nil hypotheses
    rw [if_pos rfl] at hfree ⊢
    have hanswer :=
      hcomplete.infer_unconditional_exact hplaces hq hconsistent rfl (hterms.symm ▸ hfree)
    rwa [hterms] at hanswer
  · rw [if_neg hevidence] at hfree ⊢
    exact hcomplete.infer_given_exact hplaces hq hconsistent hevidence hpossible hfree

theorem alarm_infer_exact :
    ∃ r, alarm.infer ⟨[⟨"fault", true⟩], [⟨"alarm", true⟩]⟩ = .ok r ∧
      r.toRat = roundTo 5 (95 / 293) := by
  have hratio : alarm.prob [⟨"fault", true⟩, ⟨"alarm", true⟩] / alarm.prob [⟨"alarm", true⟩] =
      95 / 293 := by decide +kernel
  rw [← hratio]
  exact alarm_reachable.infer_exact alarm_ready (by decide) (by decide) (by decide) (by decide)
    (by decide +kernel) (by decide)

/-- In every network that operations can build, and whose tables have at most
28 decimal places together, the joint probability of nothing is one, and that of
any terms is the sum for the two values of any variable they leave free; none of
the sums is rounded. -/
theorem Reachable.joint_total (h : n.Reachable) (hready : n.isReady = true)
    (hplaces : (n.nodes.map fun v => v.table.places).sum ≤ 28) :
    (n.nodes.length < 64 → n.joint [] = .ok .one) ∧
    (∀ (fixed yes no : List Term) (id : String), Term.Consistent fixed →
      (∀ t ∈ fixed, n.contains t.id = true) → (n.free fixed).length < 64 → id ∈ n.free fixed →
      (∀ t, t ∈ yes ↔ t ∈ fixed ∨ t = ⟨id, true⟩) →
      (∀ t, t ∈ no ↔ t ∈ fixed ∨ t = ⟨id, false⟩) →
      ∃ a b j, n.joint yes = .ok a ∧ n.joint no = .ok b ∧ n.joint fixed = .ok j ∧
        a.add? b = some j ∧ j.toRat = n.prob fixed) := by
  have hcomplete := h.complete hready
  constructor
  · intro hfew
    exact hcomplete.joint_nil hplaces hfew
  · intro fixed yes no id hconsistent hdefined hfew hid hyes hno
    exact hcomplete.joint_add hplaces hconsistent (fun t ht => mem_ids.2 (hdefined t ht)) hfew hid
      hyes hno

/-- The alarm goes off with a fault or without one: 0.0095 and 0.0198 are
0.0293. -/
theorem alarm_joint_total :
    alarm.joint [] = .ok .one ∧
    ∃ a b j, alarm.joint [⟨"alarm", true⟩, ⟨"fault", true⟩] = .ok a ∧
      alarm.joint [⟨"alarm", true⟩, ⟨"fault", false⟩] = .ok b ∧
      alarm.joint [⟨"alarm", true⟩] = .ok j ∧ a.add? b = some j ∧ j.toRat = 293 / 10000 := by
  obtain ⟨hone, hsum⟩ := alarm_reachable.joint_total alarm_ready (by decide)
  refine ⟨hone (by decide), ?_⟩
  have hprob : alarm.prob [⟨"alarm", true⟩] = 293 / 10000 := by decide +kernel
  rw [← hprob]
  exact hsum [⟨"alarm", true⟩] _ _ "fault" (by decide) (by decide) (by decide) (by decide)
    (by simp [or_comm]) (by simp [or_comm])

end Network

end BeliefNet
