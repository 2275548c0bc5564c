import Mathlib
import BeliefNet.Proofs.Inference.Accuracy
import BeliefNet.Proofs.Probability.Significant
import BeliefNet.Proofs.Store.Calculation
import BeliefNet.Proofs.Store.Graph

/-!
# What a stored network answers

Inference in a stored network comes to what inference in the network comes to that is
stored (`Represents.infer_computes`, `Represents.marginals_computes`): whatever result
or error it has is the same, and with no more than `maxVariables` variables it has
one, since no exponent leaves its range.

The steps hand on why. A product has gone through so few roundings that its exponent is
far from the ends (`IsProduct`), and so has a sum of such products (`IsSum`), a
quotient of two such sums, and an answer (`IsAnswer`). The products are counted by the
binary digits of their completions (`completions_eq`).
-/

namespace BeliefNet

/-! ## Numbers of completions -/

theorem completionAt_cons (id : String) (ids : List String) (c : Nat) :
    completionAt (id :: ids) c = ⟨id, !c.testBit 0⟩ :: completionAt ids (c / 2) := by
  unfold completionAt
  rw [List.mapIdx_cons]
  simp only [Nat.testBit_succ]

/-- The even numbers and the odd ones take turns. -/
theorem range_two_mul (k : Nat) :
    List.range (2 * k) = (List.range k).flatMap fun c => [2 * c, 2 * c + 1] := by
  induction k with
  | zero => rfl
  | succ k ih =>
    rw [Nat.mul_succ, List.range_succ, List.range_succ, List.range_succ, ih, List.flatMap_append]
    simp

/-- The completions are counted off, the last digit first. -/
theorem completions_eq (ids : List String) :
    completions ids = (List.range (2 ^ ids.length)).map (completionAt ids) := by
  induction ids with
  | nil => rfl
  | cons id ids ih =>
    rw [completions, ih, List.length_cons, Nat.pow_succ', range_two_mul, List.map_flatMap,
      List.flatMap_map]
    refine List.flatMap_congr fun c _ => ?_
    have heven : (2 * c) / 2 = c := by omega
    have hodd : (2 * c + 1) / 2 = c := by omega
    simp [completionAt_cons, heven, hodd, Nat.testBit_zero]

open Probability (RunningProduct RunningSum Summand Bounded)

/-! ## Entries -/

theorem Table.Complementary.inUnit {x : Decimal} {y : Option Decimal}
    (h : Table.Complementary (some x) y) : x.InUnit := by
  cases h with
  | filled hx _ _ => exact hx

/-- Its rows hold probabilities. -/
theorem Table.Paired.inUnit {t : Table} {owner : String} {parents : List String} {row : Row}
    {d : Decimal} (h : t.Paired owner parents) (hrow : row ∈ t.rows)
    (hentry : row.entry = some d) : d.InUnit := by
  obtain ⟨entries, rfl, hpaired⟩ := h
  obtain ⟨a, ha, value, rfl⟩ := Table.mem_rows_ofEntries.1 hrow
  have hentry : entries value a = some d := hentry
  have hpair := hpaired a ha
  cases value with
  | true =>
    rw [hentry] at hpair
    exact hpair.inUnit
  | false =>
    rw [hentry] at hpair
    exact hpair.symm.inUnit

namespace Store

variable {s : Store} {n : Network} {f : Filter} {v : Node} {fixed : List Term}

/-- A row that is selected is one of the table, and is looked up by its meaning. -/
theorem entry_view (f : Filter) (v : Node) : entry f v = Network.entry f v.view := by
  have hselect := TableStore.select_view v.table f
  unfold entry Network.entry
  rw [Node.table_view, hselect]
  cases hrows : v.table.select f with
  | nil => rfl
  | cons row rows =>
    cases rows with
    | cons other rows =>
      simp only [List.map_cons, List.length_cons, List.length_map]
      rfl
    | nil =>
      have hmem : row ∈ v.table.expressions := by
        refine List.mem_of_mem_filter (p := f.accepts) ?_
        show row ∈ v.table.select f
        rw [hrows]
        exact List.mem_singleton_self row
      have hrow : v.table.contains row = true :=
        List.any_eq_true.2 ⟨row, hmem, Expression.same_refl row⟩
      have hget : v.table.get? row = .ok v.table.entries[Key.mk row]? := by
        unfold TableStore.get? TableStore.checkRow
        rw [if_pos hrow]
        rfl
      simp only [List.map_cons, List.map_nil, hget]
      cases v.table.entries[Key.mk row]? with
      | none => rfl
      | some d => rfl

theorem inUnit_of_entry (hn : n.WellFormed) {v : Variable} (hv : v ∈ n.nodes) {d : Decimal}
    (hd : Network.entry f v = .ok d) : d.InUnit := by
  unfold Network.entry at hd
  split at hd
  · rename_i row hselect
    have hrow : row ∈ v.table.rows := by
      refine List.mem_of_mem_filter (p := fun row => f.accepts row.expression) ?_
      show row ∈ v.table.select f
      rw [hselect]
      exact List.mem_singleton_self row
    split at hd
    · rename_i d' hentry
      obtain rfl := Except.ok.inj hd
      exact (hn.paired v hv).inUnit hrow hentry
    · cases hd
  · cases hd

/-! ## Products -/

/-- A product of so many entries that its exponent is far from the ends. -/
def IsProduct (p : Probability) : Prop := ∃ k x, k ≤ maxVariables ∧ RunningProduct k x p

/-- A step multiplies with an entry, and there is an error if there is none. -/
theorem productFrom_cons (f : Filter) (p : Probability) (v : Variable) (nodes : List Variable) :
    Network.productFrom f p (v :: nodes) = (do
      let factor := Probability.ofDecimal (← Network.entry f v)
      let p ← orError (.productOverflow p factor) (p.mul? factor)
      if p.isZero then return p else Network.productFrom f p nodes) := by
  rw [Network.productFrom]
  congr 1
  funext d
  dsimp only
  cases p.mul? (.ofDecimal d) with
  | none => rfl
  | some q => rfl

/-- The invariant is the number of entries so far. -/
theorem computes_productFrom {safe : Prop} {nodes : List Node} {k : Nat} {p : Probability}
    (hunit : ∀ v ∈ nodes, ∀ d, Network.entry f v.view = .ok d → d.InUnit)
    (hk : safe → k + nodes.length ≤ maxVariables) (hp : safe → ∃ x, RunningProduct k x p) :
    Computes safe IsProduct (productFrom f p nodes)
      (Network.productFrom f p (nodes.map Node.view)) := by
  induction nodes generalizing k p with
  | nil =>
    refine .pure fun hsafe => ?_
    obtain ⟨x, hx⟩ := hp hsafe
    exact ⟨k, x, hk hsafe, hx⟩
  | cons v nodes ih =>
    rw [List.map_cons, productFrom_cons, productFrom, entry_view]
    have hroom : safe → k + 1 + nodes.length ≤ maxVariables := by
      intro hsafe
      have hroom := hk hsafe
      rw [List.length_cons] at hroom
      omega
    refine Computes.read.bind fun d hd _ => ?_
    have hd := hunit v List.mem_cons_self d hd
    have hstep : Computes safe (fun q => ∃ x, RunningProduct (k + 1) x q)
        (Calculation.orThrow (.productOverflow p (.ofDecimal d)) (p.mul (.ofDecimal d)))
        (orError (.productOverflow p (.ofDecimal d)) (p.mul? (.ofDecimal d))) := by
      refine computes_orThrow Probability.mul_eq_none_iff (fun _ => Probability.mul?_of_mul)
        fun hsafe => ?_
      obtain ⟨x, hx⟩ := hp hsafe
      have hroom := hroom hsafe
      obtain ⟨q, -, hnext, hsteps⟩ := hx.step (by omega) hd
      exact ⟨q, hsteps, _, hnext⟩
    refine hstep.bind fun q _ hq => ?_
    -- a product of zero ends the computation here, with its entries counted
    by_cases hzero : q.isZero = true
    · rw [if_pos hzero, if_pos hzero]
      refine .pure fun hsafe => ?_
      obtain ⟨x, hx⟩ := hq hsafe
      have hroom := hroom hsafe
      exact ⟨k + 1, x, by omega, hx⟩
    · rw [if_neg hzero, if_neg hzero]
      exact ih (fun v hv => hunit v (List.mem_cons_of_mem _ hv)) hroom hq

/-! ## Sums -/

/-- No product is between zero and ten to this power. -/
def lowestTerm : ℤ := -28 * maxVariables - 1

theorem summand_of_isProduct {p : Probability} (h : IsProduct p) : Summand lowestTerm p := by
  obtain ⟨k, x, hk, hx⟩ := h
  have hsummand := hx.summand hk
  refine ⟨hsummand.normal, hsummand.le_two, hsummand.low.imp_right fun hlow => ?_⟩
  refine le_trans (zpow_le_zpow_right₀ (by norm_num) ?_) hlow
  unfold lowestTerm
  omega

/-- A sum of some products. -/
def IsSum (k : Nat) (total : Probability) : Prop :=
  ∃ x : ℚ, x ≤ 2 * k ∧ RunningSum lowestTerm k x total

/-- Fewer than `2 ^ 64` products have a sum that is far from the ends. -/
theorem IsSum.add {k : Nat} {total term : Probability} (h : IsSum k total)
    (hterm : IsProduct term) (hk : k < 2 ^ 64) :
    ∃ sum, total.add term = some (.ok sum) ∧ IsSum (k + 1) sum := by
  obtain ⟨x, hx, hsum⟩ := h
  have hsummand := summand_of_isProduct hterm
  have hk' : (k : ℚ) ≤ 2 ^ 64 := by exact_mod_cast hk.le
  obtain ⟨sum, -, hnext, -, hsteps⟩ := hsum.step hsummand (by omega) (by linarith)
    (by unfold lowestTerm maxVariables; norm_num) (by unfold lowestTerm; omega)
  refine ⟨sum, hsteps, _, ?_, hnext⟩
  have htwo := hsummand.le_two
  push_cast
  linarith

theorem IsSum.bounded {k : Nat} {total : Probability} (h : IsSum k total) (hk : k ≤ 2 ^ 64) :
    total.Bounded := by
  obtain ⟨x, hx, hsum⟩ := h
  have hk' : (k : ℚ) ≤ 2 ^ 64 := by exact_mod_cast hk
  obtain ⟨hlow, hhigh⟩ := hsum.exponent_bounds (by omega) (by linarith)
    (by unfold lowestTerm; omega)
  refine ⟨hsum.normal, ?_, hhigh⟩
  unfold lowestTerm maxVariables at hlow
  omega

/-- One more completion, in the network without bounds. -/
def addTerms (n : Network) (fixed : List Term) (total : Probability) (completion : List Term) :
    Except Error Probability := do
  let f ← Filter.ofTerms (fixed ++ completion)
  let term ← n.product f
  orError (.sumOverflow term total) (total.add? term)

theorem joint_eq_addTerms (n : Network) (fixed : List Term) :
    n.joint fixed = (do
      n.checkReady
      if fixed.isEmpty && (n.free fixed).isEmpty then
        return .one
      if 64 ≤ (n.free fixed).length then
        throw (.tooManyFree (n.free fixed).length)
      (completions (n.free fixed)).foldlM (addTerms n fixed) .zero) :=
  rfl

/-! ## Quotients -/

/-- What is rounded to an answer. -/
def IsAnswer (p : Probability) : Prop := p.Normal ∧ Probability.HasRoom p.exponent

theorem isAnswer_of_bounded {p : Probability} (h : p.Bounded) : IsAnswer p := by
  have hlow := h.low
  have hhigh := h.high
  refine ⟨h.normal, ?_⟩
  unfold Probability.HasRoom
  omega

/-- Joint probabilities have a quotient that is far from the ends. -/
theorem exists_quotient {a b : Probability} (ha : a.Bounded) (hb : b.Bounded)
    (hzero : ¬b.isZero = true) : ∃ c, a.div b = some (.ok c) ∧ IsAnswer c := by
  obtain ⟨c, hdiv, hnormal, hsafe, -, -⟩ := ha.exists_div? hb hzero
  refine ⟨c, Probability.div_of_div? hdiv hsafe.inRange, hnormal, ?_⟩
  unfold Probability.SafeExponent at hsafe
  unfold Probability.HasRoom
  omega

theorem rounding_computes {safe : Prop} {p : Probability} (h : safe → IsAnswer p) :
    Computes safe (fun _ => True) (Calculation.ofSteps (p.roundDigits significantDigits))
      (.ok (p.roundSignificant significantDigits)) := by
  constructor
  · intro r hrun
    cases hround : p.roundDigits significantDigits with
    | error _ =>
      rw [hround] at hrun
      exact nomatch hrun
    | ok q =>
      rw [hround] at hrun
      rw [Probability.roundSignificant_of_roundDigits hround]
      exact (Except.ok.inj hrun).symm
  · intro hsafe
    obtain ⟨hnormal, hroom⟩ := h hsafe
    rw [Probability.roundDigits_eq_ok hnormal (by decide) hroom]
    rfl
  · exact fun _ _ _ => trivial

/-- So many variables keep everything in range. -/
def Small (s : Store) : Prop := s.nodes.length ≤ maxVariables

namespace Represents

theorem free_eq (h : s.Represents n) (fixed : List Term) : s.free fixed = n.free fixed := by
  unfold Store.free Network.free
  rw [h.map_id]

theorem product_computes (h : s.Represents n) (f : Filter) :
    Computes s.Small IsProduct (s.product f) (n.product f) := by
  unfold Store.product Network.product
  rw [← h.nodes]
  refine computes_productFrom (k := 0) ?_ ?_ fun _ => ⟨1, .one⟩
  · intro v hv d hd
    refine inUnit_of_entry h.wellFormed ?_ hd
    rw [← h.nodes]
    exact List.mem_map_of_mem hv
  · intro hsmall
    rw [Nat.zero_add]
    exact hsmall

/-- One step of the sum. -/
theorem addCompletion_computes (h : s.Represents n) {k : Nat} {total : Probability}
    (htotal : s.Small → IsSum k total) (hk : k < 2 ^ 64) (c : Nat) :
    Computes s.Small (IsSum (k + 1)) (s.addCompletion fixed total c)
      (addTerms n fixed total (completionAt (n.free fixed) c)) := by
  unfold addCompletion addTerms
  rw [h.free_eq]
  refine Computes.read.bind fun f _ _ => ?_
  refine (h.product_computes f).bind fun term _ hterm => ?_
  exact computes_orThrow Probability.add_eq_none_iff (fun _ => Probability.add?_of_add)
    fun hsmall => (htotal hsmall).add (hterm hsmall) hk

/-- The invariant is that as many products have been added as completions counted. -/
theorem addCompletions_computes (h : s.Represents n) {c count : Nat} {total : Probability}
    (htotal : s.Small → IsSum c total) (hcount : c + count ≤ 2 ^ 64) :
    Computes s.Small (IsSum (c + count)) (s.addCompletions fixed total c count)
      (((List.range' c count).map (completionAt (n.free fixed))).foldlM (addTerms n fixed)
        total) := by
  induction count generalizing c total with
  | zero => exact .pure htotal
  | succ count ih =>
    rw [List.range'_succ, List.map_cons, List.foldlM_cons, addCompletions]
    refine (h.addCompletion_computes htotal (by omega) c).bind fun next _ hnext => ?_
    have hnumber : c + (count + 1) = c + 1 + count := by omega
    rw [hnumber]
    exact ih hnext (by omega)

/-- Joint probabilities are those of the network. -/
theorem joint_computes (h : s.Represents n) (fixed : List Term) :
    Computes s.Small Bounded (s.joint fixed) (n.joint fixed) := by
  rw [joint_eq_addTerms]
  unfold Store.joint
  rw [h.checkReady_eq, h.free_eq]
  refine Computes.read.bind fun _ _ _ => ?_
  by_cases hempty : (fixed.isEmpty && (n.free fixed).isEmpty) = true
  · rw [if_pos hempty, if_pos hempty]
    exact .pure fun _ => ⟨Probability.normal_one, by decide, by decide⟩
  rw [if_neg hempty, if_neg hempty]
  by_cases hmany : 64 ≤ (n.free fixed).length
  · rw [if_pos hmany, if_pos hmany]
    exact Computes.throw (.tooManyFree _)
  rw [if_neg hmany, if_neg hmany, twoPow_eq]
  have hcount : 0 + 2 ^ (n.free fixed).length ≤ 2 ^ 64 := by
    rw [Nat.zero_add]
    exact Nat.pow_le_pow_right (by decide) (by omega)
  have hsum : Computes s.Small (IsSum (0 + 2 ^ (n.free fixed).length))
      (s.addCompletions fixed .zero 0 (2 ^ (n.free fixed).length)) _ :=
    h.addCompletions_computes (fun _ => ⟨0, by simp, .zero _⟩) hcount
  rw [← List.range_eq_range', ← completions_eq] at hsum
  exact hsum.mono fun total htotal => htotal.bounded hcount

/-! ## Answers -/

theorem checkQuery_eq (h : s.Represents n) (q : Query) : s.checkQuery q = n.checkQuery q := by
  unfold Store.checkQuery
  rw [h.contains_eq]
  rfl

/-- Queries are answered as in the network. -/
theorem infer_computes (h : s.Represents n) (q : Query) :
    Computes s.Small (fun _ => True) (s.infer q) (n.infer q) := by
  unfold Store.infer Network.infer
  rw [h.checkQuery_eq]
  refine Computes.read.bind fun _ _ _ => ?_
  cases Term.merge q.terms with
  | error _ => exact .pure fun _ => trivial
  | ok fixed =>
    refine (h.joint_computes fixed).bind fun numerator _ hnumerator => ?_
    by_cases hevidence : q.hasEvidence = true
    · rw [if_pos hevidence, if_pos hevidence]
      refine (h.joint_computes _).bind fun denominator _ hdenominator => ?_
      by_cases hzero : denominator.isZero = true
      · rw [if_pos hzero, if_pos hzero]
        exact Computes.throw (.impossibleEvidence q)
      rw [if_neg hzero, if_neg hzero]
      have hquotient : Computes s.Small IsAnswer
          (Calculation.orThrow (.quotientOverflow numerator denominator)
            (numerator.div denominator))
          (orError (.quotientOverflow numerator denominator) (numerator.div? denominator)) :=
        computes_orThrow Probability.div_eq_none_iff (fun _ => Probability.div?_of_div)
          fun hsmall => exists_quotient (hnumerator hsmall) (hdenominator hsmall) hzero
      have hrounded := hquotient.bind fun _ _ hanswer => rounding_computes hanswer
      cases hdiv : numerator.div? denominator with
      | some quotient =>
        rw [hdiv] at hrounded
        exact hrounded
      | none =>
        rw [hdiv] at hrounded
        exact hrounded
    · rw [if_neg hevidence, if_neg hevidence]
      exact rounding_computes fun hsmall => isAnswer_of_bounded (hnumerator hsmall)

theorem query_computes (h : s.Represents n) (text : String) :
    Computes s.Small (fun _ => True) (s.query text) (n.query text) := by
  unfold Store.query Network.query
  rw [h.checkReady_eq, h.parseQuery_eq]
  refine Computes.read.bind fun _ _ _ => ?_
  exact Computes.read.bind fun q _ _ => h.infer_computes q

theorem queryDouble_computes (h : s.Represents n) (text : String) :
    Computes s.Small (fun _ => True) (s.queryDouble text) (n.queryDouble text) :=
  (h.query_computes text).map _

theorem queryDecimal_computes (h : s.Represents n) (text : String) :
    Computes s.Small (fun _ => True) (s.queryDecimal text) (n.queryDecimal text) := by
  unfold Store.queryDecimal Network.queryDecimal
  refine (h.query_computes text).bind fun answer _ _ => ?_
  cases answer.toDecimal? with
  | some d => exact .pure fun _ => trivial
  | none => exact .throw _

theorem probability_computes (h : s.Represents n) (id : String) :
    Computes s.Small (fun _ => True) (s.probability id) (n.probability id) := by
  unfold Store.probability Network.probability
  obtain ⟨hstore, hnetwork⟩ | ⟨position, v, hstore, -, -, hnetwork⟩ := h.require_cases id
  · rw [hstore, hnetwork]
    exact Computes.throw (.undefinedVariable id)
  rw [hstore, hnetwork, h.checkReady_eq, h.evidence]
  show Computes s.Small _ (ofExcept n.checkReady >>= _) (n.checkReady >>= _)
  refine Computes.read.bind fun _ _ _ => ?_
  exact (h.infer_computes _).bind fun answer _ _ => .pure fun _ => trivial

/-- The marginals are those of the network, up to the first that fails. -/
theorem marginals_computes (h : s.Represents n) :
    Computes s.Small (fun _ => True) s.marginals n.marginals := by
  unfold Store.marginals Network.marginals
  rw [h.evidence, ← h.nodes, List.mapM_map]
  refine Computes.bind (Computes.mapM fun v _ => ?_) fun entries _ _ => .pure fun _ => trivial
  exact (h.probability_computes v.id).bind fun p _ _ => .pure fun _ => trivial

end Represents

/-- In every network that operations can build, with no more than `maxVariables`
variables, whatever is asked is answered as in the network that is stored, and nothing
overflows on the way. -/
theorem build_answers (ops : List Network.Operation) (hsmall : (build ops).Small) :
    (∀ fixed, ((build ops).joint fixed).run = .ok ((Network.build ops).joint fixed)) ∧
    (∀ q, ((build ops).infer q).run = .ok ((Network.build ops).infer q)) ∧
    (∀ text, ((build ops).query text).run = .ok ((Network.build ops).query text)) ∧
    (∀ id, ((build ops).probability id).run = .ok ((Network.build ops).probability id)) ∧
    (build ops).marginals.run = .ok (Network.build ops).marginals := by
  have h := build_represents ops
  refine ⟨fun fixed => ?_, fun q => ?_, fun text => ?_, fun id => ?_, ?_⟩
  · exact (h.joint_computes fixed).answers hsmall
  · exact (h.infer_computes q).answers hsmall
  · exact (h.query_computes text).answers hsmall
  · exact (h.probability_computes id).answers hsmall
  · exact h.marginals_computes.answers hsmall

end Store

end BeliefNet
