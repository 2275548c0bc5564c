import Mathlib
import BeliefNet.Proofs.Table.Rows

/-!
# What was put into a table

A put names a row and gives it a probability; the other row of the same
assignment of the parents gets the complement. The table that some puts leave
behind holds in each row what the last put for its assignment says
(`Table.ofPuts`, `Table.get?_ofPuts`), and one put more is one more in the list
(`Table.putDecimal_ofPuts`).
-/

namespace BeliefNet

/-- A probability that was put into a table, for the row of an expression. -/
structure Put where
  expression : Expression
  entry : Decimal
  deriving DecidableEq

namespace Put

/-- The put is for the assignment of the parents that the expression names: its
own row or the other one of the pair. -/
def Concerns (p : Put) (e : Expression) : Prop := p.expression.evidence.Perm e.evidence

instance (p : Put) (e : Expression) : Decidable (p.Concerns e) :=
  inferInstanceAs (Decidable (List.Perm _ _))

/-- What the put leaves in a row of its assignment: the probability itself if it
was made on this row, and its complement if it was made on the other. -/
def on (p : Put) (e : Expression) : Decimal :=
  if p.expression.same e then p.entry else p.entry.complement

/-- What some puts leave in a row: the last one for its assignment counts. -/
def recorded (puts : List Put) (e : Expression) : Option Decimal :=
  (puts.filter fun p => decide (p.Concerns e)).getLast?.map (·.on e)

variable {puts : List Put} {p : Put} {e e' : Expression}

theorem recorded_concat (puts : List Put) (p : Put) (e : Expression) :
    recorded (puts ++ [p]) e = if p.Concerns e then some (p.on e) else recorded puts e := by
  unfold recorded
  rw [List.filter_append]
  by_cases h : p.Concerns e
  · simp [h]
  · simp [h]

theorem concerns_congr (h : e.same e' = true) : p.Concerns e ↔ p.Concerns e' := by
  have hperm := (Expression.same_iff_perm.1 h).2
  constructor
  · intro hp
    exact hp.trans hperm
  · intro hp
    exact hp.trans hperm.symm

/-- The order of the evidence does not matter for what is recorded. -/
theorem recorded_congr (h : e.same e' = true) : recorded puts e = recorded puts e' := by
  unfold recorded on
  simp only [concerns_congr h, Expression.same_congr h]

theorem recorded_eq_none_iff : recorded puts e = none ↔ ∀ p ∈ puts, ¬p.Concerns e := by
  unfold recorded
  rw [Option.map_eq_none_iff, List.getLast?_eq_none_iff, List.filter_eq_nil_iff]
  simp

/-- What is recorded comes from the last put for the assignment. -/
theorem recorded_eq_some_iff {x : Decimal} :
    recorded puts e = some x ↔ ∃ before p after, puts = before ++ p :: after ∧ p.Concerns e ∧
      (∀ later ∈ after, ¬later.Concerns e) ∧ x = p.on e := by
  unfold recorded
  rw [Option.map_eq_some_iff]
  constructor
  · rintro ⟨p, hlast, rfl⟩
    obtain ⟨earlier, hsplit⟩ := List.getLast?_eq_some_iff.1 hlast
    obtain ⟨before, rest, rfl, -, hrest⟩ := List.filter_eq_append_iff.1 hsplit
    obtain ⟨skipped, after, rfl, hskipped, hp, hafter⟩ := List.filter_eq_cons_iff.1 hrest
    refine ⟨before ++ skipped, p, after, by simp, by simpa using hp, ?_, rfl⟩
    simpa using List.filter_eq_nil_iff.1 hafter
  · rintro ⟨before, p, after, rfl, hp, hafter, rfl⟩
    refine ⟨p, ?_, rfl⟩
    have hnone : after.filter (fun later => decide (later.Concerns e)) = [] := by
      rw [List.filter_eq_nil_iff]
      simpa using hafter
    rw [List.filter_append, List.filter_cons_of_pos (by simpa using hp), hnone,
      List.getLast?_concat]

/-- Where no two puts are for the same assignment, any put for it is the last. -/
theorem recorded_eq_some_iff_mem (hunique : puts.Pairwise fun p q => ¬p.Concerns q.expression)
    {x : Decimal} : recorded puts e = some x ↔ ∃ p ∈ puts, p.Concerns e ∧ x = p.on e := by
  rw [recorded_eq_some_iff]
  constructor
  · rintro ⟨before, p, after, rfl, hp, -, rfl⟩
    exact ⟨p, by simp, hp, rfl⟩
  · rintro ⟨p, hmem, hp, rfl⟩
    obtain ⟨before, after, rfl⟩ := List.append_of_mem hmem
    refine ⟨before, p, after, rfl, hp, fun later hlater hconcerns => ?_, rfl⟩
    obtain ⟨hlaters, -⟩ := List.pairwise_cons.1 (List.pairwise_append.1 hunique).2.1
    exact hlaters later hlater (hp.trans hconcerns.symm)

/-! ## Other orders -/

/-- Puts for different assignments can be made in any order. -/
theorem recorded_perm {puts' : List Put}
    (hunique : puts.Pairwise fun p q => ¬p.Concerns q.expression) (h : puts.Perm puts')
    (e : Expression) : recorded puts e = recorded puts' e := by
  have hunique' : puts'.Pairwise fun p q => ¬p.Concerns q.expression := by
    refine (h.pairwise_iff fun {p q} hpq => ?_).1 hunique
    exact fun hqp => hpq hqp.symm
  refine Option.ext fun x => ?_
  rw [recorded_eq_some_iff_mem hunique, recorded_eq_some_iff_mem hunique']
  simp only [h.mem_iff]

/-- The puts are for the same row, however it is worded. -/
def Rewords (p q : Put) : Prop := p.expression.same q.expression = true ∧ p.entry = q.entry

theorem Rewords.concerns_iff {q : Put} (h : p.Rewords q) : p.Concerns e ↔ q.Concerns e := by
  have hperm := (Expression.same_iff_perm.1 h.1).2
  constructor
  · intro hp
    exact hperm.symm.trans hp
  · intro hq
    exact hperm.trans hq

theorem Rewords.on_eq {q : Put} (h : p.Rewords q) : p.on e = q.on e := by
  unfold on
  rw [Expression.same_comm, Expression.same_congr h.1, Expression.same_comm, h.2]

theorem recorded_cons (p : Put) (puts : List Put) (e : Expression) :
    recorded (p :: puts) e =
      (recorded puts e).or (if p.Concerns e then some (p.on e) else none) := by
  unfold recorded
  by_cases h : p.Concerns e
  · rw [List.filter_cons_of_pos (by simpa using h), List.getLast?_cons, if_pos h]
    cases (puts.filter fun p => decide (p.Concerns e)).getLast? with
    | none => rfl
    | some q => rfl
  · rw [List.filter_cons_of_neg (by simpa using h), if_neg h, Option.or_none]

theorem recorded_rewords {puts' : List Put} (h : List.Forall₂ Rewords puts puts')
    (e : Expression) : recorded puts e = recorded puts' e := by
  induction h with
  | nil => rfl
  | @cons p q puts puts' hpq _ ih =>
    rw [recorded_cons, recorded_cons, ih, hpq.on_eq]
    simp only [hpq.concerns_iff]

end Put

namespace Table

open Expression (ofRow)
open Put (recorded)

variable {owner : String} {parents : List String} {puts : List Put} {e : Expression}

/-- The table that some puts leave behind. -/
def ofPuts (owner : String) (parents : List String) (puts : List Put) : Table :=
  ofEntries owner parents fun value a => recorded puts (ofRow owner value a)

/-- A new table has no puts behind it. -/
theorem forParents_eq_ofPuts (owner : String) (parents : List String) :
    forParents owner parents = ofPuts owner parents [] := by
  unfold forParents ofPuts ofEntries expressionsFor
  rw [List.map_flatMap]
  rfl

/-- A row holds what is recorded for it. -/
theorem get?_ofPuts (hnodup : parents.Nodup) (h : e.IsRowOf owner parents) :
    (ofPuts owner parents puts).get? e = .ok (recorded puts e) := by
  obtain ⟨a, ha, value, hsame⟩ := h.exists_same
  unfold ofPuts
  rw [get?_of_same hnodup ha hsame, Put.recorded_congr hsame]

/-- Tables in which the same is recorded look the same, whatever the order of the
parents. -/
theorem get?_ofPuts_congr {parents' : List String} {puts' : List Put} (hnodup : parents.Nodup)
    (hparents : parents.Perm parents') (h : ∀ e, recorded puts e = recorded puts' e)
    (e : Expression) :
    (ofPuts owner parents puts).get? e = (ofPuts owner parents' puts').get? e := by
  by_cases hrow : e.IsRowOf owner parents
  · rw [get?_ofPuts hnodup hrow, h, get?_ofPuts (hparents.nodup_iff.1 hnodup)
      (hrow.congr e.same_refl hparents)]
  · have hrow' : ¬e.IsRowOf owner parents' := fun h =>
      hrow (h.congr e.same_refl hparents.symm)
    unfold ofPuts
    rw [get?_of_not_isRowOf hrow, get?_of_not_isRowOf hrow']

/-- A table is complete once there is a put for every assignment of the
parents. -/
theorem isComplete_ofPuts (hnodup : parents.Nodup) :
    (ofPuts owner parents puts).isComplete = true ↔ ∀ values : String → Bool, ∃ p ∈ puts,
      p.expression.evidence.Perm (parents.map fun id => ⟨id, values id⟩) := by
  have hrow : ∀ value a, (recorded puts (ofRow owner value a)).isSome = true ↔
      ∃ p ∈ puts, p.expression.evidence.Perm a := by
    intro value a
    rw [Option.isSome_iff_ne_none, ne_eq, Put.recorded_eq_none_iff]
    push Not
    rfl
  unfold ofPuts
  rw [isComplete_ofEntries]
  simp only [hrow, forall_const]
  constructor
  · intro h values
    exact h _ ((mem_assignments_iff_exists hnodup).2 ⟨values, rfl⟩)
  · intro h a ha
    obtain ⟨values, rfl⟩ := (mem_assignments_iff_exists hnodup).1 ha
    exact h values

/-- One put more. -/
theorem putDecimal_ofPuts (hnodup : parents.Nodup) (howner : owner ∉ parents)
    (hrow : e.IsRowOf owner parents) {entry : Decimal} (hunit : entry.InUnit) :
    (ofPuts owner parents puts).putDecimal e entry =
      .ok (ofPuts owner parents (puts ++ [⟨e, entry⟩])) := by
  obtain ⟨a, ha, value, hsame⟩ := hrow.exists_same
  unfold ofPuts
  rw [putDecimal_ofEntries hnodup howner ha hsame hunit]
  congr 1
  refine ofEntries_congr fun a' ha' value' => ?_
  have hconcerns : (⟨e, entry⟩ : Put).Concerns (ofRow owner value' a') ↔ a' = a := by
    have hevidence : a.Perm e.evidence := (Expression.same_iff_perm.1 hsame).2
    constructor
    · intro h
      have hperm : a'.Perm a := (hevidence.trans h).symm
      rw [mem_assignments] at ha ha'
      exact eq_of_perm_of_map_id hperm (ha'.trans ha.symm) (ha ▸ hnodup)
    · rintro rfl
      exact hevidence.symm
  have hon : (⟨e, entry⟩ : Put).on (ofRow owner value' a) =
      if value' = value then entry else entry.complement := by
    have hiff : e.same (ofRow owner value' a) = true ↔ value' = value := by
      rw [Expression.same_comm, ← Expression.same_congr hsame,
        Expression.ofRow_same_iff hnodup ha ha]
      simp
    unfold Put.on
    simp only [hiff]
  rw [Put.recorded_concat]
  unfold Entries.put
  by_cases heq : a' = a
  · rw [if_pos heq, if_pos (hconcerns.2 heq), heq, hon]
  · rw [if_neg heq, if_neg (fun h => heq (hconcerns.1 h))]

/-- The other row of an assignment holds the complement. -/
theorem complementary_recorded {t : Table} (h : t.Paired owner parents) (hnodup : parents.Nodup)
    {e' : Expression} (hrow : e.IsRowOf owner parents) (hrow' : e'.IsRowOf owner parents)
    (hevidence : e.evidence.Perm e'.evidence) (hother : e.hypotheses ≠ e'.hypotheses) :
    ∃ x y, t.get? e = .ok x ∧ t.get? e' = .ok y ∧ Complementary x y := by
  obtain ⟨entries, rfl, hpaired⟩ := h
  obtain ⟨a, ha, value, hsame⟩ := hrow.exists_same
  obtain ⟨a', ha', value', hsame'⟩ := hrow'.exists_same
  obtain ⟨hhypotheses, hperm⟩ := Expression.same_iff_perm.1 hsame
  obtain ⟨hhypotheses', hperm'⟩ := Expression.same_iff_perm.1 hsame'
  obtain rfl : a = a' := by
    rw [mem_assignments] at ha ha'
    exact eq_of_perm_of_map_id (hperm.trans (hevidence.trans hperm'.symm)) (ha.trans ha'.symm)
      (ha' ▸ hnodup)
  have hne : value ≠ value' := by
    rintro rfl
    exact hother ((List.singleton_perm.1 hhypotheses).symm.trans
      (List.singleton_perm.1 hhypotheses'))
  refine ⟨_, _, get?_of_same hnodup ha hsame, get?_of_same hnodup ha hsame', ?_⟩
  cases value with
  | true => cases value' with
    | true => exact absurd rfl hne
    | false => exact hpaired a ha
  | false => cases value' with
    | true => exact (hpaired a ha).symm
    | false => exact absurd rfl hne

end Table

end BeliefNet
