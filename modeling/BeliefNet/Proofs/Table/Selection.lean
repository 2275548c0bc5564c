import Mathlib
import BeliefNet.Proofs.Network.WellFormed
import BeliefNet.Proofs.Table.Generation

/-!
# The rows that a filter selects

A filter leaves a variable one value or both (`Filter.valuesOf`). The assignments
that it accepts are the combinations of these values, one variable after the
other, and so are the rows: each variable that the filter says nothing about
doubles their number (`Table.length_filter_expressionsFor`). Since the table of a
variable in a network has the rows for its parents, whatever was filled in, this
is what a filter finds there (`Network.Reachable.select_exact`).
-/

namespace BeliefNet

open Expression (ofRow)

variable {f : Filter} {id owner : String} {ids parents : List String} {t : Term}

/-! ## The values that are left -/

namespace Filter

theorem admits_iff : f.admits t = true ↔ f.value? t.id ≠ some (!t.value) := by
  unfold admits
  cases f.value? t.id with
  | none => simp
  | some value => cases value <;> cases t.value <;> simp

/-- The values that a filter leaves to a variable. -/
def valuesOf (f : Filter) (id : String) : List Bool :=
  [true, false].filter fun value => f.admits ⟨id, value⟩

/-- It leaves both, unless it has a value for the variable. -/
theorem length_valuesOf : (f.valuesOf id).length = if f.value? id = none then 2 else 1 := by
  cases hvalue : f.value? id with
  | none => simp [valuesOf, admits, hvalue]
  | some value => cases value <;> simp [valuesOf, admits, hvalue]

theorem accepts_ofRow {value : Bool} {a : List Term} :
    f.accepts (ofRow owner value a) = (f.admits ⟨owner, value⟩ && a.all f.admits) := rfl

end Filter

/-! ## Assignments -/

/-- The accepted assignments combine the values that are left. -/
theorem filter_assignments_cons :
    ((assignments (id :: ids)).filter fun a => a.all f.admits) =
      (f.valuesOf id).flatMap fun value =>
        ((assignments ids).filter fun a => a.all f.admits).map (⟨id, value⟩ :: ·) := by
  rw [Filter.valuesOf, flatMap_filter, assignments, List.filter_flatMap]
  refine List.flatMap_congr fun value _ => ?_
  rw [List.filter_map]
  by_cases hadmits : f.admits ⟨id, value⟩ = true
  · simp [Function.comp_def, hadmits]
  · simp [Function.comp_def, hadmits]

/-- Every variable without a constraint doubles the number of assignments. -/
theorem length_filter_assignments :
    ((assignments ids).filter fun a => a.all f.admits).length =
      2 ^ ids.countP fun id => f.value? id = none := by
  induction ids with
  | nil => rfl
  | cons id ids ih =>
    rw [filter_assignments_cons, length_flatMap_of_forall fun _ _ => List.length_map _,
      Filter.length_valuesOf, ih]
    by_cases hfree : f.value? id = none
    · rw [List.countP_cons_of_pos (by simpa using hfree), if_pos hfree, pow_succ']
    · rw [List.countP_cons_of_neg (by simpa using hfree), if_neg hfree, one_mul]

/-! ## Rows -/

namespace Table

/-- The accepted rows combine the values that are left. -/
theorem filter_expressionsFor :
    (expressionsFor owner parents).filter f.accepts =
      ((assignments parents).filter fun a => a.all f.admits).flatMap fun a =>
        (f.valuesOf owner).map fun value => ofRow owner value a := by
  rw [flatMap_filter, expressionsFor_eq, List.filter_flatMap]
  refine List.flatMap_congr fun a _ => ?_
  rw [List.filter_map, Filter.valuesOf]
  by_cases hall : a.all f.admits = true
  · simp [Function.comp_def, Filter.accepts_ofRow, hall]
  · simp [Function.comp_def, Filter.accepts_ofRow, hall]

theorem length_filter_expressionsFor :
    ((expressionsFor owner parents).filter f.accepts).length =
      2 ^ (owner :: parents).countP fun id => f.value? id = none := by
  rw [filter_expressionsFor, length_flatMap_of_forall fun _ _ => List.length_map _,
    Filter.length_valuesOf, length_filter_assignments]
  by_cases hfree : f.value? owner = none
  · rw [List.countP_cons_of_pos (by simpa using hfree), if_pos hfree, pow_succ]
  · rw [List.countP_cons_of_neg (by simpa using hfree), if_neg hfree, mul_one]

theorem map_expression_select (t : Table) (f : Filter) :
    (t.select f).map (·.expression) = t.expressions.filter f.accepts := by
  rw [select, expressions, List.filter_map]
  rfl

theorem expressions_ofEntries (entries : Entries) :
    (ofEntries owner parents entries).expressions = expressionsFor owner parents := by
  simp [expressions, ofEntries, expressionsFor, List.map_flatMap, ofRow]

end Table

/-! ## Tables of a network -/

/-- What these constraints select from the rows of a variable: all rows that
contradict none of them. The last constraint of a variable counts. -/
structure Selects (owner : String) (parents : List String) (constraints : List Term)
    (selected : List Expression) : Prop where
  /-- They are in the order in which the rows were generated. -/
  order : selected.Sublist (Table.expressionsFor owner parents)
  distinct : selected.Pairwise fun e e' => e.same e' = false
  mem_iff : ∀ e, e ∈ selected ↔
    (∃ value a, a.map (·.id) = parents ∧ e = ofRow owner value a) ∧
      ∀ t ∈ e.terms, Term.last? constraints t.id ≠ some (!t.value)
  /-- Every variable of the table that is not constrained doubles their number. -/
  length_eq : selected.length =
    2 ^ (owner :: parents).countP fun id => Term.last? constraints id = none
  /-- If all are constrained, the one row with their values is left. -/
  eq_singleton : ∀ value : String → Bool,
    (∀ id ∈ owner :: parents, Term.last? constraints id = some (value id)) →
      selected = [ofRow owner (value owner) (parents.map fun id => ⟨id, value id⟩)]

theorem Table.selects {constraints : List Term} (hnodup : parents.Nodup)
    (hvalue : ∀ id, f.value? id = Term.last? constraints id) (entries : Table.Entries) :
    Selects owner parents constraints
      (((Table.ofEntries owner parents entries).select f).map (·.expression)) := by
  have hselected := Table.map_expression_select (Table.ofEntries owner parents entries) f
  rw [Table.expressions_ofEntries] at hselected
  refine ⟨?_, ?_, fun e => ?_, ?_, fun value hfixed => ?_⟩
  · rw [hselected]
    exact List.filter_sublist
  · rw [hselected]
    exact (Table.pairwise_expressionsFor hnodup).filter _
  · simp only [hselected, List.mem_filter, Table.mem_expressionsFor, Filter.accepts_eq,
      List.all_eq_true, Filter.admits_iff, hvalue]
  · rw [hselected, Table.length_filter_expressionsFor]
    simp only [hvalue]
  · simp only [← hvalue] at hfixed
    obtain ⟨howner, hparents⟩ := List.forall_mem_cons.1 hfixed
    rw [Table.select_ofEntries howner hparents]
    rfl

namespace Network

/-- In every network a table has the rows of its variable and the parents, which
are all different, and a filter with constraints, however repeated and whatever
else they are about, selects exactly those that contradict none of them. -/
theorem Reachable.select_exact {n : Network} (h : n.Reachable) {v : Variable} (hv : v ∈ n.nodes)
    {constraints : List Term} (hconstraints : constraints ≠ []) :
    (v.id :: n.parents v.id).Nodup ∧
      v.table.expressions = Table.expressionsFor v.id (n.parents v.id) ∧
      ∃ f, Filter.ofTerms constraints = .ok f ∧
        Selects v.id (n.parents v.id) constraints ((v.table.select f).map (·.expression)) := by
  obtain ⟨entries, htable, -⟩ := h.wellFormed.paired v hv
  have hvalue : ∀ id, (⟨constraints.foldl Term.assign []⟩ : Filter).value? id =
      Term.last? constraints id := Term.value?_foldl_assign_nil constraints
  have hnodup := h.wellFormed.nodup_parents v.id
  have hvariables : (v.id :: n.parents v.id).Nodup :=
    hnodup.cons (h.wellFormed.not_mem_parents v.id)
  have hfilter : Filter.ofTerms constraints = .ok ⟨constraints.foldl Term.assign []⟩ := by
    rw [Filter.ofTerms, if_neg (by simpa using hconstraints)]
  rw [htable]
  exact ⟨hvariables, Table.expressions_ofEntries entries, _, hfilter,
    Table.selects hnodup hvalue entries⟩

/-- With the alarm constrained twice, something else once and its parent not at
all, the rows without an alarm are left. -/
theorem alarm_selects :
    alarm.Reachable ∧ ∃ v ∈ alarm.nodes, v.id = "alarm" ∧
      ∃ f, Filter.ofTerms [⟨"alarm", true⟩, ⟨"smoke", false⟩, ⟨"alarm", false⟩] = .ok f ∧
        ((v.table.select f).map (·.expression)).length = 2 := by
  have hmem : alarm.nodes[1] ∈ alarm.nodes := List.getElem_mem _
  have hconstraints : ([⟨"alarm", true⟩, ⟨"smoke", false⟩, ⟨"alarm", false⟩] : List Term) ≠ [] := by
    simp
  obtain ⟨-, -, f, hf, hselects⟩ := alarm_reachable.select_exact hmem hconstraints
  exact ⟨alarm_reachable, _, hmem, rfl, f, hf, hselects.length_eq.trans (by decide)⟩

end Network

end BeliefNet
