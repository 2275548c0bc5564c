import Mathlib
import BeliefNet.Proofs.Decimal.Value
import BeliefNet.Proofs.Expression.Same
import BeliefNet.Proofs.Term.Consistent
import BeliefNet.Table

/-!
# The rows of a table

A table of a variable with distinct parents has one row for each value and each
assignment of the parents, and is known by its entries (`Table.ofEntries`).
Filling a row and its counterpart keeps this form and sets the two entries of
one assignment (`Table.putDecimal_ofEntries`), so it keeps them together: both
are unfilled, or they add up to one (`Table.Paired.putDecimal`). In a table of
this form

* the rows are the expressions with one hypothesis, on the owner, and evidence
  for each parent, in any order (`Table.contains_ofEntries`);
* looking up a row finds its entry (`Table.get?_ofRow`);
* a filter that fixes the owner and its parents selects exactly one row
  (`Table.select_ofEntries`).
-/

namespace BeliefNet

theorem flatMap_filter {α β : Type} (p : α → Bool) (g : α → List β) (l : List α) :
    (l.filter p).flatMap g = l.flatMap fun a => if p a then g a else [] := by
  induction l with
  | nil => rfl
  | cons a l ih =>
    rw [List.flatMap_cons, ← ih]
    by_cases hp : p a
    · simp [hp]
    · simp [hp]

/-! ## Assignments -/

theorem mem_assignments {ids : List String} {a : List Term} :
    a ∈ assignments ids ↔ a.map (·.id) = ids := by
  induction ids generalizing a with
  | nil => simp [assignments]
  | cons id ids ih =>
    simp only [assignments, List.mem_flatMap, List.mem_map, ih]
    constructor
    · rintro ⟨value, -, rest, hrest, rfl⟩
      simp [hrest]
    · intro h
      obtain ⟨t, rest, rfl, ht, hrest⟩ := List.map_eq_cons_iff.1 h
      refine ⟨t.value, by simp, rest, hrest, ?_⟩
      rw [← ht]

/-- The assignments of distinct variables are given by their values. -/
theorem mem_assignments_iff_exists {ids : List String} (hnodup : ids.Nodup) {a : List Term} :
    a ∈ assignments ids ↔ ∃ values : String → Bool, a = ids.map fun id => ⟨id, values id⟩ := by
  rw [mem_assignments]
  constructor
  · rintro rfl
    refine ⟨fun id => (Term.value? a id).getD false, ?_⟩
    rw [List.map_map]
    conv_lhs => rw [← List.map_id a]
    refine List.map_congr_left fun t ht => ?_
    simp [(Term.Consistent.of_nodup hnodup).value? ht]
  · rintro ⟨values, rfl⟩
    rw [List.map_map]
    exact List.map_id ids

/-- An assignment in another order, brought back to the order of the ids, is
the same assignment. -/
theorem eq_of_perm_of_map_id {a b : List Term} (hperm : a.Perm b)
    (hids : a.map (·.id) = b.map (·.id)) (hnodup : (b.map (·.id)).Nodup) : a = b := by
  have hlength : a.length = b.length := hperm.length_eq
  refine List.ext_getElem hlength fun i hi hi' => ?_
  -- position by position: the ids agree, and an id occurs once
  refine List.inj_on_of_nodup_map hnodup (hperm.subset (List.getElem_mem hi))
    (List.getElem_mem hi') ?_
  have := congrArg (fun ids => ids[i]?) hids
  simpa [hi, hi'] using this

/-- A filter has no other value for the variable of a term. -/
def Filter.admits (f : Filter) (t : Term) : Bool :=
  match f.value? t.id with
  | none => true
  | some value => value == t.value

theorem Filter.accepts_eq (f : Filter) (e : Expression) : f.accepts e = e.terms.all f.admits :=
  rfl

namespace Expression

/-- The expression of a row. -/
def ofRow (owner : String) (value : Bool) (assignment : List Term) : Expression :=
  ⟨⟨[⟨owner, value⟩], assignment⟩⟩

/-- The expression is that of a row: it has one hypothesis, on the owner, and
evidence that gives each parent one value and names nothing else. -/
structure IsRowOf (e : Expression) (owner : String) (parents : List String) : Prop where
  hypothesis : ∃ value, e.hypotheses = [⟨owner, value⟩]
  evidence : (e.evidence.map (·.id)).Perm parents

instance (e : Expression) (owner : String) (parents : List String) :
    Decidable (e.IsRowOf owner parents) :=
  decidable_of_iff ((∃ value, e.hypotheses = [⟨owner, value⟩]) ∧
      (e.evidence.map (·.id)).Perm parents)
    ⟨fun ⟨hhypothesis, hevidence⟩ => ⟨hhypothesis, hevidence⟩,
      fun ⟨hhypothesis, hevidence⟩ => ⟨hhypothesis, hevidence⟩⟩

variable {owner : String} {parents : List String} {a : List Term} {value : Bool} {e : Expression}

/-- The evidence of a row, in the order of the parents. -/
theorem IsRowOf.exists_same (h : e.IsRowOf owner parents) :
    ∃ a ∈ assignments parents, ∃ value, (ofRow owner value a).same e = true := by
  obtain ⟨⟨value, hvalue⟩, hevidence⟩ := h
  have hids : List.Forall₂ (fun id (t : Term) => id = t.id) (e.evidence.map (·.id)) e.evidence := by
    rw [List.forall₂_map_left_iff]
    exact List.forall₂_same.2 fun _ _ => rfl
  obtain ⟨a, hmatch, hperm⟩ := List.perm_comp_forall₂ hevidence.symm hids
  refine ⟨a, mem_assignments.2 ?_, value, same_iff_perm.2 ⟨?_, hperm⟩⟩
  · rw [← List.forall₂_eq_eq_eq, List.forall₂_map_left_iff]
    exact hmatch.flip.imp fun _ _ heq => heq.symm
  · rw [hvalue]
    exact List.Perm.refl _

theorem isRowOf_of_same (ha : a ∈ assignments parents) (h : (ofRow owner value a).same e = true) :
    e.IsRowOf owner parents := by
  obtain ⟨hhypotheses, hevidence⟩ := same_iff_perm.1 h
  refine ⟨⟨value, (List.singleton_perm.1 hhypotheses).symm⟩, ?_⟩
  rw [← mem_assignments.1 ha]
  exact (hevidence.map _).symm

/-- An expression that names a row is about the value of this row. -/
theorem hypothesis?_of_same (h : (ofRow owner value a).same e = true) :
    e.hypothesis? owner = some value := by
  have hsingle : e.hypotheses = [⟨owner, value⟩] :=
    (List.singleton_perm.1 (same_iff_perm.1 h).1).symm
  simp [hypothesis?, hsingle, Term.value?]

/-- Neither the order of the evidence nor that of the parents matters. -/
theorem IsRowOf.congr {e' : Expression} {parents' : List String} (h : e.IsRowOf owner parents)
    (hsame : e.same e' = true) (hparents : parents.Perm parents') : e'.IsRowOf owner parents' := by
  obtain ⟨hhypotheses, hevidence⟩ := same_iff_perm.1 hsame
  obtain ⟨value, hvalue⟩ := h.hypothesis
  rw [hvalue] at hhypotheses
  exact ⟨⟨value, (List.singleton_perm.1 hhypotheses).symm⟩,
    (hevidence.map _).symm.trans (h.evidence.trans hparents)⟩

/-- An expression with one hypothesis gets another value for it. -/
theorem withHypothesis_eq (hvalue : e.hypotheses = [⟨owner, value⟩])
    (hnodup : (e.evidence.map (·.id)).Nodup) (howner : owner ∉ e.evidence.map (·.id))
    (value' : Bool) : e.withHypothesis owner value' = .ok (ofRow owner value' e.evidence) := by
  have hassign : Term.assign e.hypotheses ⟨owner, value'⟩ = [⟨owner, value'⟩] := by
    rw [hvalue]
    simp [Term.assign]
  have hshared : ([⟨owner, value'⟩] : List Term).find?
      (fun h => e.evidence.any (·.id == h.id)) = none := by
    rw [List.find?_singleton, if_neg]
    intro hany
    obtain ⟨t, ht, hid⟩ := List.any_eq_true.1 hany
    have hid : t.id = owner := by simpa using hid
    exact howner (List.mem_map.2 ⟨t, ht, hid⟩)
  unfold withHypothesis ofTerms
  rw [hassign, Term.merge_of_nodup (by simp), Term.merge_of_nodup hnodup]
  simp only [List.isEmpty_cons, Bool.false_eq_true, if_false]
  rw [hshared]
  rfl

/-- Rows of a table with distinct parents are told apart. -/
theorem ofRow_same_iff {owner : String} {parents : List String} (hnodup : parents.Nodup)
    {value value' : Bool} {a a' : List Term} (ha : a ∈ assignments parents)
    (ha' : a' ∈ assignments parents) :
    (ofRow owner value a).same (ofRow owner value' a') = true ↔ value = value' ∧ a = a' := by
  rw [mem_assignments] at ha ha'
  constructor
  · intro h
    obtain ⟨hhypotheses, hevidence⟩ := same_iff_perm.1 h
    refine ⟨?_, eq_of_perm_of_map_id hevidence (ha.trans ha'.symm) (ha' ▸ hnodup)⟩
    have heq := List.singleton_perm_singleton.1 hhypotheses
    exact congrArg Term.value heq
  · rintro ⟨rfl, rfl⟩
    exact same_refl _

end Expression

namespace Table

open Expression (ofRow)

variable {owner : String} {parents : List String}

/-- The entries of a table, by the value of the owner and the assignment of its
parents. -/
abbrev Entries := Bool → List Term → Option Decimal

/-- The table with these entries. -/
def ofEntries (owner : String) (parents : List String) (entries : Entries) : Table :=
  ⟨owner, (assignments parents).flatMap fun a =>
    [true, false].map fun value => ⟨ofRow owner value a, entries value a⟩⟩

/-- The two rows of an assignment are both unfilled, or filled with probabilities
that add up to one. -/
inductive Complementary : Option Decimal → Option Decimal → Prop where
  | unfilled : Complementary none none
  | filled {x y : Decimal} (hx : x.InUnit) (hy : y.InUnit) (hsum : x.toRat + y.toRat = 1) :
      Complementary (some x) (some y)

/-- The table has the rows of `owner` with these parents, and the two rows of
each assignment belong together. -/
def Paired (t : Table) (owner : String) (parents : List String) : Prop :=
  ∃ entries : Entries, t = ofEntries owner parents entries ∧
    ∀ a ∈ assignments parents, Complementary (entries true a) (entries false a)

theorem Complementary.symm {x y : Option Decimal} (h : Complementary x y) :
    Complementary y x := by
  cases h with
  | unfilled => exact .unfilled
  | filled hx hy hsum => exact .filled hy hx (by rw [add_comm]; exact hsum)

theorem complementary_complement {x : Decimal} (h : x.InUnit) :
    Complementary (some x) (some x.complement) :=
  .filled h (Decimal.inUnit_complement x) (by rw [Decimal.toRat_complement h]; ring)

theorem mem_rows_ofEntries {entries : Entries} {row : Row} :
    row ∈ (ofEntries owner parents entries).rows ↔
      ∃ a ∈ assignments parents, ∃ value, row = ⟨ofRow owner value a, entries value a⟩ := by
  simp only [ofEntries, List.mem_flatMap, List.mem_map]
  constructor
  · rintro ⟨a, ha, value, -, rfl⟩
    exact ⟨a, ha, value, rfl⟩
  · rintro ⟨a, ha, value, rfl⟩
    exact ⟨a, ha, value, by cases value <;> simp, rfl⟩

/-- A new table is unfilled. -/
theorem paired_forParents (owner : String) (parents : List String) :
    (forParents owner parents).Paired owner parents := by
  refine ⟨fun _ _ => none, ?_, fun _ _ => .unfilled⟩
  unfold forParents ofEntries expressionsFor
  rw [List.map_flatMap]
  rfl

/-! ## Looking up a row -/

/-- Looking up the expression of a row finds that row. -/
theorem row?_ofRow {entries : Entries} (hnodup : parents.Nodup) {a : List Term}
    (ha : a ∈ assignments parents) (value : Bool) :
    (ofEntries owner parents entries).row? (ofRow owner value a) =
      some ⟨ofRow owner value a, entries value a⟩ := by
  cases hrow : (ofEntries owner parents entries).row? (ofRow owner value a) with
  | none =>
    have hmem : (⟨ofRow owner value a, entries value a⟩ : Row) ∈
        (ofEntries owner parents entries).rows := mem_rows_ofEntries.2 ⟨a, ha, value, rfl⟩
    exact absurd (Expression.same_refl _) (List.find?_eq_none.1 hrow _ hmem)
  | some row =>
    obtain ⟨a', ha', value', rfl⟩ := mem_rows_ofEntries.1 (List.mem_of_find?_eq_some hrow)
    have hsame : (ofRow owner value' a').same (ofRow owner value a) = true := by
      have := List.find?_some hrow
      exact this
    obtain ⟨rfl, rfl⟩ := (Expression.ofRow_same_iff hnodup ha' ha).1 hsame
    rfl

theorem get?_ofRow {entries : Entries} (hnodup : parents.Nodup) {a : List Term}
    (ha : a ∈ assignments parents) (value : Bool) :
    (ofEntries owner parents entries).get? (ofRow owner value a) = .ok (entries value a) := by
  unfold get?
  rw [row?_ofRow hnodup ha]

/-- The table has the expressions of its rows, whatever the order of their
evidence. -/
theorem contains_ofEntries {entries : Entries} {e : Expression} :
    (ofEntries owner parents entries).contains e = true ↔ e.IsRowOf owner parents := by
  unfold contains row?
  rw [List.find?_isSome]
  constructor
  · rintro ⟨row, hmem, hsame⟩
    obtain ⟨a, ha, value, rfl⟩ := mem_rows_ofEntries.1 hmem
    exact Expression.isRowOf_of_same ha hsame
  · intro h
    obtain ⟨a, ha, value, hsame⟩ := h.exists_same
    exact ⟨_, mem_rows_ofEntries.2 ⟨a, ha, value, rfl⟩, hsame⟩

/-- Expressions that are the same are looked up alike. -/
theorem row?_congr (t : Table) {e e' : Expression} (h : e.same e' = true) :
    t.row? e = t.row? e' := by
  unfold row?
  congr 1
  funext row
  exact Expression.same_congr h row.expression

theorem get?_ok_congr {t : Table} {e e' : Expression} (h : e.same e' = true) {x : Option Decimal}
    (hx : t.get? e = .ok x) : t.get? e' = .ok x := by
  unfold get? at hx ⊢
  rw [← row?_congr t h]
  cases hrow : t.row? e with
  | none =>
    rw [hrow] at hx
    cases hx
  | some row =>
    rw [hrow] at hx
    exact hx

theorem get?_of_same {entries : Entries} (hnodup : parents.Nodup) {a : List Term} {value : Bool}
    {e : Expression} (ha : a ∈ assignments parents) (h : (ofRow owner value a).same e = true) :
    (ofEntries owner parents entries).get? e = .ok (entries value a) :=
  get?_ok_congr h (get?_ofRow hnodup ha value)

/-- What is no row is refused. -/
theorem get?_of_not_isRowOf {entries : Entries} {e : Expression} (h : ¬e.IsRowOf owner parents) :
    (ofEntries owner parents entries).get? e = .error (.foreignRow e.toQuery owner) := by
  have hnone : (ofEntries owner parents entries).row? e = none := by
    rw [← Option.not_isSome_iff_eq_none]
    intro hsome
    exact h (contains_ofEntries.1 hsome)
  unfold get?
  rw [hnone]
  rfl

/-- A complete table has as many filled rows as rows. -/
theorem isComplete_iff_size (t : Table) : t.isComplete = true ↔ t.size = t.expressions.length := by
  unfold isComplete size expressions
  rw [List.length_map, List.countP_eq_length, List.all_eq_true]

theorem isComplete_ofEntries {entries : Entries} :
    (ofEntries owner parents entries).isComplete = true ↔
      ∀ a ∈ assignments parents, ∀ value, (entries value a).isSome = true := by
  unfold isComplete
  rw [List.all_eq_true]
  constructor
  · intro h a ha value
    exact h _ (mem_rows_ofEntries.2 ⟨a, ha, value, rfl⟩)
  · intro h row hrow
    obtain ⟨a, ha, value, rfl⟩ := mem_rows_ofEntries.1 hrow
    exact h a ha value

/-- A table is complete if looking up its rows always finds an entry. -/
theorem isComplete_iff_get? {entries : Entries} (hnodup : parents.Nodup) :
    (ofEntries owner parents entries).isComplete = true ↔
      ∀ e, (ofEntries owner parents entries).get? e ≠ .ok none := by
  rw [isComplete_ofEntries]
  constructor
  · intro h e hnone
    by_cases hrow : e.IsRowOf owner parents
    · obtain ⟨a, ha, value, hsame⟩ := hrow.exists_same
      rw [get?_of_same hnodup ha hsame, Except.ok.injEq] at hnone
      have hfilled := h a ha value
      rw [hnone] at hfilled
      cases hfilled
    · rw [get?_of_not_isRowOf hrow] at hnone
      cases hnone
  · intro h a ha value
    have hfilled := h (ofRow owner value a)
    rw [get?_ofRow hnodup ha] at hfilled
    exact Option.isSome_iff_ne_none.2 fun hnone => hfilled (congrArg Except.ok hnone)

/-! ## Filling a row -/

theorem ofEntries_congr {entries entries' : Entries}
    (h : ∀ a ∈ assignments parents, ∀ value, entries value a = entries' value a) :
    ofEntries owner parents entries = ofEntries owner parents entries' := by
  unfold ofEntries
  congr 1
  refine List.flatMap_congr fun a ha => ?_
  simp only [h a ha]

theorem fill_ofEntries (entries : Entries) (e : Expression) (entry : Decimal) :
    (ofEntries owner parents entries).fill e entry =
      ofEntries owner parents fun value a =>
        if (ofRow owner value a).same e then some entry else entries value a := by
  unfold fill ofEntries
  simp only [List.map_flatMap, List.map_map]
  congr 1
  congr 1
  funext a
  refine List.map_congr_left fun value _ => ?_
  simp only [Function.comp_apply]
  split <;> rfl

/-- The counterpart of an expression that names a row names the other row of
the same assignment. -/
theorem exists_counterpart {a : List Term} {value : Bool} {e : Expression}
    (hnodup : parents.Nodup) (howner : owner ∉ parents) (ha : a ∈ assignments parents)
    (hsame : (ofRow owner value a).same e = true) :
    ∃ c, e.withHypothesis owner (!value) = .ok c ∧ (ofRow owner (!value) a).same c = true := by
  obtain ⟨⟨v, hv⟩, hids⟩ := Expression.isRowOf_of_same ha hsame
  have hcounterpart := Expression.withHypothesis_eq hv (hids.nodup_iff.2 hnodup)
    (fun hmem => howner (hids.subset hmem)) (!value)
  exact ⟨_, hcounterpart, Expression.same_iff_perm.2
    ⟨List.Perm.refl _, (Expression.same_iff_perm.1 hsame).2⟩⟩

/-- The entries after one assignment was given `entry` for a value of the owner,
and so its complement for the other value. -/
def Entries.put (entries : Entries) (value : Bool) (a : List Term) (entry : Decimal) : Entries :=
  fun value' a' =>
    if a' = a then some (if value' = value then entry else entry.complement) else entries value' a'

/-- A row can be filled with any probability, and its counterpart with it. -/
theorem putDecimal_ofEntries {entries : Entries} {a : List Term} {value : Bool} {e : Expression}
    {entry : Decimal} (hnodup : parents.Nodup) (howner : owner ∉ parents)
    (ha : a ∈ assignments parents) (hsame : (ofRow owner value a).same e = true)
    (hunit : entry.InUnit) :
    (ofEntries owner parents entries).putDecimal e entry =
      .ok (ofEntries owner parents (entries.put value a entry)) := by
  obtain ⟨c, hc, hsame'⟩ := exists_counterpart hnodup howner ha hsame
  have hrow := Expression.isRowOf_of_same ha hsame
  have hvalue := Expression.hypothesis?_of_same hsame
  -- the row that was named, and its counterpart
  have hnamed : ∀ a' ∈ assignments parents, ∀ v,
      (ofRow owner v a').same e = true ↔ v = value ∧ a' = a := by
    intro a' ha' v
    rw [← Expression.same_congr hsame]
    exact Expression.ofRow_same_iff hnodup ha' ha
  have hother : ∀ a' ∈ assignments parents, ∀ v,
      (ofRow owner v a').same c = true ↔ v = (!value) ∧ a' = a := by
    intro a' ha' v
    rw [← Expression.same_congr hsame']
    exact Expression.ofRow_same_iff hnodup ha' ha
  have hfilled : ((ofEntries owner parents entries).fill e entry).fill c entry.complement =
      ofEntries owner parents (entries.put value a entry) := by
    rw [fill_ofEntries, fill_ofEntries]
    refine ofEntries_congr fun a' ha' v => ?_
    simp only [hnamed a' ha', hother a' ha', Entries.put]
    by_cases heq : a' = a
    · cases v <;> cases value <;> simp [heq]
    · simp [heq]
  unfold putDecimal
  rw [if_pos hunit, if_pos (contains_ofEntries.2 hrow)]
  show (match e.hypothesis? owner with
    | none => _
    | some value => _) = _
  rw [hvalue]
  simp only [ofEntries] at hc hfilled ⊢
  rw [hc]
  exact congrArg Except.ok hfilled

/-- Only a row can be filled, and only with a probability. -/
theorem isRowOf_of_putDecimal {entries : Entries} {t : Table} {e : Expression} {entry : Decimal}
    (h : (ofEntries owner parents entries).putDecimal e entry = .ok t) :
    entry.InUnit ∧ e.IsRowOf owner parents := by
  unfold putDecimal at h
  split at h
  · rename_i hunit
    split at h
    · rename_i hcontains
      exact ⟨hunit, contains_ofEntries.1 hcontains⟩
    · cases h
  · cases h

/-- Filling a row and its counterpart keeps the rows of each assignment
together. -/
theorem Paired.putDecimal {t t' : Table} {e : Expression} {entry : Decimal}
    (h : t.Paired owner parents) (hnodup : parents.Nodup) (howner : owner ∉ parents)
    (hput : t.putDecimal e entry = .ok t') : t'.Paired owner parents := by
  obtain ⟨entries, rfl, hpaired⟩ := h
  obtain ⟨hunit, hrow⟩ := isRowOf_of_putDecimal hput
  obtain ⟨a, ha, value, hsame⟩ := hrow.exists_same
  rw [putDecimal_ofEntries hnodup howner ha hsame hunit] at hput
  refine ⟨_, (Except.ok.inj hput).symm, fun a' ha' => ?_⟩
  unfold Entries.put
  by_cases heq : a' = a
  · cases value with
    | true => simpa [heq] using complementary_complement hunit
    | false => simpa [heq] using (complementary_complement hunit).symm
  · simpa [heq] using hpaired a' ha'

/-! ## Selecting a row -/

/-- The assignment of the parents that agrees with a total assignment. -/
theorem filter_assignments {f : Filter} {value : String → Bool} {ids : List String}
    (h : ∀ id ∈ ids, f.value? id = some (value id)) :
    ((assignments ids).filter fun a => a.all f.admits) = [ids.map fun id => ⟨id, value id⟩] := by
  induction ids with
  | nil => rfl
  | cons id ids ih =>
    have ih := ih fun id' hid' => h id' (List.mem_cons_of_mem _ hid')
    have hid := h id List.mem_cons_self
    simp only [assignments, List.filter_flatMap, List.filter_map, Function.comp_def,
      List.all_cons, Filter.admits, hid]
    cases hvalue : value id with
    | true => simp [ih, hvalue]
    | false => simp [ih, hvalue]

/-- A filter that fixes the owner and its parents selects one row. -/
theorem select_ofEntries {entries : Entries} {f : Filter} {value : String → Bool}
    (howner : f.value? owner = some (value owner))
    (hparents : ∀ id ∈ parents, f.value? id = some (value id)) :
    (ofEntries owner parents entries).select f =
      [⟨ofRow owner (value owner) (parents.map fun id => ⟨id, value id⟩),
        entries (value owner) (parents.map fun id => ⟨id, value id⟩)⟩] := by
  have haccepts : ∀ (v : Bool) (a : List Term), f.accepts (ofRow owner v a) =
      (value owner == v && a.all f.admits) := by
    intro v a
    simp [Filter.accepts_eq, ofRow, Query.terms, Filter.admits, howner]
  have hpair : ∀ a, (([true, false].map fun v => (⟨ofRow owner v a, entries v a⟩ : Row)).filter
      fun row => f.accepts row.expression) =
      if a.all f.admits then [⟨ofRow owner (value owner) a, entries (value owner) a⟩] else [] := by
    intro a
    cases hvalue : value owner with
    | true => simp [haccepts, hvalue, List.filter_cons]
    | false => simp [haccepts, hvalue, List.filter_cons]
  unfold select ofEntries
  rw [List.filter_flatMap]
  simp only [hpair]
  rw [← flatMap_filter (fun a : List Term => a.all f.admits), filter_assignments hparents,
    List.flatMap_singleton]

end Table

end BeliefNet
