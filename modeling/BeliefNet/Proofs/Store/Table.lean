import Mathlib
import BeliefNet.Store.Table
import BeliefNet.Proofs.Table.Generation

/-!
# The table that is stored

A stored table stands for a list of rows: the required ones, each with what the map
has for it (`TableStore.view`). Every function of the stored table is that of the
rows, and an insertion is one row filled (`TableStore.view_insert`). The two
insertions of a put come behind its last check, so a put that is refused has written
nothing (`TableStore.putDecimal_ends`).

In a stored table all keys are required rows, and the number of keys is the number of
filled rows (`TableStore.Sound`); no two required rows are one key. So two equal
lengths mean that every required row is filled, and nothing else is
(`TableStore.Sound.isComplete_iff`).
-/

namespace BeliefNet

namespace Writing

variable {σ α β : Type}

theorem apply_bind (w : Writing σ α) (g : α → Writing σ β) (s : σ) :
    (w >>= g).apply s =
      match w.apply s with
      | (.error e, s) => (.error e, s)
      | (.ok a, s) => (g a).apply s := by
  unfold apply
  rw [ExceptT.run_bind, StateT.run_bind]
  generalize (ExceptT.run w).run s = ending
  obtain ⟨found, s'⟩ := ending
  cases found with
  | error e => rfl
  | ok a => rfl

theorem apply_get_bind (g : σ → Writing σ β) (s : σ) : (get >>= g).apply s = (g s).apply s := rfl

theorem apply_check (f : σ → Except Error α) (s : σ) : (check f).apply s = (f s, s) := by
  unfold check
  rw [apply_get_bind]
  cases f s with
  | error e => rfl
  | ok a => rfl

theorem apply_check_bind (f : σ → Except Error α) (g : α → Writing σ β) (s : σ) :
    (check f >>= g).apply s =
      match f s with
      | .error e => (.error e, s)
      | .ok a => (g a).apply s := by
  rw [apply_bind, apply_check]
  cases f s with
  | error e => rfl
  | ok a => rfl

end Writing

namespace TableStore

open Writing

variable {t : TableStore} {owner : String} {parents : List String} {e e' : Expression}
  {entry : Decimal}

/-! ## Rows with their entries -/

/-- The table as a list of rows. -/
def view (t : TableStore) : Table :=
  ⟨t.owner, t.expressions.map fun e => ⟨e, t.entries[Key.mk e]?⟩⟩

@[simp]
theorem owner_view (t : TableStore) : t.view.owner = t.owner := rfl

@[simp]
theorem expressions_view (t : TableStore) : t.view.expressions = t.expressions := by
  unfold view Table.expressions
  rw [List.map_map]
  exact List.map_id _

/-- A row is looked up by its meaning. -/
theorem getElem?_congr (t : TableStore) (h : e.same e' = true) :
    t.entries[Key.mk e]? = t.entries[Key.mk e']? :=
  Std.HashMap.getElem?_congr h

theorem contains_congr (t : TableStore) (h : e.same e' = true) : t.contains e = t.contains e' := by
  unfold contains
  simp only [Expression.same_congr h]

theorem getElem?_insert (t : TableStore) (e e' : Expression) (entry : Decimal) :
    (t.insert e entry).entries[Key.mk e']? =
      if e.same e' then some entry else t.entries[Key.mk e']? :=
  Std.HashMap.getElem?_insert

/-- An insertion fills a row. -/
theorem view_insert (t : TableStore) (e : Expression) (entry : Decimal) :
    (t.insert e entry).view = t.view.fill e entry := by
  unfold view Table.fill
  rw [List.map_map]
  refine congrArg (Table.mk t.owner) (List.map_congr_left fun r _ => ?_)
  show Row.mk r (t.insert e entry).entries[Key.mk r]? = if r.same e then _ else _
  rw [getElem?_insert, Expression.same_comm]
  split
  · rfl
  · rfl

theorem contains_view (t : TableStore) (e : Expression) : t.view.contains e = t.contains e := by
  unfold Table.contains Table.row? contains view
  rw [Bool.eq_iff_iff, List.find?_isSome, List.any_eq_true]
  simp only [List.mem_map]
  constructor
  · rintro ⟨_, ⟨r, hr, rfl⟩, hsame⟩
    exact ⟨r, hr, hsame⟩
  · rintro ⟨r, hr, hsame⟩
    exact ⟨_, ⟨r, hr, rfl⟩, hsame⟩

theorem get?_view (t : TableStore) (e : Expression) : t.view.get? e = t.get? e := by
  unfold get? checkRow Table.get?
  cases hrow : t.view.row? e with
  | none =>
    have hcontains : t.contains e = false := by
      rw [← contains_view, Table.contains, hrow]
      rfl
    rw [hcontains]
    rfl
  | some row =>
    have hcontains : t.contains e = true := by
      rw [← contains_view, Table.contains, hrow]
      rfl
    obtain ⟨r, -, rfl⟩ := List.mem_map.1 (List.mem_of_find?_eq_some hrow)
    have hsame : r.same e = true := by simpa using List.find?_some hrow
    rw [hcontains]
    exact congrArg Except.ok (t.getElem?_congr hsame)

theorem select_view (t : TableStore) (f : Filter) :
    t.view.select f = (t.select f).map fun e => ⟨e, t.entries[Key.mk e]?⟩ := by
  unfold view Table.select select
  rw [List.filter_map]
  rfl

/-! ## Tables that start anew -/

theorem rows_eq (owner : String) (parents : List String) :
    rows owner parents = Table.expressionsFor owner parents := by
  unfold rows Table.expressionsFor
  rw [twoPow_eq, assignments_eq_patterns, List.flatMap_map]

/-- The rows of a table that starts anew are counted off, and none is filled. -/
theorem view_regenerate (t : TableStore) (parents : List String) :
    (t.regenerate parents).view = Table.forParents t.owner parents := by
  unfold view regenerate Table.forParents
  rw [rows_eq]
  refine congrArg (Table.mk t.owner) (List.map_congr_left fun r _ => ?_)
  simp

theorem view_new (owner : String) : (new owner).view = Table.forParents owner [] :=
  view_regenerate _ _

/-! ## Filling rows -/

/-- How a put ends, beside what it comes to for the rows: it is refused and has
written nothing, or it has written both entries. -/
inductive PutEnds (t : TableStore) :
    Except Error Unit × TableStore → Except Error Table → Prop where
  | refused (error : Error) : PutEnds t (.error error, t) (.error error)
  | filled {e counterpart : Expression} {value : Bool} (entry : Decimal)
      (hrow : t.contains e = true) (hvalue : e.hypothesis? t.owner = some value)
      (hcounterpart : e.withHypothesis t.owner (!value) = .ok counterpart) :
      PutEnds t (.ok (), (t.insert e entry).insert counterpart entry.complement)
        (.ok ((t.insert e entry).insert counterpart entry.complement).view)

theorem putDecimal_ends (t : TableStore) (e : Expression) (entry : Decimal) :
    t.PutEnds ((putDecimal e entry).apply t) (t.view.putDecimal e entry) := by
  unfold putDecimal Table.putDecimal
  by_cases hunit : entry.InUnit
  swap
  · rw [if_neg hunit, if_pos hunit]
    exact .refused _
  rw [if_pos hunit, if_neg (not_not.2 hunit), contains_view]
  show t.PutEnds ((check (·.checkRow e) >>= _).apply t) _
  rw [apply_check_bind]
  unfold checkRow
  by_cases hrow : t.contains e = true
  swap
  · rw [if_neg hrow, if_neg hrow]
    exact .refused _
  rw [if_pos hrow, if_pos hrow]
  show t.PutEnds ((check (·.ownValue e) >>= _).apply t) _
  rw [apply_check_bind, owner_view]
  unfold ownValue
  cases hvalue : e.hypothesis? t.owner with
  | none => exact .refused _
  | some value =>
    show t.PutEnds ((check (fun _ => e.withHypothesis t.owner (!value)) >>= _).apply t)
      (e.withHypothesis t.owner (!value) >>= _)
    rw [apply_check_bind]
    cases hcounterpart : e.withHypothesis t.owner (!value) with
    | error _ => exact .refused _
    | ok counterpart =>
      have hends := PutEnds.filled entry hrow hvalue hcounterpart
      rw [view_insert, view_insert] at hends
      exact hends

theorem put_ends (t : TableStore) (e : Expression) (entry : Binary64) :
    t.PutEnds ((put e entry).apply t) (t.view.put e entry) := by
  unfold put Table.put
  by_cases hunit : entry.InUnit
  swap
  · rw [if_neg hunit, if_pos hunit]
    exact .refused _
  rw [if_pos hunit, if_neg (not_not.2 hunit)]
  cases Decimal.parse? entry.text with
  | none => exact .refused _
  | some decimal => exact putDecimal_ends t e decimal

/-! ## Counting -/

/-- One of the rows is the same as this expression, and no two are the same. So a
property that is given to this row besides counts once more, if the row did not have
it. -/
theorem countP_same_or {rows : List Expression} {p : Expression → Bool}
    (hp : ∀ r r' : Expression, r.same r' = true → p r = p r')
    (hrows : rows.Pairwise fun r r' => r.same r' = false)
    (he : rows.any (·.same e) = true) :
    rows.countP (fun r => e.same r || p r) = rows.countP p + if p e then 0 else 1 := by
  induction rows with
  | nil => cases he
  | cons r rows ih =>
    obtain ⟨hr, hrows⟩ := List.pairwise_cons.1 hrows
    rw [List.countP_cons, List.countP_cons]
    cases hsame : r.same e with
    | true =>
      -- none of the other rows is the same
      have hothers : rows.countP (fun r' => e.same r' || p r') = rows.countP p := by
        refine List.countP_congr fun r' hr' => ?_
        have hdiffer : e.same r' = false := by
          rw [Expression.same_comm, ← Expression.same_congr hsame, Expression.same_comm]
          exact hr r' hr'
        rw [hdiffer, Bool.false_or]
      rw [hothers, Expression.same_comm, hsame, ← hp r e hsame]
      cases p r with
      | true => rfl
      | false => rfl
    | false =>
      rw [List.any_cons, hsame, Bool.false_or] at he
      rw [ih hrows he, Expression.same_comm, hsame, Bool.false_or]
      omega

theorem size_view (t : TableStore) :
    t.view.size = t.expressions.countP fun r => (t.entries[Key.mk r]?).isSome := by
  unfold view Table.size
  rw [List.countP_map]
  rfl

/-- An insertion fills one row more, unless the row was filled before. -/
theorem size_view_insert (hrows : t.expressions.Pairwise fun r r' => r.same r' = false)
    (he : t.contains e = true) (entry : Decimal) :
    (t.insert e entry).view.size =
      if Key.mk e ∈ t.entries then t.view.size else t.view.size + 1 := by
  have hfilled : ∀ r, ((t.insert e entry).entries[Key.mk r]?).isSome =
      (e.same r || (t.entries[Key.mk r]?).isSome) := by
    intro r
    rw [getElem?_insert]
    cases e.same r with
    | true => rfl
    | false => rfl
  have hcount := countP_same_or (p := fun r => (t.entries[Key.mk r]?).isSome)
    (fun r r' hsame => congrArg Option.isSome (t.getElem?_congr hsame)) hrows he
  rw [size_view, size_view]
  simp only [hfilled]
  refine hcount.trans ?_
  by_cases hmem : Key.mk e ∈ t.entries
  · simp [hmem]
  · simp [hmem]

/-- What holds of the stored table of `owner` with these parents. -/
structure Sound (t : TableStore) (owner : String) (parents : List String) : Prop where
  owner_eq : t.owner = owner
  rows_eq : t.expressions = Table.expressionsFor owner parents
  /-- Every key is a required row. -/
  keys : ∀ k ∈ t.entries, t.contains k.expression = true
  /-- There are as many keys as filled rows. -/
  size_eq : t.size = t.view.size

theorem sound_regenerate (t : TableStore) (parents : List String) :
    (t.regenerate parents).Sound t.owner parents where
  owner_eq := rfl
  rows_eq := rows_eq _ _
  keys k hk := by simp [regenerate] at hk
  size_eq := by
    rw [size_view]
    simp [regenerate, size]

namespace Sound

theorem insert (h : t.Sound owner parents) (hnodup : parents.Nodup) (he : t.contains e = true)
    (entry : Decimal) : (t.insert e entry).Sound owner parents where
  owner_eq := h.owner_eq
  rows_eq := h.rows_eq
  keys k hk := by
    rcases Std.HashMap.mem_insert.1 hk with hkey | hk
    · exact (contains_congr t hkey).symm.trans he
    · exact h.keys k hk
  size_eq := by
    have hrows : t.expressions.Pairwise fun r r' => r.same r' = false := by
      rw [h.rows_eq]
      exact Table.pairwise_expressionsFor hnodup
    rw [size_view_insert hrows he, ← h.size_eq]
    exact Std.HashMap.size_insert

/-- The rows of both entries of a put are required. -/
theorem put {found : Except Error Unit × TableStore} {table : Except Error Table}
    (h : t.Sound owner parents) (hnodup : parents.Nodup) (howner : owner ∉ parents)
    (hends : t.PutEnds found table) : found.2.Sound owner parents := by
  cases hends with
  | refused error => exact h
  | @filled e counterpart value entry hrow hvalue hcounterpart =>
    have hinserted := h.insert hnodup hrow entry
    refine hinserted.insert hnodup ?_ _
    obtain ⟨r, hr, hsame⟩ := List.any_eq_true.1 hrow
    rw [h.rows_eq] at hr
    obtain ⟨own, a, ha, rfl⟩ := Table.mem_expressionsFor.1 hr
    have hown := Expression.hypothesis?_of_same hsame
    rw [h.owner_eq] at hvalue hcounterpart
    obtain rfl : value = own := Option.some.inj (hvalue.symm.trans hown)
    obtain ⟨c, hc, hsame'⟩ :=
      Table.exists_counterpart hnodup howner (mem_assignments.2 ha) hsame
    obtain rfl : counterpart = c := Except.ok.inj (hcounterpart.symm.trans hc)
    refine List.any_eq_true.2 ⟨_, ?_, hsame'⟩
    show _ ∈ t.expressions
    rw [h.rows_eq]
    exact Table.mem_expressionsFor.2 ⟨!value, a, ha, rfl⟩

/-- As many keys as required rows are as many filled rows. -/
theorem isComplete_view (h : t.Sound owner parents) : t.view.isComplete = t.isComplete := by
  rw [Bool.eq_iff_iff, Table.isComplete_iff_size, ← h.size_eq, expressions_view]
  unfold isComplete size
  rw [beq_iff_eq]

/-- The table is complete, by two lengths, if and only if its keys are exactly the
required rows. -/
theorem isComplete_iff (h : t.Sound owner parents) :
    t.isComplete = true ↔ ∀ e, Key.mk e ∈ t.entries ↔ t.contains e = true := by
  rw [← h.isComplete_view]
  unfold view Table.isComplete
  rw [List.all_map, List.all_eq_true]
  constructor
  · intro hfilled e
    refine ⟨h.keys ⟨e⟩, fun he => ?_⟩
    obtain ⟨r, hr, hsame⟩ := List.any_eq_true.1 he
    have hr' := hfilled r hr
    simp only [Function.comp_apply, t.getElem?_congr hsame] at hr'
    simpa using hr'
  · intro hkeys r hr
    have hrow : t.contains r = true := List.any_eq_true.2 ⟨r, hr, r.same_refl⟩
    simpa using (hkeys r).2 hrow

end Sound

end TableStore

end BeliefNet
