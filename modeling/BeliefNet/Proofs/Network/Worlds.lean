import Mathlib
import BeliefNet.Inference
import BeliefNet.Proofs.Network.WellFormed

/-!
# The distribution that a network stands for

A world is a total assignment of the variables. Its weight is the product of
the entries stored for it, and the probability of some terms is the weight of
the worlds that agree with them, all in exact numbers (`Network.weight`,
`Network.prob`). For a well-formed network whose tables are complete

* every world has an entry in every table (`Complete.exists_entry`);
* the weights add up to one (`Complete.sum_weight`): a variable without
  children is summed out first, then the rest.
-/

namespace BeliefNet

/-- A total assignment: the set of the variables that are true. -/
abbrev World := Finset String

namespace World

/-- The value of a variable. -/
def value (w : World) (id : String) : Bool := decide (id ∈ w)

/-- The world gives the variables of some terms their values. -/
def Agrees (w : World) (terms : List Term) : Prop := ∀ t ∈ terms, value w t.id = t.value

instance (w : World) (terms : List Term) : Decidable (Agrees w terms) :=
  inferInstanceAs (Decidable (∀ t ∈ terms, value w t.id = t.value))

theorem value_insert_self (w : World) (id : String) : value (insert id w) id = true := by
  simp [value]

theorem value_insert_of_ne (w : World) {id other : String} (h : other ≠ id) :
    value (insert id w) other = value w other := by
  simp [value, h]

end World

namespace Network

/-- The ids of the variables. -/
def ids (n : Network) : Finset String := (n.nodes.map (·.id)).toFinset

/-- The row of a variable for its own value and the values of its parents. -/
def rowIn (n : Network) (w : World) (v : Variable) : Expression :=
  Expression.ofRow v.id (World.value w v.id)
    ((n.parents v.id).map fun id => ⟨id, World.value w id⟩)

/-- The entry that is stored for that row. -/
def stored (n : Network) (w : World) (v : Variable) : ℚ :=
  match v.table.get? (n.rowIn w v) with
  | .ok (some entry) => entry.toRat
  | _ => 0

/-- The probability of a world. -/
def weight (n : Network) (w : World) : ℚ := (n.nodes.map fun v => n.stored w v).prod

/-- The probability of some terms: that of all worlds which agree with them. -/
def prob (n : Network) (terms : List Term) : ℚ :=
  ∑ w ∈ n.ids.powerset with World.Agrees w terms, n.weight w

/-- A well-formed network with complete tables. -/
structure Complete (n : Network) : Prop extends WellFormed n where
  ready : n.isReady = true

theorem Reachable.complete {n : Network} (h : n.Reachable) (hready : n.isReady = true) :
    n.Complete := ⟨h.wellFormed, hready⟩

variable {n : Network} {w w' : World} {v : Variable} {terms terms' : List Term} {id : String}

theorem mem_ids : id ∈ n.ids ↔ n.contains id = true := by
  rw [contains_iff, ids, List.mem_toFinset]

theorem mem_ids_of_mem (h : v ∈ n.nodes) : v.id ∈ n.ids :=
  List.mem_toFinset.2 (List.mem_map_of_mem h)

/-- What is stored for a variable depends on it and its parents only. -/
theorem rowIn_congr (hself : World.value w v.id = World.value w' v.id)
    (hparents : ∀ id ∈ n.parents v.id, World.value w id = World.value w' id) :
    n.rowIn w v = n.rowIn w' v := by
  unfold rowIn
  rw [hself]
  congr 1
  refine List.map_congr_left fun id hid => ?_
  rw [hparents id hid]

theorem stored_congr (hself : World.value w v.id = World.value w' v.id)
    (hparents : ∀ id ∈ n.parents v.id, World.value w id = World.value w' id) :
    n.stored w v = n.stored w' v := by
  unfold stored
  rw [rowIn_congr hself hparents]

theorem mem_assignments_parents (n : Network) (w : World) (id : String) :
    (n.parents id).map (fun id => (⟨id, World.value w id⟩ : Term)) ∈
      assignments (n.parents id) := by
  rw [mem_assignments, List.map_map]
  exact List.map_id _

namespace Complete

/-- The two entries that are stored for an assignment of the parents. -/
theorem exists_entries (h : n.Complete) (hv : v ∈ n.nodes) {a : List Term}
    (ha : a ∈ assignments (n.parents v.id)) :
    ∃ x y : Decimal, v.table.get? (Expression.ofRow v.id true a) = .ok (some x) ∧
      v.table.get? (Expression.ofRow v.id false a) = .ok (some y) ∧ x.InUnit ∧ y.InUnit ∧
      x.toRat + y.toRat = 1 := by
  obtain ⟨entries, htable, hpaired⟩ := h.paired v hv
  have hnodup := h.nodup_parents v.id
  have hfilled : ∀ value, (entries value a).isSome = true := by
    intro value
    have hcomplete : v.table.isComplete = true := List.all_eq_true.1 h.ready v hv
    rw [htable] at hcomplete
    exact List.all_eq_true.1 hcomplete _ (Table.mem_rows_ofEntries.2 ⟨a, ha, value, rfl⟩)
  rw [htable, Table.get?_ofRow hnodup ha, Table.get?_ofRow hnodup ha]
  have hpair := hpaired a ha
  cases hx : entries true a with
  | none =>
    have := hfilled true
    simp [hx] at this
  | some x =>
    cases hy : entries false a with
    | none =>
      have := hfilled false
      simp [hy] at this
    | some y =>
      rw [hx, hy] at hpair
      cases hpair with
      | filled hx hy hsum => exact ⟨x, y, rfl, rfl, hx, hy, hsum⟩

/-- Every world has an entry in every table. -/
theorem exists_entry (h : n.Complete) (hv : v ∈ n.nodes) (w : World) :
    ∃ entry : Decimal, v.table.get? (n.rowIn w v) = .ok (some entry) ∧ entry.InUnit ∧
      n.stored w v = entry.toRat := by
  obtain ⟨x, y, hx, hy, hx', hy', -⟩ :=
    h.exists_entries hv (mem_assignments_parents n w v.id)
  unfold stored rowIn
  cases World.value w v.id with
  | true => exact ⟨x, hx, hx', by rw [hx]⟩
  | false => exact ⟨y, hy, hy', by rw [hy]⟩

theorem stored_nonneg (h : n.Complete) (hv : v ∈ n.nodes) (w : World) : 0 ≤ n.stored w v := by
  obtain ⟨entry, -, hunit, hstored⟩ := h.exists_entry hv w
  rw [hstored]
  exact hunit.toRat_nonneg

/-- The entries for the two values of a variable add up to one. -/
theorem stored_insert_add (h : n.Complete) (hv : v ∈ n.nodes) (hw : v.id ∉ w) :
    n.stored w v + n.stored (insert v.id w) v = 1 := by
  obtain ⟨x, y, hx, hy, -, -, hsum⟩ := h.exists_entries hv (mem_assignments_parents n w v.id)
  -- no variable is its own parent, so both rows are about the same assignment
  have hrow : n.rowIn w v = Expression.ofRow v.id false
      ((n.parents v.id).map fun id => ⟨id, World.value w id⟩) := by
    unfold rowIn
    rw [show World.value w v.id = false by simpa [World.value] using hw]
  have hrow' : n.rowIn (insert v.id w) v = Expression.ofRow v.id true
      ((n.parents v.id).map fun id => ⟨id, World.value w id⟩) := by
    unfold rowIn
    rw [World.value_insert_self]
    congr 1
    refine List.map_congr_left fun id hid => ?_
    rw [World.value_insert_of_ne w]
    rintro rfl
    exact h.not_mem_parents v.id hid
  unfold stored
  rw [hrow, hrow', hx, hy, add_comm]
  exact hsum

theorem weight_nonneg (h : n.Complete) (w : World) : 0 ≤ n.weight w := by
  refine List.prod_nonneg fun x hx => ?_
  obtain ⟨v, hv, rfl⟩ := List.mem_map.1 hx
  exact h.stored_nonneg hv w

/-! ## Summing out -/

theorem nodup_nodes (h : n.WellFormed) : n.nodes.Nodup := List.Nodup.of_map _ h.nodup_ids

theorem eq_of_id_eq (h : n.WellFormed) {v v' : Variable} (hv : v ∈ n.nodes) (hv' : v' ∈ n.nodes)
    (hid : v.id = v'.id) : v = v' :=
  List.inj_on_of_nodup_map h.nodup_ids hv hv' hid

/-- The product of the entries of some of the variables. -/
def weightOn (n : Network) (part : Finset String) (w : World) : ℚ :=
  ∏ v ∈ n.nodes.toFinset with v.id ∈ part, n.stored w v

theorem weightOn_ids (h : n.WellFormed) (w : World) : weightOn n n.ids w = n.weight w := by
  unfold weightOn weight
  rw [Finset.filter_true_of_mem fun v hv => mem_ids_of_mem (List.mem_toFinset.1 hv),
    List.prod_toFinset _ (nodup_nodes h)]

/-- A variable that is no parent of the others has its factor to itself. -/
theorem weightOn_insert (h : n.WellFormed) (hv : v ∈ n.nodes) {rest : Finset String}
    (hrest : v.id ∉ rest) (w : World) :
    weightOn n (insert v.id rest) w = n.stored w v * weightOn n rest w := by
  have hsplit : (n.nodes.toFinset.filter fun u => u.id ∈ insert v.id rest) =
      insert v (n.nodes.toFinset.filter fun u => u.id ∈ rest) := by
    ext u
    simp only [Finset.mem_filter, Finset.mem_insert, List.mem_toFinset]
    constructor
    · rintro ⟨hu, hid | hid⟩
      · exact .inl (eq_of_id_eq h hu hv hid)
      · exact .inr ⟨hu, hid⟩
    · rintro (rfl | ⟨hu, hid⟩)
      · exact ⟨hv, .inl rfl⟩
      · exact ⟨hu, .inr hid⟩
  unfold weightOn
  rw [hsplit, Finset.prod_insert]
  simp [hrest]

/-- The value of a variable outside does not matter. -/
theorem weightOn_insert_world {rest : Finset String} (hrest : id ∉ rest)
    (hsink : ∀ other ∈ rest, id ∉ n.parents other) (w : World) :
    weightOn n rest (insert id w) = weightOn n rest w := by
  refine Finset.prod_congr rfl fun v hv => ?_
  have hid := (Finset.mem_filter.1 hv).2
  refine stored_congr (World.value_insert_of_ne w ?_) fun other hother =>
    World.value_insert_of_ne w ?_
  · rintro rfl
    exact hrest hid
  · rintro rfl
    exact hsink v.id hid hother

/-- Variables of which all parents are among them have weights that add up to
one. -/
theorem sum_weightOn (h : n.Complete) {part : Finset String} (hids : part ⊆ n.ids)
    (hclosed : ∀ id ∈ part, ∀ parent ∈ n.parents id, parent ∈ part) :
    ∑ w ∈ part.powerset, weightOn n part w = 1 := by
  induction hcard : part.card generalizing part with
  | zero =>
    rw [Finset.card_eq_zero] at hcard
    subst hcard
    simp [weightOn]
  | succ k ih =>
    have hpart : part.Nonempty := by
      rw [← Finset.card_pos]
      omega
    -- the induction is on the number of variables: one without children goes first
    obtain ⟨id, hid, hsink⟩ := h.acyclic.exists_sink hpart
    have hsink' : ∀ other ∈ part, id ∉ n.parents other := fun other hother hparent =>
      hsink other hother (Graph.mem_parents.1 hparent)
    obtain ⟨v, hv, rfl⟩ := List.mem_map.1 (contains_iff.1 (mem_ids.1 (hids hid)))
    set rest := part.erase v.id with hrest
    have hnotin : v.id ∉ rest := Finset.notMem_erase v.id part
    have hinsert : insert v.id rest = part := Finset.insert_erase hid
    have hsub : rest ⊆ part := Finset.erase_subset v.id part
    have hrestsum : ∑ w ∈ rest.powerset, weightOn n rest w = 1 := by
      refine ih (hsub.trans hids) ?_ ?_
      · intro other hother parent hparent
        refine Finset.mem_erase.2 ⟨?_, hclosed other (hsub hother) parent hparent⟩
        rintro rfl
        exact hsink' other (hsub hother) hparent
      · rw [hrest, Finset.card_erase_of_mem hid, hcard]
        rfl
    calc ∑ w ∈ part.powerset, weightOn n part w
        = ∑ w ∈ rest.powerset, (weightOn n part w + weightOn n part (insert v.id w)) := by
          rw [← hinsert, Finset.sum_powerset_insert hnotin, hinsert, ← Finset.sum_add_distrib]
      _ = ∑ w ∈ rest.powerset, weightOn n rest w := by
          refine Finset.sum_congr rfl fun w hw => ?_
          have hw' : v.id ∉ w := fun hmem => hnotin (Finset.mem_powerset.1 hw hmem)
          rw [← hinsert, weightOn_insert h.toWellFormed hv hnotin,
            weightOn_insert h.toWellFormed hv hnotin,
            weightOn_insert_world hnotin fun other hother => hsink' other (hsub hother),
            ← add_mul, h.stored_insert_add hv hw', one_mul]
      _ = 1 := hrestsum

/-- The weights of all worlds add up to one. -/
theorem sum_weight (h : n.Complete) : ∑ w ∈ n.ids.powerset, n.weight w = 1 := by
  rw [← h.sum_weightOn (Finset.Subset.refl n.ids) fun id _ parent hparent =>
    mem_ids.2 (h.contains_parent hparent)]
  exact Finset.sum_congr rfl fun w _ => (weightOn_ids h.toWellFormed w).symm

/-! ## Probabilities of terms -/

theorem prob_nonneg (h : n.Complete) (terms : List Term) : 0 ≤ n.prob terms :=
  Finset.sum_nonneg fun w _ => h.weight_nonneg w

/-- More terms are less probable. -/
theorem prob_anti (h : n.Complete) (hsub : terms ⊆ terms') : n.prob terms' ≤ n.prob terms := by
  refine Finset.sum_le_sum_of_subset_of_nonneg ?_ fun w _ _ => h.weight_nonneg w
  intro w hw
  rw [Finset.mem_filter] at hw ⊢
  exact ⟨hw.1, fun t ht => hw.2 t (hsub ht)⟩

theorem prob_nil (h : n.Complete) : n.prob [] = 1 := by
  rw [← h.sum_weight, prob]
  exact Finset.sum_congr (Finset.filter_true_of_mem fun w _ t ht => absurd ht List.not_mem_nil)
    fun _ _ => rfl

theorem prob_le_one (h : n.Complete) (terms : List Term) : n.prob terms ≤ 1 := by
  rw [← h.prob_nil]
  exact h.prob_anti (List.nil_subset terms)

end Complete

/-- In every world a variable is either true or false. -/
theorem prob_add_prob {fixed yes no : List Term}
    (hyes : ∀ t, t ∈ yes ↔ t ∈ fixed ∨ t = ⟨id, true⟩)
    (hno : ∀ t, t ∈ no ↔ t ∈ fixed ∨ t = ⟨id, false⟩) :
    n.prob yes + n.prob no = n.prob fixed := by
  have hagrees : ∀ (value : Bool) (extended : List Term),
      (∀ t, t ∈ extended ↔ t ∈ fixed ∨ t = ⟨id, value⟩) →
      ∀ w, World.Agrees w extended ↔ World.Agrees w fixed ∧ World.value w id = value := by
    intro value extended hmem w
    unfold World.Agrees
    simp only [hmem, or_imp, forall_and, forall_eq]
  unfold prob
  rw [← Finset.sum_filter_add_sum_filter_not (n.ids.powerset.filter fun w => World.Agrees w fixed)
      (fun w => World.value w id = true), Finset.filter_filter, Finset.filter_filter]
  congr 1
  · exact Finset.sum_congr (Finset.filter_congr fun w _ => hagrees true yes hyes w) fun _ _ => rfl
  · refine Finset.sum_congr (Finset.filter_congr fun w _ => ?_) fun _ _ => rfl
    rw [hagrees false no hno w, Bool.not_eq_true]

end Network

end BeliefNet
