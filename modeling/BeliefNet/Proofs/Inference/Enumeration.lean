import Mathlib
import BeliefNet.Proofs.Network.Worlds

/-!
# Enumerating the worlds

The joint probability of some terms visits every world that agrees with them
once (`mem_worlds`, `WellFormed.nodup_worlds`), in an order that does not change
when a term is added: the worlds of more terms are a part of the worlds of fewer
(`WellFormed.worlds_sublist`). For each of them it multiplies the entries that
the world selects (`WellFormed.entry_eq`), and adds the product to the sum so
far (`WellFormed.joint_eq`).
-/

namespace BeliefNet

/-! ## Completions -/

/-- The worlds in which some variables vary and the others stay, in the order
of `completions`. -/
def worldsOver (base : World) : List String → List World
  | [] => [base]
  | id :: ids => (worldsOver base ids).flatMap fun w => [insert id w, w]

section WorldsOver

variable {base w : World} {ids : List String} {id : String}

/-- Outside of the variables that vary, every world is the base. -/
theorem mem_of_mem_worldsOver (hw : w ∈ worldsOver base ids) (hid : id ∉ ids) :
    id ∈ w ↔ id ∈ base := by
  induction ids generalizing w with
  | nil => rw [List.mem_singleton.1 hw]
  | cons other ids ih =>
    rw [List.mem_cons, not_or] at hid
    obtain ⟨rest, hrest, hw⟩ := List.mem_flatMap.1 hw
    rcases List.mem_cons.1 hw with rfl | hw
    · rw [Finset.mem_insert, ih hrest hid.2]
      simp [hid.1]
    · obtain rfl := List.mem_singleton.1 hw
      exact ih hrest hid.2

/-- Every choice of the variables that vary occurs. -/
theorem mem_worldsOver_of_forall (h : ∀ id, id ∉ ids → (id ∈ w ↔ id ∈ base))
    (hbase : ∀ id ∈ ids, id ∉ base) : w ∈ worldsOver base ids := by
  induction ids generalizing w with
  | nil =>
    rw [worldsOver, List.mem_singleton]
    ext id
    exact h id List.not_mem_nil
  | cons other ids ih =>
    have hbase' : ∀ id ∈ ids, id ∉ base := fun id hid => hbase id (List.mem_cons_of_mem _ hid)
    rw [worldsOver, List.mem_flatMap]
    by_cases hother : other ∈ w
    · by_cases hlater : other ∈ ids
      · refine ⟨w, ih (fun id hid => h id ?_) hbase', ?_⟩
        · rw [List.mem_cons, not_or]
          exact ⟨fun heq => hid (heq ▸ hlater), hid⟩
        · rw [Finset.insert_eq_self.2 hother]
          exact List.mem_cons_self
      · -- this step has put `other` in, so the step before it has the world without
        refine ⟨w.erase other, ih (fun id hid => ?_) hbase', ?_⟩
        · by_cases heq : id = other
          · subst heq
            simp [hbase id List.mem_cons_self]
          · rw [Finset.mem_erase, ← h id (by simp [heq, hid])]
            simp [heq]
        · rw [Finset.insert_erase hother]
          exact List.mem_cons_self
    · refine ⟨w, ih (fun id hid => ?_) hbase', by simp⟩
      by_cases heq : id = other
      · subst heq
        simp [hother, hbase id List.mem_cons_self]
      · exact h id (by simp [heq, hid])

/-- No world occurs twice. -/
theorem nodup_worldsOver (hnodup : ids.Nodup) (hbase : ∀ id ∈ ids, id ∉ base) :
    (worldsOver base ids).Nodup := by
  induction ids with
  | nil => exact List.nodup_singleton base
  | cons id ids ih =>
    obtain ⟨hid, hnodup⟩ := List.nodup_cons.1 hnodup
    have hbase' : ∀ id ∈ ids, id ∉ base := fun id hid => hbase id (List.mem_cons_of_mem _ hid)
    have hout : ∀ w ∈ worldsOver base ids, id ∉ w := fun w hw hmem =>
      hbase id List.mem_cons_self ((mem_of_mem_worldsOver hw hid).1 hmem)
    rw [worldsOver, List.nodup_flatMap]
    constructor
    · intro w hw
      rw [List.nodup_cons, List.mem_singleton]
      refine ⟨fun heq => hout w hw ?_, List.nodup_singleton w⟩
      rw [← heq]
      exact Finset.mem_insert_self id w
    · -- worlds of different steps differ outside of `id`
      refine (ih hnodup hbase').imp_of_mem ?_
      intro v w hv hw hne u hu hu'
      refine hne ?_
      have herase : ∀ x : World, id ∉ x → u ∈ [insert id x, x] → u.erase id = x := by
        intro x hx hmem
        rcases List.mem_cons.1 hmem with rfl | hmem
        · exact Finset.erase_insert hx
        · obtain rfl := List.mem_singleton.1 hmem
          exact Finset.erase_eq_of_notMem hx
      rw [← herase v (hout v hv) hu, ← herase w (hout w hw) hu']

theorem length_worldsOver (base : World) (ids : List String) :
    (worldsOver base ids).length = 2 ^ ids.length := by
  induction ids with
  | nil => rfl
  | cons id ids ih =>
    rw [worldsOver, List.length_flatMap, List.length_cons, pow_succ]
    simp [ih]

/-- A variable that does not vary can be set before or after. -/
theorem worldsOver_insert (base : World) (id : String) (ids : List String) :
    worldsOver (insert id base) ids = (worldsOver base ids).map (insert id) := by
  induction ids with
  | nil => rfl
  | cons other ids ih =>
    rw [worldsOver, worldsOver, ih, List.flatMap_map, List.map_flatMap]
    refine List.flatMap_congr fun w _ => ?_
    simp [Finset.insert_comm]

/-- Fixing one of the variables that vary leaves out the worlds where it has
the other value, and keeps the order of the rest. -/
theorem filter_worldsOver (hnodup : ids.Nodup) (hbase : id ∉ base) (hid : id ∈ ids)
    (value : Bool) :
    (worldsOver base ids).filter (fun w => World.value w id == value) =
      worldsOver (if value then insert id base else base) (ids.filter (· != id)) := by
  induction ids with
  | nil => exact absurd hid List.not_mem_nil
  | cons other ids ih =>
    obtain ⟨hother, hnodup⟩ := List.nodup_cons.1 hnodup
    -- the variable varies in this step, or in an earlier one
    by_cases heq : id = other
    · subst heq
      have hsame : ids.filter (· != id) = ids := by
        rw [List.filter_eq_self]
        intro x hx
        simpa using fun h : x = id => hother (h ▸ hx)
      have hout : ∀ w ∈ worldsOver base ids, World.value w id = false := by
        intro w hw
        simpa [World.value] using fun hmem => hbase ((mem_of_mem_worldsOver hw hother).1 hmem)
      rw [List.filter_cons_of_neg (by simp), hsame, worldsOver, List.filter_flatMap]
      cases value with
      | true =>
        rw [if_pos rfl, worldsOver_insert, List.map_eq_flatMap]
        refine List.flatMap_congr fun w hw => ?_
        simp [World.value_insert_self, hout w hw]
      | false =>
        rw [if_neg (by simp)]
        conv_rhs => rw [← List.flatMap_singleton' (worldsOver base ids)]
        refine List.flatMap_congr fun w hw => ?_
        simp [World.value_insert_self, hout w hw]
    · have hid : id ∈ ids := by
        rcases List.mem_cons.1 hid with h | h
        · exact absurd h heq
        · exact h
      have hkeep : (other :: ids).filter (· != id) = other :: ids.filter (· != id) := by
        rw [List.filter_cons_of_pos]
        simpa using Ne.symm heq
      rw [hkeep, worldsOver, worldsOver, ← ih hnodup hid, List.filter_flatMap,
        flatMap_filter]
      refine List.flatMap_congr fun w _ => ?_
      by_cases hw : World.value w id = value
      · simp [World.value_insert_of_ne w heq, hw]
      · simp [World.value_insert_of_ne w heq, hw]

end WorldsOver

theorem map_id_of_mem_completions {ids : List String} {c : List Term} (h : c ∈ completions ids) :
    c.map (·.id) = ids := by
  induction ids generalizing c with
  | nil => rw [List.mem_singleton.1 h, List.map_nil]
  | cons id ids ih =>
    obtain ⟨rest, hrest, hc⟩ := List.mem_flatMap.1 h
    obtain ⟨value, -, rfl⟩ := List.mem_map.1 hc
    rw [List.map_cons, ih hrest]

namespace Network

/-- The world that the last values of some terms describe. -/
def worldOf (n : Network) (terms : List Term) : World :=
  n.ids.filter fun id => Term.value? (terms.foldl Term.assign []) id = some true

/-- The worlds that the sum visits. -/
def worlds (n : Network) (fixed : List Term) : List World :=
  worldsOver (n.worldOf fixed) (n.free fixed)

/-- The filter with the values of a world. -/
def worldFilter (n : Network) (w : World) : Filter :=
  ⟨n.nodes.map fun v => ⟨v.id, World.value w v.id⟩⟩

/-- The product of the entries that a world selects. -/
def productIn (n : Network) (w : World) : Except Error Probability := n.product (n.worldFilter w)

/-- The sum with the product for one world more. -/
def addWorld (n : Network) (total : Probability) (w : World) : Except Error Probability := do
  let term ← n.productIn w
  match total.add? term with
  | some sum => return sum
  | none => throw (.sumOverflow term total)

variable {n : Network} {w : World} {v : Variable} {f : Filter} {fixed terms : List Term}
  {id : String}

/-! ## One world -/

theorem value?_worldFilter (h : n.WellFormed) (hid : id ∈ n.ids) :
    (n.worldFilter w).value? id = some (World.value w id) := by
  obtain ⟨v, hv, rfl⟩ := List.mem_map.1 (contains_iff.1 (mem_ids.1 hid))
  have hnodup : ((n.worldFilter w).constraints.map (·.id)).Nodup := by
    unfold worldFilter
    rw [List.map_map]
    exact h.nodup_ids
  exact (Term.Consistent.of_nodup hnodup).value? (List.mem_map_of_mem hv)

/-- A filter with the values of a world selects one row of a table, the row of
the world. -/
theorem WellFormed.exists_select (h : n.WellFormed) (hv : v ∈ n.nodes)
    (hf : ∀ id ∈ n.ids, f.value? id = some (World.value w id)) :
    ∃ stored, v.table.select f = [⟨n.rowIn w v, stored⟩] ∧
      v.table.get? (n.rowIn w v) = .ok stored := by
  obtain ⟨entries, htable, -⟩ := h.paired v hv
  have hparents : ∀ id ∈ n.parents v.id, f.value? id = some (World.value w id) :=
    fun id hid => hf id (mem_ids.2 (h.contains_parent hid))
  unfold rowIn
  rw [htable, Table.select_ofEntries (hf v.id (mem_ids_of_mem hv)) hparents,
    Table.get?_ofRow (h.nodup_parents v.id) (mem_assignments_parents n w v.id)]
  exact ⟨_, rfl, rfl⟩

/-- So it selects what is stored for the world. -/
theorem WellFormed.entry_eq (h : n.WellFormed) (hv : v ∈ n.nodes)
    (hf : ∀ id ∈ n.ids, f.value? id = some (World.value w id)) :
    entry f v = match v.table.get? (n.rowIn w v) with
      | .ok (some entry) => .ok entry
      | _ => .error (.missingEntry (n.rowIn w v).toQuery v.id) := by
  obtain ⟨stored, hselect, hget⟩ := h.exists_select hv hf
  unfold entry
  rw [hselect, hget]
  cases stored with
  | none => rfl
  | some entry => rfl

/-- A product depends on the entries that are selected. -/
theorem productFrom_congr {f' : Filter} {nodes nodes' : List Variable}
    (h : List.Forall₂ (fun v v' => entry f v = entry f' v') nodes nodes')
    (product : Probability) : productFrom f product nodes = productFrom f' product nodes' := by
  induction h generalizing product with
  | nil => rfl
  | cons hentry _ ih => simp only [productFrom, hentry, ih]

/-- The product depends on the values of the filter only. -/
theorem WellFormed.product_eq (h : n.WellFormed)
    (hf : ∀ id ∈ n.ids, f.value? id = some (World.value w id)) :
    n.product f = n.productIn w :=
  productFrom_congr (List.forall₂_same.2 fun _ hv => by
    rw [h.entry_eq hv hf, h.entry_eq hv fun _ hid => value?_worldFilter h hid]) _

/-! ## The sum over the worlds -/

theorem mem_free : id ∈ n.free fixed ↔ id ∈ n.ids ∧ id ∉ fixed.map (·.id) := by
  simp [free, ids]

theorem WellFormed.nodup_free (h : n.WellFormed) (fixed : List Term) : (n.free fixed).Nodup :=
  h.nodup_ids.filter _

theorem mem_worldOf :
    id ∈ n.worldOf terms ↔ id ∈ n.ids ∧ Term.last? terms id = some true := by
  simp [worldOf, Term.value?_foldl_assign_nil]

theorem not_mem_worldOf_of_free (hid : id ∈ n.free fixed) : id ∉ n.worldOf fixed := by
  intro hmem
  have hsome := (mem_worldOf.1 hmem).2
  rw [Term.last?_eq_none.2 (mem_free.1 hid).2] at hsome
  cases hsome

theorem not_mem_worldOf_append {c : List Term} (hid : id ∉ n.worldOf fixed)
    (hlater : id ∉ c.map (·.id)) : id ∉ n.worldOf (fixed ++ c) := by
  rw [mem_worldOf, Term.last?_append, Term.last?_eq_none.2 hlater, Option.none_or]
  intro h
  exact hid (mem_worldOf.2 h)

theorem worldOf_append_cons_true {c : List Term} (hid : id ∈ n.ids)
    (hlater : id ∉ c.map (·.id)) :
    n.worldOf (fixed ++ ⟨id, true⟩ :: c) = insert id (n.worldOf (fixed ++ c)) := by
  ext other
  rw [Finset.mem_insert, mem_worldOf, mem_worldOf, Term.last?_append_cons hlater]
  by_cases heq : id = other
  · subst heq
    simp [hid]
  · simp [heq, Ne.symm heq]

theorem worldOf_append_cons_false {c : List Term} (hid : id ∉ n.worldOf fixed)
    (hlater : id ∉ c.map (·.id)) :
    n.worldOf (fixed ++ ⟨id, false⟩ :: c) = n.worldOf (fixed ++ c) := by
  have hout := not_mem_worldOf_append hid hlater
  ext other
  by_cases heq : id = other
  · subst heq
    rw [mem_worldOf, Term.last?_append_cons hlater, if_pos rfl]
    simp [hout]
  · rw [mem_worldOf, mem_worldOf, Term.last?_append_cons hlater, if_neg heq]

/-- The completions are the worlds. -/
theorem map_worldOf_completions {ids : List String} (hids : ∀ id ∈ ids, id ∈ n.ids)
    (hnodup : ids.Nodup) (hfixed : ∀ id ∈ ids, id ∉ n.worldOf fixed) :
    (completions ids).map (fun c => n.worldOf (fixed ++ c)) =
      worldsOver (n.worldOf fixed) ids := by
  induction ids with
  | nil => simp [completions, worldsOver]
  | cons id ids ih =>
    obtain ⟨hid, hnodup⟩ := List.nodup_cons.1 hnodup
    rw [worldsOver, ← ih (fun id hid => hids id (List.mem_cons_of_mem _ hid)) hnodup
      (fun id hid => hfixed id (List.mem_cons_of_mem _ hid)), completions, List.map_flatMap,
      List.flatMap_map]
    refine List.flatMap_congr fun c hc => ?_
    have hlater : id ∉ c.map (·.id) := map_id_of_mem_completions hc ▸ hid
    simp only [List.map_cons, List.map_nil,
      worldOf_append_cons_true (hids id List.mem_cons_self) hlater,
      worldOf_append_cons_false (hfixed id List.mem_cons_self) hlater]

/-- A total list of terms selects the rows of its world. -/
theorem value?_of_mem_completions {c : List Term} (hc : c ∈ completions (n.free fixed))
    (hid : id ∈ n.ids) :
    Term.value? ((fixed ++ c).foldl Term.assign []) id =
      some (World.value (n.worldOf (fixed ++ c)) id) := by
  -- every variable is fixed or part of the completion
  have hoccurs : id ∈ (fixed ++ c).map (·.id) := by
    rw [List.map_append, List.mem_append, map_id_of_mem_completions hc, mem_free]
    by_cases hfixed : id ∈ fixed.map (·.id)
    · exact .inl hfixed
    · exact .inr ⟨hid, hfixed⟩
  have hsome : Term.last? (fixed ++ c) id ≠ none := fun hnone =>
    Term.last?_eq_none.1 hnone hoccurs
  obtain ⟨value, hvalue⟩ := Option.ne_none_iff_exists'.1 hsome
  rw [Term.value?_foldl_assign_nil, hvalue]
  cases value with
  | true =>
    have : id ∈ n.worldOf (fixed ++ c) := mem_worldOf.2 ⟨hid, hvalue⟩
    simp [World.value, this]
  | false =>
    have : id ∉ n.worldOf (fixed ++ c) := by
      rw [mem_worldOf, hvalue]
      simp
    simp [World.value, this]

/-- A step of the sum, for a completion, is one for its world. -/
theorem WellFormed.step_eq (h : n.WellFormed) {c : List Term}
    (hc : c ∈ completions (n.free fixed)) (hne : fixed ++ c ≠ []) (total : Probability) :
    (do
      let f ← Filter.ofTerms (fixed ++ c)
      let term ← n.product f
      match total.add? term with
      | some sum => return sum
      | none => throw (.sumOverflow term total)) = n.addWorld total (n.worldOf (fixed ++ c)) := by
  have hofTerms : Filter.ofTerms (fixed ++ c) = .ok ⟨(fixed ++ c).foldl Term.assign []⟩ := by
    unfold Filter.ofTerms
    rw [if_neg (by simpa using hne)]
  have hproduct : n.product ⟨(fixed ++ c).foldl Term.assign []⟩ =
      n.productIn (n.worldOf (fixed ++ c)) :=
    h.product_eq fun id hid => value?_of_mem_completions hc hid
  unfold addWorld
  rw [hofTerms, ← hproduct]
  rfl

theorem length_of_mem_completions {ids : List String} {c : List Term}
    (h : c ∈ completions ids) : c.length = ids.length := by
  rw [← map_id_of_mem_completions h, List.length_map]

/-- A network without variables has one world, and its product is one. -/
theorem foldlM_addWorld_of_nodes_nil (h : n.nodes = []) :
    (n.worlds []).foldlM n.addWorld .zero = .ok .one := by
  have hproduct : ∀ w, n.productIn w = .ok .one := by
    intro w
    unfold productIn product
    rw [h]
    rfl
  have hworlds : n.worlds [] = [n.worldOf []] := by
    unfold worlds free
    rw [h]
    rfl
  have hadd : n.addWorld .zero (n.worldOf []) = .ok .one := by
    unfold addWorld
    rw [hproduct]
    rfl
  rw [hworlds, List.foldlM_cons, hadd]
  rfl

theorem foldlM_congr {α β : Type} {f g : β → α → Except Error β} {l : List α}
    (h : ∀ a ∈ l, ∀ b, f b a = g b a) (b : β) : l.foldlM f b = l.foldlM g b := by
  induction l generalizing b with
  | nil => rfl
  | cons a l ih =>
    rw [List.foldlM_cons, List.foldlM_cons, h a List.mem_cons_self]
    congr 1
    funext next
    exact ih (fun a ha => h a (List.mem_cons_of_mem _ ha)) next

/-- The joint probability is the sum over the worlds, from the first to the
last, if the tables are complete and the worlds not too many. -/
theorem WellFormed.joint_spec (h : n.WellFormed) (fixed : List Term) :
    n.joint fixed = (do
      n.checkReady
      if 64 ≤ (n.free fixed).length then
        throw (.tooManyFree (n.free fixed).length)
      (n.worlds fixed).foldlM n.addWorld .zero) := by
  unfold joint
  cases n.checkReady with
  | error e => rfl
  | ok _ =>
    simp only [bind, Except.bind]
    by_cases hempty : (fixed.isEmpty && (n.free fixed).isEmpty) = true
    · rw [if_pos hempty]
      rw [Bool.and_eq_true, List.isEmpty_iff, List.isEmpty_iff] at hempty
      obtain ⟨rfl, hnone⟩ := hempty
      have hnodes : n.nodes = [] := by
        simpa [free] using hnone
      rw [hnone, foldlM_addWorld_of_nodes_nil hnodes]
      rfl
    · rw [if_neg hempty]
      by_cases hmany : 64 ≤ (n.free fixed).length
      · rw [if_pos hmany, if_pos hmany]
        rfl
      rw [if_neg hmany, if_neg hmany]
      -- without terms there is no filter, so this case had to be apart
      have hne : ∀ c ∈ completions (n.free fixed), fixed ++ c ≠ [] := by
        intro c hc happend
        obtain ⟨rfl, rfl⟩ := List.append_eq_nil_iff.1 happend
        have hlength := length_of_mem_completions hc
        rw [List.length_nil] at hlength
        have hnone : n.free [] = [] := List.eq_nil_of_length_eq_zero hlength.symm
        exact hempty (by simp [hnone])
      rw [worlds, ← map_worldOf_completions (fun id hid => (mem_free.1 hid).1)
        (h.nodup_free fixed) fun id hid => not_mem_worldOf_of_free hid, List.foldlM_map]
      exact foldlM_congr (fun c hc total => h.step_eq hc (hne c hc) total) _

theorem WellFormed.joint_eq (h : n.WellFormed) (hready : n.checkReady = .ok ())
    (hfree : (n.free fixed).length < 64) :
    n.joint fixed = (n.worlds fixed).foldlM n.addWorld .zero := by
  rw [h.joint_spec, hready]
  simp only [bind, Except.bind]
  rw [if_neg (by omega)]

/-- The check finds an incomplete table unless there is none. -/
theorem isReady_iff : n.isReady = true ↔ n.checkReady = .ok () := by
  have hnone : n.isReady = true ↔ n.nodes.find? (fun v => !v.table.isComplete) = none := by
    unfold isReady
    rw [List.all_eq_true, List.find?_eq_none]
    simp
  unfold checkReady
  rw [hnone]
  cases n.nodes.find? fun v => !v.table.isComplete with
  | none => simp
  | some v => simp

/-! ## The worlds of consistent terms -/

theorem mem_worldOf_of_consistent (hconsistent : Term.Consistent fixed) :
    id ∈ n.worldOf fixed ↔ id ∈ n.ids ∧ (⟨id, true⟩ : Term) ∈ fixed := by
  rw [mem_worldOf, and_congr_right_iff]
  intro _
  constructor
  · intro hvalue
    exact List.mem_reverse.1 (Term.mem_of_value? hvalue)
  · intro hmem
    exact hconsistent.last? hmem

/-- The sum visits the worlds that agree with the terms. -/
theorem mem_worlds (hconsistent : Term.Consistent fixed)
    (hdefined : ∀ t ∈ fixed, t.id ∈ n.ids) :
    w ∈ n.worlds fixed ↔ w ⊆ n.ids ∧ World.Agrees w fixed := by
  have hbase : ∀ id ∈ n.free fixed, id ∉ n.worldOf fixed :=
    fun id hid => not_mem_worldOf_of_free hid
  constructor
  · intro hw
    constructor
    · intro id hid
      by_cases hfree : id ∈ n.free fixed
      · exact (mem_free.1 hfree).1
      · exact (mem_worldOf.1 ((mem_of_mem_worldsOver hw hfree).1 hid)).1
    · intro t ht
      have hfixed : t.id ∉ n.free fixed := fun hfree =>
        (mem_free.1 hfree).2 (List.mem_map_of_mem ht)
      have hmem : t.id ∈ w ↔ t.value = true := by
        rw [mem_of_mem_worldsOver hw hfixed, mem_worldOf_of_consistent hconsistent]
        constructor
        · intro h
          exact hconsistent.value_eq ht h.2 rfl
        · intro hvalue
          refine ⟨hdefined t ht, ?_⟩
          rw [← hvalue]
          exact ht
      rw [World.value, Bool.eq_iff_iff, decide_eq_true_iff, hmem]
  · rintro ⟨hsub, hagrees⟩
    refine mem_worldsOver_of_forall (fun id hid => ?_) hbase
    rw [mem_worldOf_of_consistent hconsistent]
    constructor
    · intro hmem
      have hids := hsub hmem
      have hoccurs : id ∈ fixed.map (·.id) := by
        by_contra hnot
        exact hid (mem_free.2 ⟨hids, hnot⟩)
      obtain ⟨t, ht, rfl⟩ := List.mem_map.1 hoccurs
      have hvalue : true = t.value := by
        rw [← hagrees t ht]
        simp [World.value, hmem]
      refine ⟨hids, ?_⟩
      rw [hvalue]
      exact ht
    · rintro ⟨-, ht⟩
      simpa [World.value] using hagrees _ ht

theorem WellFormed.nodup_worlds (h : n.WellFormed) (fixed : List Term) :
    (n.worlds fixed).Nodup :=
  nodup_worldsOver (h.nodup_free fixed) fun _ hid => not_mem_worldOf_of_free hid

theorem length_worlds (n : Network) (fixed : List Term) :
    (n.worlds fixed).length = 2 ^ (n.free fixed).length :=
  length_worldsOver _ _

/-- A sum over the visited worlds is one over all worlds that agree. -/
theorem WellFormed.sum_worlds (h : n.WellFormed) (hconsistent : Term.Consistent fixed)
    (hdefined : ∀ t ∈ fixed, t.id ∈ n.ids) (g : World → ℚ) :
    ((n.worlds fixed).map g).sum = ∑ w ∈ n.ids.powerset with World.Agrees w fixed, g w := by
  rw [← List.sum_toFinset _ (h.nodup_worlds fixed)]
  congr 1
  ext w
  rw [List.mem_toFinset, mem_worlds hconsistent hdefined, Finset.mem_filter,
    Finset.mem_powerset]

/-! ## Other ways to list the terms -/

theorem free_congr (h : ∀ id ∈ n.ids, Term.last? terms id = Term.last? fixed id) :
    n.free terms = n.free fixed := by
  unfold free
  refine List.filter_congr fun id hid => ?_
  have hid := mem_ids.2 (contains_iff.2 hid)
  have hoccurs : id ∉ terms.map (·.id) ↔ id ∉ fixed.map (·.id) := by
    rw [← Term.last?_eq_none, ← Term.last?_eq_none, h id hid]
  rw [Bool.eq_iff_iff]
  simpa using hoccurs

/-- The worlds depend on the last values of the variables. -/
theorem worlds_congr (h : ∀ id ∈ n.ids, Term.last? terms id = Term.last? fixed id) :
    n.worlds terms = n.worlds fixed := by
  have hbase : n.worldOf terms = n.worldOf fixed := by
    ext id
    rw [mem_worldOf, mem_worldOf, and_congr_right_iff]
    intro hid
    rw [h id hid]
  unfold worlds
  rw [hbase, free_congr h]

/-- So does the joint probability. -/
theorem WellFormed.joint_congr (h : n.WellFormed)
    (hlast : ∀ id ∈ n.ids, Term.last? terms id = Term.last? fixed id) :
    n.joint terms = n.joint fixed := by
  rw [h.joint_spec, h.joint_spec, worlds_congr hlast, free_congr hlast]

/-- With one term more, the sum visits a part of the worlds, in the same
order. -/
theorem WellFormed.worlds_concat_sublist (h : n.WellFormed) {t : Term}
    (hconsistent : Term.Consistent (fixed ++ [t])) (hid : t.id ∈ n.ids) :
    (n.worlds (fixed ++ [t])).Sublist (n.worlds fixed) := by
  have hfixed : Term.Consistent fixed := hconsistent.subset (List.subset_append_left _ _)
  by_cases hnew : t.id ∈ fixed.map (·.id)
  · -- the term was there before, as nothing contradicts it
    obtain ⟨u, hu, huid⟩ := List.mem_map.1 hnew
    have hvalue := hconsistent.value_eq (List.mem_append_left _ hu)
      (List.mem_append_right _ (List.mem_singleton_self t)) huid
    obtain rfl : u = t := by
      cases u
      cases t
      simp_all
    have hmem : ∀ v, v ∈ fixed ++ [u] ↔ v ∈ fixed := by
      intro v
      rw [List.mem_append, List.mem_singleton, or_iff_left_of_imp]
      rintro rfl
      exact hu
    rw [worlds_congr fun id _ => hfixed.last?_congr hmem id]
  have hfree : n.free (fixed ++ [t]) = (n.free fixed).filter (· != t.id) := by
    unfold free
    rw [List.filter_filter]
    refine List.filter_congr fun id _ => ?_
    rw [List.any_append, Bool.not_or, Bool.and_comm]
    simp [bne, BEq.comm]
  have hout : t.id ∉ n.worldOf fixed := by
    rw [mem_worldOf_of_consistent hfixed]
    intro h
    exact hnew (List.mem_map.2 ⟨_, h.2, rfl⟩)
  have hbase : n.worldOf (fixed ++ [t]) = if t.value then insert t.id (n.worldOf fixed)
      else n.worldOf fixed := by
    obtain ⟨id, value⟩ := t
    have hlater : id ∉ ([] : List Term).map (·.id) := List.not_mem_nil
    cases value with
    | true => simpa using worldOf_append_cons_true hid hlater
    | false => simpa using worldOf_append_cons_false hout hlater
  unfold worlds
  rw [hfree, hbase, ← filter_worldsOver (h.nodup_free fixed) hout (mem_free.2 ⟨hid, hnew⟩)]
  exact List.filter_sublist

theorem WellFormed.worlds_append_sublist (h : n.WellFormed)
    (hconsistent : Term.Consistent (fixed ++ terms)) (hdefined : ∀ t ∈ terms, t.id ∈ n.ids) :
    (n.worlds (fixed ++ terms)).Sublist (n.worlds fixed) := by
  induction terms generalizing fixed with
  | nil => rw [List.append_nil]
  | cons t terms ih =>
    rw [List.append_cons] at hconsistent ⊢
    have hrest := ih hconsistent fun u hu => hdefined u (List.mem_cons_of_mem t hu)
    exact hrest.trans (h.worlds_concat_sublist
      (hconsistent.subset (List.subset_append_left _ _)) (hdefined t List.mem_cons_self))

/-- With more terms, the sum visits a part of the worlds, in the same order. -/
theorem WellFormed.worlds_sublist (h : n.WellFormed) (hsub : fixed ⊆ terms)
    (hconsistent : Term.Consistent terms) (hdefined : ∀ t ∈ terms, t.id ∈ n.ids) :
    (n.worlds terms).Sublist (n.worlds fixed) := by
  have hmem : ∀ t, t ∈ fixed ++ terms ↔ t ∈ terms := by
    intro t
    rw [List.mem_append, or_iff_right_of_imp (@hsub t)]
  rw [← worlds_congr fun id _ => hconsistent.last?_congr hmem id]
  exact h.worlds_append_sublist (hconsistent.subset fun t ht => (hmem t).1 ht) hdefined

/-- More terms leave fewer variables free. -/
theorem WellFormed.length_free_le (h : n.WellFormed) (hsub : fixed ⊆ terms) :
    (n.free terms).length ≤ (n.free fixed).length := by
  refine (List.subperm_of_subset (h.nodup_free terms) fun id hid => ?_).length_le
  rw [mem_free] at hid ⊢
  exact ⟨hid.1, fun hmem => hid.2 (List.map_subset _ hsub hmem)⟩

end Network

end BeliefNet
