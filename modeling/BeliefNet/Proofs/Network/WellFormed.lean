import Mathlib
import BeliefNet.Proofs.Network.Acyclic
import BeliefNet.Proofs.Network.Step
import BeliefNet.Proofs.Table.Rows

/-!
# Well-formed networks

What every operation keeps: ids and edges occur once, edges join defined
variables and close no cycle, and every table has the rows that the edges ask
for, in pairs that belong together. `WellFormed.change` is the step,
`Reachable.wellFormed` the run.
-/

namespace BeliefNet

namespace Network

structure WellFormed (n : Network) : Prop where
  nodup_ids : (n.nodes.map (·.id)).Nodup
  nodup_edges : n.edges.Nodup
  defined : ∀ e ∈ n.edges, n.contains e.parent = true ∧ n.contains e.child = true
  acyclic : Graph.Acyclic n.edges
  paired : ∀ v ∈ n.nodes, v.table.Paired v.id (n.parents v.id)

variable {n n' : Network} {id : String} {v : Variable}

/-- A defined variable is found, and no other has its id. -/
theorem WellFormed.exists_unique_find? (h : n.WellFormed) (hid : n.contains id = true) :
    ∃ v, n.find? id = some v ∧ v ∈ n.nodes ∧ v.id = id ∧ ∀ u ∈ n.nodes, u.id = id → u = v := by
  obtain ⟨v, hfind⟩ := Network.exists_find? hid
  obtain ⟨hmem, rfl⟩ := mem_of_find? hfind
  exact ⟨v, hfind, hmem, rfl, fun u hu heq => List.inj_on_of_nodup_map h.nodup_ids hu hmem heq⟩

/-- The edges that can be added. -/
theorem checkEdge_eq_ok_iff {edge : Edge} :
    n.checkEdge edge = .ok () ↔
      n.contains edge.parent = true ∧ n.contains edge.child = true ∧
        Graph.reaches n.edges edge.child edge.parent = false ∧ edge ∉ n.edges := by
  unfold checkEdge
  constructor
  · intro h
    cases hchild : n.require edge.child with
    | error _ =>
      rw [hchild] at h
      cases h
    | ok child =>
      cases hparent : n.require edge.parent with
      | error _ =>
        rw [hchild, hparent] at h
        cases h
      | ok parent =>
        rw [hchild, hparent] at h
        refine ⟨contains_of_require hparent, contains_of_require hchild, ?_⟩
        by_cases hcycle :
            (edge.parent = edge.child || Graph.reaches n.edges edge.child edge.parent) = true
        · simp only [hcycle] at h
          cases h
        · simp only [hcycle] at h
          by_cases hmem : edge ∈ n.edges
          · simp only [hmem] at h
            cases h
          · rw [Bool.or_eq_true, not_or] at hcycle
            exact ⟨Bool.eq_false_iff.2 hcycle.2, hmem⟩
  · rintro ⟨hparent, hchild, hreach, hnew⟩
    obtain ⟨parent, hparent⟩ := exists_require hparent
    obtain ⟨child, hchild⟩ := exists_require hchild
    have hne : edge.parent ≠ edge.child := fun heq =>
      Bool.eq_false_iff.1 hreach (Graph.reaches_eq_true_iff.2 (heq ▸ .refl))
    rw [hchild, hparent]
    simp only [hne, hreach, hnew]
    rfl

@[simp] theorem edges_withTable (n : Network) (id : String) (t : Table) :
    (n.withTable id t).edges = n.edges := rfl

@[simp] theorem parents_withTable (n : Network) (id : String) (t : Table) :
    (n.withTable id t).parents = n.parents := rfl

/-- Edges in another order lead to the same parents in another order. -/
theorem parents_perm (h : n.edges.Perm n'.edges) (id : String) :
    (n.parents id).Perm (n'.parents id) :=
  (h.filter _).map _

/-- An edge to another variable leaves the parents as they are. -/
theorem parents_withEdge_of_ne {edge : Edge} (h : id ≠ edge.child) :
    (n.withEdge edge).parents id = n.parents id := by
  show Graph.parents (n.edges ++ [edge]) id = Graph.parents n.edges id
  unfold Graph.parents
  simp [List.filter_append, Ne.symm h]

namespace WellFormed

theorem empty : WellFormed Network.empty where
  nodup_ids := List.nodup_nil
  nodup_edges := List.nodup_nil
  defined _ he := absurd he List.not_mem_nil
  acyclic := Graph.acyclic_nil
  paired _ hv := absurd hv List.not_mem_nil

/-- Edges that agree at one end differ at the other. -/
theorem nodup_ends (h : n.WellFormed) {near far : Edge → String}
    (hext : ∀ e e', near e = near e' → far e = far e' → e = e') (id : String) :
    ((n.edges.filter (near · == id)).map far).Nodup := by
  refine List.Nodup.map_on ?_ (h.nodup_edges.filter _)
  intro e he e' he' hfar
  have hnear : near e = id := by simpa using (List.mem_filter.1 he).2
  have hnear' : near e' = id := by simpa using (List.mem_filter.1 he').2
  exact hext e e' (hnear.trans hnear'.symm) hfar

theorem nodup_parents (h : n.WellFormed) (id : String) : (n.parents id).Nodup := by
  refine h.nodup_ends (fun e e' hchild hparent => ?_) id
  cases e
  cases e'
  simp_all

theorem nodup_children (h : n.WellFormed) (id : String) : (n.children id).Nodup := by
  refine h.nodup_ends (fun e e' hparent hchild => ?_) id
  cases e
  cases e'
  simp_all

/-- The parents of a variable are defined. -/
theorem contains_parent (h : n.WellFormed) {parent : String} (hparent : parent ∈ n.parents id) :
    n.contains parent = true :=
  (h.defined _ (Graph.mem_parents.1 hparent)).1

/-- No variable is its own parent. -/
theorem not_mem_parents (h : n.WellFormed) (id : String) : id ∉ n.parents id :=
  fun hmem => h.acyclic id (.single (Graph.mem_parents.1 hmem))

/-- No edge leads to a variable that is not defined. -/
theorem parents_of_new (h : n.WellFormed) (hnew : n.contains id = false) : n.parents id = [] := by
  rw [List.eq_nil_iff_forall_not_mem]
  intro parent hparent
  have hdefined := (h.defined _ (Graph.mem_parents.1 hparent)).2
  rw [hnew] at hdefined
  cases hdefined

theorem kept (h : n.WellFormed) (hnodes : n'.nodes = n.nodes) (hedges : n'.edges = n.edges) :
    n'.WellFormed := by
  have hcontains : ∀ id, n'.contains id = n.contains id := by
    intro id
    unfold contains
    rw [hnodes]
  have hparents : ∀ id, n'.parents id = n.parents id := by
    intro id
    unfold parents
    rw [hedges]
  constructor
  · rw [hnodes]
    exact h.nodup_ids
  · rw [hedges]
    exact h.nodup_edges
  · intro e he
    rw [hcontains, hcontains]
    exact h.defined e (hedges ▸ he)
  · rw [hedges]
    exact h.acyclic
  · intro v hv
    rw [hparents]
    exact h.paired v (hnodes ▸ hv)

theorem define (h : n.WellFormed) (hnew : n.contains id = false) (label : String) :
    WellFormed { n with nodes := n.nodes ++ [⟨id, label, Table.forParents id []⟩] } := by
  have hid : id ∉ n.nodes.map (·.id) := by
    rw [← contains_iff, hnew]
    simp
  constructor
  · rw [List.map_append, List.map_singleton]
    exact List.Nodup.append h.nodup_ids (List.nodup_singleton id)
      (List.disjoint_singleton.2 hid)
  · exact h.nodup_edges
  · intro e he
    obtain ⟨hparent, hchild⟩ := h.defined e he
    rw [contains_iff] at hparent hchild ⊢
    rw [contains_iff, List.map_append]
    exact ⟨List.mem_append_left _ hparent, List.mem_append_left _ hchild⟩
  · exact h.acyclic
  · intro v hv
    rcases List.mem_append.1 hv with hv | hv
    · exact h.paired v hv
    · obtain rfl := List.mem_singleton.1 hv
      show (Table.forParents id []).Paired id (n.parents id)
      rw [h.parents_of_new hnew]
      exact Table.paired_forParents id []

/-- Another table for a variable leaves the ids as they are. -/
theorem map_id_withTable (n : Network) (id : String) (t : Table) :
    (n.withTable id t).nodes.map (·.id) = n.nodes.map (·.id) := by
  unfold withTable
  rw [List.map_map]
  refine List.map_congr_left fun v _ => ?_
  simp only [Function.comp_apply]
  split <;> rfl

theorem contains_withTable (n : Network) (id other : String) (t : Table) :
    (n.withTable id t).contains other = n.contains other := by
  rw [Bool.eq_iff_iff, contains_iff, contains_iff, map_id_withTable]

theorem contains_withEdge (n : Network) (edge : Edge) (id : String) :
    (n.withEdge edge).contains id = n.contains id :=
  contains_withTable _ _ _ _

/-- A table in place of another. -/
theorem withTable {t : Table} (h : n.WellFormed) (ht : t.Paired id (n.parents id)) :
    (n.withTable id t).WellFormed where
  nodup_ids := by
    rw [map_id_withTable]
    exact h.nodup_ids
  nodup_edges := h.nodup_edges
  defined e he := by
    rw [contains_withTable, contains_withTable]
    exact h.defined e he
  acyclic := h.acyclic
  paired w hw := by
    obtain ⟨v, hv, rfl⟩ := List.mem_map.1 hw
    by_cases hid : v.id = id
    · rw [if_pos hid]
      subst hid
      exact ht
    · rw [if_neg hid]
      exact h.paired v hv

theorem withEdge {edge : Edge} (h : n.WellFormed) (hedge : n.checkEdge edge = .ok ()) :
    (n.withEdge edge).WellFormed := by
  obtain ⟨hparent, hchild, hreach, hnew⟩ := checkEdge_eq_ok_iff.1 hedge
  constructor
  · show ((n.withEdge edge).nodes.map (·.id)).Nodup
    exact (map_id_withTable _ _ _).symm ▸ h.nodup_ids
  · exact List.Nodup.append h.nodup_edges (List.nodup_singleton edge)
      (List.disjoint_singleton.2 hnew)
  · intro e he
    rw [contains_withEdge, contains_withEdge]
    rcases List.mem_append.1 he with he | he
    · exact h.defined e he
    · obtain rfl := List.mem_singleton.1 he
      exact ⟨hparent, hchild⟩
  · exact h.acyclic.append hreach
  · intro w hw
    obtain ⟨v, hv, rfl⟩ := List.mem_map.1 hw
    by_cases hid : v.id = edge.child
    · rw [if_pos hid]
      show (Table.forParents edge.child _).Paired v.id _
      rw [hid]
      exact Table.paired_forParents edge.child _
    · rw [if_neg hid]
      rw [parents_withEdge_of_ne hid]
      exact h.paired v hv

/-- A change keeps a network well-formed. -/
theorem change (h : n.WellFormed) (hchange : Change n n') : n'.WellFormed := by
  cases hchange with
  | kept hnodes hedges => exact h.kept hnodes hedges
  | defined hnew => exact h.define hnew _
  | linked hedge => exact h.withEdge hedge
  | filled hv ht =>
    obtain ⟨hmem, rfl⟩ := mem_of_find? hv
    exact h.withTable
      ((h.paired _ hmem).putDecimal (h.nodup_parents _) (h.not_mem_parents _) ht)

/-- So does a run. -/
theorem run {s : Session} (h : s.network.WellFormed) (ops : List Operation) :
    (Operation.run ops s).network.WellFormed := by
  induction ops generalizing s with
  | nil => exact h
  | cons op ops ih => exact ih (h.change (change_step s op))

end WellFormed

theorem Reachable.wellFormed (h : n.Reachable) : n.WellFormed :=
  h.induction WellFormed.empty fun hn hchange => hn.change hchange

/-! ## Edges one after another -/

/-- New edges between defined variables can be added in any order if they close
no cycle: none of them closes one before the others are there. -/
theorem run_addEdge (edges : List Edge) (s : Session)
    (hdefined : ∀ e ∈ edges,
      s.network.contains e.parent = true ∧ s.network.contains e.child = true)
    (hnodup : (s.network.edges ++ edges).Nodup)
    (hacyclic : Graph.Acyclic (s.network.edges ++ edges)) :
    Operation.Succeed s (edges.map .addEdge) ∧
      Operation.history s (edges.map .addEdge) = edges.map .link ∧
      (Operation.run (edges.map .addEdge) s).network = edges.foldl withEdge s.network := by
  induction edges generalizing s with
  | nil => exact ⟨trivial, rfl, rfl⟩
  | cons e edges ih =>
    rw [List.append_cons] at hnodup hacyclic
    have hnew : e ∉ s.network.edges := fun hmem =>
      (List.nodup_append.1 (List.nodup_append.1 hnodup).1).2.2 e hmem e
        (List.mem_singleton_self e) rfl
    have hreach : Graph.reaches s.network.edges e.child e.parent = false :=
      (hacyclic.subset (List.subset_append_left _ _)).reaches_eq_false
    obtain ⟨hparent, hchild⟩ := hdefined e List.mem_cons_self
    have hok := Operation.outcome_addEdge (checkEdge_eq_ok_iff.2 ⟨hparent, hchild, hreach, hnew⟩)
    have hdone : Operation.done s (.addEdge e) = some (.link e) :=
      Operation.done_of_ok (by rw [hok])
    have hstep : (Operation.step s (.addEdge e)).network = s.network.withEdge e := by
      unfold Operation.step
      rw [hok]
      rfl
    have hdefined' : ∀ f ∈ edges, (Operation.step s (.addEdge e)).network.contains f.parent = true ∧
        (Operation.step s (.addEdge e)).network.contains f.child = true := by
      intro f hf
      rw [hstep, WellFormed.contains_withEdge, WellFormed.contains_withEdge]
      exact hdefined f (List.mem_cons_of_mem e hf)
    have hedges : (Operation.step s (.addEdge e)).network.edges = s.network.edges ++ [e] := by
      rw [hstep]
      rfl
    rw [← hedges] at hnodup hacyclic
    obtain ⟨hsucceed, hhistory, hrun⟩ := ih _ hdefined' hnodup hacyclic
    refine ⟨⟨by rw [hok], hsucceed⟩, ?_, ?_⟩
    · show (Operation.done s (.addEdge e)).toList ++ _ = _
      rw [hdone, hhistory]
      rfl
    · show (Operation.run (edges.map .addEdge) (Operation.step s (.addEdge e))).network = _
      rw [hrun, hstep]
      rfl

/-! ## A network for the examples -/

/-- The decimal `digits / 100`. -/
def percent (digits : Fin 101) : Decimal where
  negative := false
  digits := digits
  scale := 2
  digits_lt := Nat.lt_of_lt_of_le digits.isLt (by decide)
  scale_le := by decide

/-- The decimal `digits / 10`, written with two places. -/
def tenths (digits : Nat) : Decimal := percent (.ofNat 101 (10 * digits))

/-- A fault, and an alarm that it usually sets off. -/
def alarm : Network where
  nodes := [
    ⟨"fault", "fault", ⟨"fault", [
      ⟨⟨⟨[⟨"fault", true⟩], []⟩⟩, some (percent 1)⟩,
      ⟨⟨⟨[⟨"fault", false⟩], []⟩⟩, some (percent 99)⟩]⟩⟩,
    ⟨"alarm", "alarm", ⟨"alarm", [
      ⟨⟨⟨[⟨"alarm", true⟩], [⟨"fault", true⟩]⟩⟩, some (percent 95)⟩,
      ⟨⟨⟨[⟨"alarm", false⟩], [⟨"fault", true⟩]⟩⟩, some (percent 5)⟩,
      ⟨⟨⟨[⟨"alarm", true⟩], [⟨"fault", false⟩]⟩⟩, some (percent 2)⟩,
      ⟨⟨⟨[⟨"alarm", false⟩], [⟨"fault", false⟩]⟩⟩, some (percent 98)⟩]⟩⟩]
  edges := [⟨"fault", "alarm"⟩]
  evidence := []
  listeners := ⟨0, []⟩

/-- What defines its variables. -/
def alarmVariables : List Operation := [.newVariable "fault" none, .newVariable "alarm" none]

/-- What fills its tables: each row with its counterpart. -/
def alarmEntries : List Operation := [
  .putDecimal "fault" ⟨⟨[⟨"fault", true⟩], []⟩⟩ (percent 1),
  .putDecimal "alarm" ⟨⟨[⟨"alarm", true⟩], [⟨"fault", true⟩]⟩⟩ (percent 95),
  .putDecimal "alarm" ⟨⟨[⟨"alarm", true⟩], [⟨"fault", false⟩]⟩⟩ (percent 2)]

/-- What builds it. -/
def alarmOperations : List Operation :=
  alarmVariables ++ alarm.edges.map .addEdge ++ alarmEntries

/-- One edge closes no cycle, unless it is a loop. -/
theorem alarm_acyclic : Graph.Acyclic alarm.edges :=
  Graph.acyclic_nil.append (by simp [Graph.reaches, Graph.search, Graph.children])

theorem run_alarmOperations : (Operation.run alarmOperations ⟨empty, []⟩).network = alarm := by
  obtain ⟨-, -, hlinked⟩ := run_addEdge alarm.edges (Operation.run alarmVariables ⟨empty, []⟩)
    (by decide +kernel) (by decide +kernel) alarm_acyclic
  unfold alarmOperations
  rw [Operation.run_append, Operation.run_append]
  refine (Operation.run_congr (show _ = (⟨_, []⟩ : Session).network from hlinked) _).trans ?_
  decide +kernel

theorem alarm_reachable : alarm.Reachable := ⟨alarmOperations, run_alarmOperations⟩

theorem alarm_ready : alarm.isReady = true := by decide

end Network

end BeliefNet
