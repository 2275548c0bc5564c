import Mathlib
import BeliefNet.Store.Basic
import BeliefNet.Proofs.Network.WellFormed
import BeliefNet.Proofs.Query.Lookahead
import BeliefNet.Proofs.Store.Table

/-!
# The network that is stored

A store represents a network if its list of variables is that of the network, its index
has the place of every id, and its two maps have the parents and the children that the
edges of the network give (`Store.Represents`). The maps do not refer to each other;
both refer to the one list of edges. All that is read from the store is then what is
read from the network: variables and tables (`Represents.find?_view`), paths
(`Represents.reaches_eq`), the edges grouped by child (`Represents.edges_eq`), and
queries (`Represents.parseQuery_eq`).
-/

namespace BeliefNet

/-- The variable that is stored. -/
def Node.view (v : Node) : Variable := ⟨v.id, v.label, v.table.view⟩

@[simp]
theorem Node.table_view (v : Node) : v.view.table = v.table.view := rfl

namespace Store

structure Represents (s : Store) (n : Network) : Prop where
  nodes : s.nodes.map Node.view = n.nodes
  /-- The index has the place of each id, and no other key. -/
  index : ∀ id, s.index[id]? = (s.nodes.map (·.id)).idxOf? id
  parents : ∀ id, s.parents id = n.parents id
  children : ∀ id, s.children id = n.children id
  evidence : s.evidence = n.evidence
  listeners : s.listeners = n.listeners
  tables : ∀ v ∈ s.nodes, v.table.Sound v.id (n.parents v.id)
  wellFormed : n.WellFormed

namespace Represents

variable {s : Store} {n : Network} {id source target text : String} {v : Node}

theorem empty : Represents Store.empty Network.empty where
  nodes := rfl
  index id := Std.HashMap.getElem?_empty
  parents id := by simp [Store.empty, Store.parents, Network.parents, Network.empty, Graph.parents]
  children id := by
    simp [Store.empty, Store.children, Network.children, Network.empty, Graph.children]
  evidence := rfl
  listeners := rfl
  tables v hv := absurd hv List.not_mem_nil
  wellFormed := .empty

/-! ## Variables -/

theorem map_id (h : s.Represents n) : s.nodes.map (·.id) = n.nodes.map (·.id) := by
  rw [← h.nodes, List.map_map]
  rfl

theorem nodup_ids (h : s.Represents n) : (s.nodes.map (·.id)).Nodup := by
  rw [h.map_id]
  exact h.wellFormed.nodup_ids

/-- Looking up an id in the index finds the first variable that has it. -/
theorem find?_eq (h : s.Represents n) (id : String) : s.find? id = s.nodes.find? (·.id == id) := by
  unfold Store.find?
  rw [h.index, List.idxOf?, List.findIdx?_map, List.find?_eq_bind_findIdx?_getElem?]
  rfl

theorem find?_view (h : s.Represents n) (id : String) :
    (s.find? id).map Node.view = n.find? id := by
  unfold Network.find?
  rw [h.find?_eq, ← h.nodes, List.find?_map]
  rfl

theorem contains_eq (h : s.Represents n) : s.contains = n.contains := by
  funext id
  rw [Bool.eq_iff_iff, Network.contains_iff, ← h.map_id]
  unfold Store.contains
  rw [Std.HashMap.contains_eq_isSome_getElem?, h.index, List.isSome_idxOf?]

/-- An id is undefined on both sides, or its place is that of its variable. -/
theorem require_cases (h : s.Represents n) (id : String) :
    (s.require id = .error (.undefinedVariable id) ∧
      n.require id = .error (.undefinedVariable id)) ∨
    ∃ position v, s.require id = .ok position ∧ s.nodes[position]? = some v ∧ v.id = id ∧
      n.require id = .ok v.view := by
  have hfind := h.find?_view id
  unfold Store.find? at hfind
  unfold Store.require Network.require
  rw [← hfind]
  cases hposition : s.index[id]? with
  | none => exact .inl ⟨rfl, rfl⟩
  | some position =>
    right
    rw [h.index, List.idxOf?, List.findIdx?_eq_some_iff_getElem] at hposition
    obtain ⟨hlt, hid, -⟩ := hposition
    rw [List.length_map] at hlt
    rw [List.getElem_map, beq_iff_eq] at hid
    refine ⟨position, s.nodes[position], rfl, List.getElem?_eq_getElem hlt, hid, ?_⟩
    rw [Option.bind_some, List.getElem?_eq_getElem hlt]
    rfl

theorem table_view (h : s.Represents n) (id : String) :
    (s.table id).map TableStore.view = n.table id := by
  unfold Store.table Network.table Network.require
  rw [← h.find?_view]
  cases s.find? id with
  | none => rfl
  | some v => rfl

theorem parseQuery_eq (h : s.Represents n) (text : String) :
    s.parseQuery text = n.parseQuery text := by
  unfold Store.parseQuery Network.parseQuery
  rw [Query.read_eq_parse, h.contains_eq]

theorem parse_eq (h : s.Represents n) (text : String) : s.parse text = n.parse text := by
  unfold Store.parse Network.parse Expression.read Expression.parse
  rw [Query.read_eq_parse, h.contains_eq]

/-! ## Tables -/

theorem isComplete_view (h : s.Represents n) (hv : v ∈ s.nodes) :
    v.view.table.isComplete = v.table.isComplete :=
  (h.tables v hv).isComplete_view

theorem isReady_eq (h : s.Represents n) : s.isReady = n.isReady := by
  unfold Store.isReady Network.isReady
  rw [← h.nodes, List.all_map, Bool.eq_iff_iff, List.all_eq_true, List.all_eq_true]
  exact forall₂_congr fun v hv => by rw [Function.comp_apply, h.isComplete_view hv]

theorem checkReady_eq (h : s.Represents n) : s.checkReady = n.checkReady := by
  unfold Store.checkReady Network.checkReady
  have hfind : s.nodes.find? ((fun v : Variable => !v.table.isComplete) ∘ Node.view) =
      s.nodes.find? fun v => !v.table.isComplete :=
    List.find?_congr fun v hv => by rw [Function.comp_apply, h.isComplete_view hv]
  rw [← h.nodes, List.find?_map, hfind]
  cases s.nodes.find? fun v => !v.table.isComplete with
  | none => rfl
  | some v => rfl

/-! ## Edges -/

theorem edges_eq (h : s.Represents n) : s.edges = n.edgesByChild := by
  unfold Store.edges Network.edgesByChild
  rw [← h.nodes, List.flatMap_map]
  refine List.flatMap_congr fun v _ => ?_
  show (s.parents v.id).map _ = (n.parents v.id).map _
  rw [h.parents]
  rfl

/-- The search goes through the children in the order of the stack, and ends behind
some turns. -/
theorem exists_searches (h : s.Represents n) (target : String) (stack visited : List String) :
    ∃ turns, Graph.Searches List.reverse n.edges target stack visited turns
      (s.search target stack visited) := by
  induction stack, visited using Store.search.induct s target with
  | case1 visited =>
    rw [Store.search]
    exact ⟨0, .exhausted⟩
  | case2 stack visited =>
    rw [Store.search, if_pos rfl]
    exact ⟨1, .found⟩
  | case3 id stack visited hne hseen ih =>
    rw [Store.search, if_neg hne, if_pos hseen]
    obtain ⟨turns, hsearch⟩ := ih
    exact ⟨turns + 1, .again hne hseen hsearch⟩
  | case4 id stack visited hne hnew ih =>
    rw [Store.search, if_neg hne, if_neg hnew]
    rw [h.children] at ih ⊢
    obtain ⟨turns, hsearch⟩ := ih
    exact ⟨turns + 1, .first hne hnew hsearch⟩

theorem reaches_eq (h : s.Represents n) (source target : String) :
    s.reaches source target = Graph.reaches n.edges source target := by
  obtain ⟨turns, hsearch⟩ := h.exists_searches target [source] []
  exact hsearch.answer_eq List.reverse_perm

end Represents

end Store

end BeliefNet
