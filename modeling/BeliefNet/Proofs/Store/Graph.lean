import Mathlib
import BeliefNet.Proofs.Network.History
import BeliefNet.Proofs.Store.Run

/-!
# The graph that a run leaves behind

The index and the two maps of a stored network are written at different times, each
for itself. What keeps them together is that all of them belong to the same list of
edges and the same list of variables (`Store.Represents`), and these are what the
operations that succeeded have added (`Store.links`, `Store.defined`). So the maps are
mirror images of each other after every run, and their edges close no cycle
(`Store.build_graph`).
-/

namespace BeliefNet

namespace Store

open Network (Operation)

/-- The network that some operations build, failing ones included. -/
def build (ops : List Operation) : Store := (run ops initial).store

/-- The edges of the operations that succeed, in order. -/
def links (ops : List Operation) : List Edge := (accepted initial ops).filterMap (·.link?)

/-- The ids of the variables that the operations define, in order. -/
def defined (ops : List Operation) : List String :=
  (accepted initial ops).filterMap (·.definition?)

theorem build_represents (ops : List Operation) : (build ops).Represents (Network.build ops) :=
  (run_follows initial_follows ops).2.store

theorem links_eq (ops : List Operation) : links ops = (Network.build ops).edges := by
  rw [(Network.build_reflects ops).edges]
  unfold links
  rw [(run_follows initial_follows ops).1]
  exact (Operation.filterMap_history Operation.deed_link _ ops).symm

theorem defined_eq (ops : List Operation) :
    defined ops = (Network.build ops).nodes.map (·.id) := by
  rw [(Network.build_reflects ops).ids]
  unfold defined
  rw [(run_follows initial_follows ops).1]
  exact (Operation.filterMap_history Operation.deed_definition _ ops).symm

namespace Represents

variable {s : Store} {n : Network}

/-- A defined variable is found, and no other has its id. -/
theorem exists_unique_find? (h : s.Represents n) {id : String} (hid : s.contains id = true) :
    ∃ v, s.find? id = some v ∧ v ∈ s.nodes ∧ v.id = id ∧ ∀ u ∈ s.nodes, u.id = id → u = v := by
  rw [h.contains_eq, Network.contains_iff, ← h.map_id] at hid
  obtain ⟨v, hv, rfl⟩ := List.mem_map.1 hid
  have hunique : ∀ u ∈ s.nodes, u.id = v.id → u = v := fun u hu heq =>
    List.inj_on_of_nodup_map h.nodup_ids hu hv heq
  refine ⟨v, ?_, hv, rfl, hunique⟩
  rw [h.find?_eq]
  cases hfind : s.nodes.find? (·.id == v.id) with
  | none => exact absurd (beq_self_eq_true v.id) (List.find?_eq_none.1 hfind v hv)
  | some u =>
    have hu : u.id = v.id := by simpa using List.find?_some hfind
    rw [hunique u (List.mem_of_find?_eq_some hfind) hu]

/-- Each map is read off the edges, so the maps are mirror images. -/
theorem mem_parents_iff (h : s.Represents n) (parent child : String) :
    parent ∈ s.parents child ↔ child ∈ s.children parent := by
  rw [h.parents, h.children]
  exact Graph.mem_parents.trans Graph.mem_children.symm

/-- A cycle of parents would be one of the edges. -/
theorem acyclic (h : s.Represents n) (id : String) :
    ¬Relation.TransGen (fun parent child => parent ∈ s.parents child) id id := by
  intro hcycle
  have hsub : (fun parent child => parent ∈ s.parents child) ≤ Graph.Adjacent n.edges := by
    intro parent child hparent
    rw [h.parents] at hparent
    exact Graph.mem_parents.1 hparent
  exact h.wellFormed.acyclic id (Relation.TransGen.mono hsub id id hcycle)

theorem edges_perm (h : s.Represents n) : s.edges.Perm n.edges := by
  rw [h.edges_eq]
  exact h.wellFormed.edgesByChild_perm

end Represents

/-- In every state that a run can reach the parent relation has no cycle, edges join
defined variables, and parents, children and edges are those of the edges that were
accepted, in order and without repetition. A defined variable is found by its id, and
is the only one with it. -/
theorem build_graph (ops : List Operation) :
    (∀ id, ¬Relation.TransGen (fun parent child => parent ∈ (build ops).parents child) id id) ∧
    (∀ parent child, parent ∈ (build ops).parents child →
      (build ops).contains parent = true ∧ (build ops).contains child = true) ∧
    (∀ id, (build ops).parents id = ((links ops).filter (·.child == id)).map (·.parent) ∧
      (build ops).children id = ((links ops).filter (·.parent == id)).map (·.child)) ∧
    (∀ parent child, parent ∈ (build ops).parents child ↔ child ∈ (build ops).children parent) ∧
    (∀ id, ((build ops).parents id).Nodup ∧ ((build ops).children id).Nodup) ∧
    ((build ops).edges.Perm (links ops) ∧ (build ops).edges.Nodup) ∧
    (∀ id, (build ops).contains id = true ↔ id ∈ defined ops) ∧
    (∀ id, (build ops).contains id = true → ∃ v, (build ops).find? id = some v ∧
      v ∈ (build ops).nodes ∧ v.id = id ∧ ∀ u ∈ (build ops).nodes, u.id = id → u = v) := by
  have h := build_represents ops
  refine ⟨h.acyclic, ?_, ?_, h.mem_parents_iff, ?_, ?_, ?_, fun id => h.exists_unique_find?⟩
  · intro parent child hparent
    rw [h.parents] at hparent
    rw [h.contains_eq]
    exact h.wellFormed.defined _ (Graph.mem_parents.1 hparent)
  · intro id
    rw [links_eq]
    exact ⟨h.parents id, h.children id⟩
  · intro id
    rw [h.parents, h.children]
    exact ⟨h.wellFormed.nodup_parents id, h.wellFormed.nodup_children id⟩
  · rw [links_eq]
    exact ⟨h.edges_perm, h.edges_perm.nodup_iff.2 h.wellFormed.nodup_edges⟩
  · intro id
    rw [h.contains_eq, Network.contains_iff, defined_eq]

end Store

end BeliefNet
