/-!
# Directed graphs

A graph is the list of its edges in the order in which they were added.

* `Graph.parents` and `Graph.children` are the neighbours of a vertex.
* `Graph.reaches` is a depth-first search along the edges. It visits a vertex
  once, so it ends on every graph.
-/

namespace BeliefNet

/-- An edge from `parent` to `child`. -/
structure Edge where
  parent : String
  child : String
  deriving DecidableEq, Repr

namespace Graph

/-- The parents of a vertex, in the order of their edges. -/
def parents (edges : List Edge) (id : String) : List String :=
  (edges.filter (·.child == id)).map (·.parent)

/-- The children of a vertex, in the order of their edges. -/
def children (edges : List Edge) (id : String) : List String :=
  (edges.filter (·.parent == id)).map (·.child)

/-- The edges that start at a vertex not yet visited. -/
def unexplored (edges : List Edge) (visited : List String) : List Edge :=
  edges.filter fun e => decide (e.parent ∉ visited)

theorem length_unexplored_cons_le (edges : List Edge) (visited : List String) (id : String) :
    (unexplored edges (id :: visited)).length ≤ (unexplored edges visited).length := by
  unfold unexplored
  rw [← List.countP_eq_length_filter, ← List.countP_eq_length_filter]
  exact List.countP_mono_left fun e _ h => by
    simp only [List.mem_cons, not_or, decide_eq_true_eq] at h ⊢
    exact h.2

/-- Visiting a vertex with children leaves fewer edges to explore. -/
theorem length_unexplored_cons_lt {edges : List Edge} {visited : List String} {id : String}
    (hnew : id ∉ visited) (hchildren : children edges id ≠ []) :
    (unexplored edges (id :: visited)).length < (unexplored edges visited).length := by
  have hsplit : unexplored edges (id :: visited) =
      (unexplored edges visited).filter fun e => decide (e.parent ≠ id) := by
    unfold unexplored
    rw [List.filter_filter]
    congr 1
    funext e
    simp [not_or]
  obtain ⟨child, hchild⟩ := List.exists_mem_of_ne_nil _ hchildren
  obtain ⟨e, he, _⟩ := List.mem_map.1 hchild
  obtain ⟨hmem, hparent⟩ := List.mem_filter.1 he
  have hparent : e.parent = id := by simpa using hparent
  rw [hsplit]
  refine List.length_filter_lt_length_iff_exists.2 ⟨e, ?_, by simp [hparent]⟩
  exact List.mem_filter.2 ⟨hmem, by simpa [hparent] using hnew⟩

/-- Whether the search, with these vertices still to visit, finds the
target. -/
def search (edges : List Edge) (target : String) : List String → List String → Bool
  | [], _ => false
  | id :: rest, visited =>
    if id = target then
      true
    else if id ∈ visited then
      search edges target rest visited
    else
      search edges target (children edges id ++ rest) (id :: visited)
termination_by stack visited => ((unexplored edges visited).length, stack.length)
decreasing_by
  · exact Prod.Lex.right _ (Nat.lt_succ_self _)
  · rename_i hnew
    by_cases hchildren : children edges id = []
    · rcases Nat.lt_or_eq_of_le (length_unexplored_cons_le edges visited id) with hlt | heq
      · exact Prod.Lex.left _ _ hlt
      · rw [hchildren, List.nil_append, heq]
        exact Prod.Lex.right _ (Nat.lt_succ_self _)
    · exact Prod.Lex.left _ _ (length_unexplored_cons_lt hnew hchildren)

/-- Whether a path of any length leads from one vertex to another. -/
def reaches (edges : List Edge) (source target : String) : Bool :=
  search edges target [source] []

end Graph

end BeliefNet
