import Mathlib
import BeliefNet.Graph

/-!
# The search for a path

The depth-first search is a loop: each turn takes a vertex from the stack, and
`Graph.Searches` is the relation of its runs. Every turn takes one vertex away and
replaces it by edges that were unexplored until then, so on every graph, with
cycles or without, the loop ends behind at most one turn more than there are edges
(`Graph.exists_searches`), and what it answers is whether there is a path
(`Graph.Searches.answer_iff`). The order in which the children of a vertex are
taken makes no difference; `Graph.search` takes them as they are listed
(`Graph.reaches_eq_true_iff`).
-/

namespace BeliefNet

namespace Graph

variable {order : List String → List String} {edges : List Edge} {source target id : String}
  {stack visited rest : List String} {turns : Nat} {answer : Bool}

/-- There is an edge from the first vertex to the second. -/
def Adjacent (edges : List Edge) (parent child : String) : Prop := ⟨parent, child⟩ ∈ edges

theorem mem_children {parent child : String} :
    child ∈ children edges parent ↔ Adjacent edges parent child := by
  unfold children Adjacent
  simp only [List.mem_map, List.mem_filter, beq_iff_eq]
  constructor
  · rintro ⟨e, ⟨hmem, rfl⟩, rfl⟩
    exact hmem
  · intro hmem
    exact ⟨⟨parent, child⟩, ⟨hmem, rfl⟩, rfl⟩

theorem mem_parents {parent child : String} :
    parent ∈ parents edges child ↔ Adjacent edges parent child := by
  unfold parents Adjacent
  simp only [List.mem_map, List.mem_filter, beq_iff_eq]
  constructor
  · rintro ⟨e, ⟨hmem, rfl⟩, rfl⟩
    exact hmem
  · intro hmem
    exact ⟨⟨parent, child⟩, ⟨hmem, rfl⟩, rfl⟩

/-- The runs of the search: with these vertices on the stack and these visited, it
ends behind so many turns with this answer. The children of a vertex go onto the
stack in this order. -/
inductive Searches (order : List String → List String) (edges : List Edge) (target : String) :
    List String → List String → Nat → Bool → Prop where
  | exhausted {visited : List String} : Searches order edges target [] visited 0 false
  | found {rest visited : List String} : Searches order edges target (target :: rest) visited 1 true
  | again {id : String} {rest visited : List String} {turns : Nat} {answer : Bool}
      (hne : id ≠ target) (hseen : id ∈ visited)
      (hrest : Searches order edges target rest visited turns answer) :
      Searches order edges target (id :: rest) visited (turns + 1) answer
  | first {id : String} {rest visited : List String} {turns : Nat} {answer : Bool}
      (hne : id ≠ target) (hnew : id ∉ visited)
      (hrest : Searches order edges target (order (children edges id) ++ rest) (id :: visited)
        turns answer) :
      Searches order edges target (id :: rest) visited (turns + 1) answer

/-- A run that takes the children as they are listed answers what the search does. -/
theorem Searches.eq_search
    (h : Searches (fun ids => ids) edges target stack visited turns answer) :
    answer = search edges target stack visited := by
  induction h with
  | exhausted => rw [search]
  | found => rw [search, if_pos rfl]
  | again hne hseen _ ih => rw [search, if_neg hne, if_pos hseen, ih]
  | first hne hnew _ ih => rw [search, if_neg hne, if_neg hnew, ih]

/-- The children of a new vertex are the edges that its visit explores. -/
theorem length_children_add (hnew : id ∉ visited) :
    (children edges id).length + (unexplored edges (id :: visited)).length =
      (unexplored edges visited).length := by
  unfold children unexplored
  rw [List.length_map]
  simp only [← List.countP_eq_length_filter]
  induction edges with
  | nil => rfl
  | cons e edges ih =>
    simp only [List.countP_cons, List.mem_cons, not_or, beq_iff_eq, decide_eq_true_eq] at ih ⊢
    by_cases hid : e.parent = id
    · rw [if_pos hid, if_neg fun h => h.1 hid, if_pos (hid ▸ hnew)]
      omega
    · by_cases hseen : e.parent ∈ visited
      · rw [if_neg hid, if_neg fun h => h.2 hseen, if_neg fun h => h hseen]
        omega
      · rw [if_neg hid, if_pos ⟨hid, hseen⟩, if_pos hseen]
        omega

/-- The search comes to its end, whatever the graph: a turn takes a vertex from the
stack, and puts onto it one for each edge that it explores. -/
theorem exists_searches (horder : ∀ ids, (order ids).Perm ids) (edges : List Edge)
    (target : String) {size : Nat} {stack visited : List String}
    (hsize : stack.length + (unexplored edges visited).length = size) :
    ∃ turns ≤ size, ∃ answer, Searches order edges target stack visited turns answer := by
  induction size generalizing stack visited with
  | zero =>
    obtain rfl : stack = [] := List.eq_nil_of_length_eq_zero (by omega)
    exact ⟨0, le_rfl, false, .exhausted⟩
  | succ size ih =>
    cases stack with
    | nil => exact ⟨0, Nat.zero_le _, false, .exhausted⟩
    | cons id rest =>
      rw [List.length_cons] at hsize
      by_cases hfound : id = target
      · rw [hfound]
        exact ⟨1, by omega, true, .found⟩
      · by_cases hseen : id ∈ visited
        · have hnext : rest.length + (unexplored edges visited).length = size := by omega
          obtain ⟨turns, hturns, answer, hrun⟩ := ih hnext
          exact ⟨turns + 1, by omega, answer, .again hfound hseen hrun⟩
        · have hexplored : (children edges id).length + (unexplored edges (id :: visited)).length =
              (unexplored edges visited).length := length_children_add hseen
          have hnext : (order (children edges id) ++ rest).length +
              (unexplored edges (id :: visited)).length = size := by
            rw [List.length_append, (horder _).length_eq]
            omega
          obtain ⟨turns, hturns, answer, hrun⟩ := ih hnext
          exact ⟨turns + 1, by omega, answer, .first hfound hseen hrun⟩

/-! ## What it answers -/

/-- The invariant of the search: the children of a visited vertex are visited
or on the stack, and the target is not visited. -/
structure Frontier (edges : List Edge) (target : String) (stack visited : List String) :
    Prop where
  target : target ∉ visited
  children : ∀ parent ∈ visited, ∀ child, Adjacent edges parent child →
    child ∈ visited ∨ child ∈ stack

namespace Frontier

/-- A visited vertex on the stack can be left out. -/
theorem again (h : Frontier edges target (id :: rest) visited) (hseen : id ∈ visited) :
    Frontier edges target rest visited := by
  refine ⟨h.target, fun parent hparent child hedge => ?_⟩
  rcases h.children parent hparent child hedge with hvisited | hstack
  · exact .inl hvisited
  · rcases List.mem_cons.1 hstack with rfl | hrest
    · exact .inl hseen
    · exact .inr hrest

/-- A new vertex is visited, and its children take its place on the stack. -/
theorem first (h : Frontier edges target (id :: rest) visited)
    (horder : ∀ ids, (order ids).Perm ids) (hne : id ≠ target) :
    Frontier edges target (order (Graph.children edges id) ++ rest) (id :: visited) := by
  refine ⟨?_, fun parent hparent child hedge => ?_⟩
  · rw [List.mem_cons, not_or]
    exact ⟨Ne.symm hne, h.target⟩
  · rcases List.mem_cons.1 hparent with rfl | hparent
    · exact .inr (List.mem_append_left _ ((horder _).mem_iff.2 (mem_children.2 hedge)))
    · rcases h.children parent hparent child hedge with hvisited | hstack
      · exact .inl (List.mem_cons_of_mem _ hvisited)
      · rcases List.mem_cons.1 hstack with rfl | hrest
        · exact .inl List.mem_cons_self
        · exact .inr (List.mem_append_right _ hrest)

/-- Whoever leaves the visited vertices comes by the stack. -/
theorem exists_exit (h : Frontier edges target stack visited) (hid : id ∈ visited)
    (hpath : Relation.ReflTransGen (Adjacent edges) id target) :
    ∃ other ∈ stack, Relation.ReflTransGen (Adjacent edges) other target := by
  induction hpath using Relation.ReflTransGen.head_induction_on with
  | refl => exact absurd hid h.target
  | head hedge hrest ih =>
    rcases h.children _ hid _ hedge with hvisited | hstack
    · exact ih hvisited
    · exact ⟨_, hstack, hrest⟩

end Frontier

/-- A run answers whether a path leads from the stack to the target. -/
theorem Searches.answer_iff (h : Searches order edges target stack visited turns answer)
    (horder : ∀ ids, (order ids).Perm ids) (hfrontier : Frontier edges target stack visited) :
    answer = true ↔ ∃ id ∈ stack, Relation.ReflTransGen (Adjacent edges) id target := by
  induction h with
  | exhausted => simp
  | found => exact iff_of_true rfl ⟨target, List.mem_cons_self, .refl⟩
  | again hne hseen _ ih =>
    have hfrontier' := hfrontier.again hseen
    rw [ih hfrontier']
    constructor
    · rintro ⟨other, hrest, hpath⟩
      exact ⟨other, List.mem_cons_of_mem _ hrest, hpath⟩
    · rintro ⟨other, hstack, hpath⟩
      rcases List.mem_cons.1 hstack with rfl | hrest
      · exact hfrontier'.exists_exit hseen hpath
      · exact ⟨other, hrest, hpath⟩
  | @first id rest _ _ _ hne _ _ ih =>
    rw [ih (hfrontier.first horder hne)]
    constructor
    · rintro ⟨other, hstack, hpath⟩
      rcases List.mem_append.1 hstack with hchild | hrest
      · have hedge := mem_children.1 ((horder _).mem_iff.1 hchild)
        exact ⟨id, List.mem_cons_self, .head hedge hpath⟩
      · exact ⟨other, List.mem_cons_of_mem _ hrest, hpath⟩
    · rintro ⟨other, hstack, hpath⟩
      rcases List.mem_cons.1 hstack with rfl | hrest
      · rcases hpath.cases_head with rfl | ⟨child, hedge, hpath⟩
        · exact absurd rfl hne
        · have hchild := (horder _).mem_iff.2 (mem_children.2 hedge)
          exact ⟨child, List.mem_append_left _ hchild, hpath⟩
      · exact ⟨other, List.mem_append_right _ hrest, hpath⟩

/-- A search that starts at one vertex has visited nothing. -/
theorem frontier_singleton (edges : List Edge) (source target : String) :
    Frontier edges target [source] [] :=
  ⟨List.not_mem_nil, fun _ hparent => absurd hparent List.not_mem_nil⟩

/-- The search finds a path if and only if there is one. -/
theorem reaches_eq_true_iff :
    reaches edges source target = true ↔
      Relation.ReflTransGen (Adjacent edges) source target := by
  have horder : ∀ ids : List String, ids.Perm ids := List.Perm.refl
  obtain ⟨turns, -, answer, hrun⟩ := exists_searches horder edges target rfl
  rw [reaches, ← hrun.eq_search, hrun.answer_iff horder (frontier_singleton edges source target)]
  simp

/-- A search from one vertex answers whether a path leads to the target, in whatever
order it takes the children. -/
theorem Searches.answer_eq (h : Searches order edges target [source] [] turns answer)
    (horder : ∀ ids, (order ids).Perm ids) : answer = reaches edges source target := by
  rw [Bool.eq_iff_iff, h.answer_iff horder (frontier_singleton edges source target),
    reaches_eq_true_iff]
  simp

/-- It ends behind at most one turn more than there are edges. -/
theorem exists_searches_reaches (horder : ∀ ids, (order ids).Perm ids) (edges : List Edge)
    (source target : String) :
    ∃ turns ≤ edges.length + 1,
      Searches order edges target [source] [] turns (reaches edges source target) := by
  have hsize : [source].length + (unexplored edges []).length = edges.length + 1 := by
    simp [unexplored, Nat.add_comm]
  obtain ⟨turns, hturns, answer, hrun⟩ := exists_searches horder edges target hsize
  exact ⟨turns, hturns, hrun.answer_eq horder ▸ hrun⟩

end Graph

end BeliefNet
