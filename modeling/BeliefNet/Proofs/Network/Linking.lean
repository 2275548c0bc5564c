import Mathlib
import BeliefNet.Proofs.Network.WellFormed

/-!
# Which edges are accepted

Before an edge is added, the ends have to be defined, and a depth-first search asks
whether the child leads back to the parent; then the edge has to be new. So it is
accepted if and only if its ends are defined, it closes no cycle and it is not there
yet; otherwise there is one error, which says why (`addEdge_legal`).
-/

namespace BeliefNet

namespace Network

variable {n : Network} {id : String} {edge : Edge}

theorem require_of_not_contains (h : n.contains id = false) :
    n.require id = .error (.undefinedVariable id) := by
  unfold require
  cases hfind : n.find? id with
  | none => rfl
  | some v =>
    obtain ⟨hmem, rfl⟩ := mem_of_find? hfind
    rw [contains_iff.2 (List.mem_map_of_mem hmem)] at h
    cases h

/-- The child of an edge has to be defined. -/
theorem checkEdge_of_child (hchild : n.contains edge.child = false) :
    n.checkEdge edge = .error (.undefinedVariable edge.child) := by
  unfold checkEdge
  rw [require_of_not_contains hchild]
  rfl

/-- And then its parent. -/
theorem checkEdge_of_parent (hchild : n.contains edge.child = true)
    (hparent : n.contains edge.parent = false) :
    n.checkEdge edge = .error (.undefinedVariable edge.parent) := by
  obtain ⟨v, hv⟩ := exists_require hchild
  unfold checkEdge
  rw [hv, require_of_not_contains hparent]
  rfl

/-- Between defined variables, a cycle is refused before an edge that is not
new. -/
theorem checkEdge_of_defined (hchild : n.contains edge.child = true)
    (hparent : n.contains edge.parent = true) :
    n.checkEdge edge =
      if Graph.reaches n.edges edge.child edge.parent then
        .error (.cycle edge.parent edge.child)
      else if edge ∈ n.edges then
        .error (.duplicateEdge edge.parent edge.child)
      else
        .ok () := by
  obtain ⟨child, hchild⟩ := exists_require hchild
  obtain ⟨parent, hparent⟩ := exists_require hparent
  -- a loop is a path without edges
  have hloop : (decide (edge.parent = edge.child) ||
      Graph.reaches n.edges edge.child edge.parent) =
        Graph.reaches n.edges edge.child edge.parent := by
    rw [Bool.or_eq_right_iff_imp, decide_eq_true_eq]
    intro heq
    rw [Graph.reaches_eq_true_iff, heq]
  unfold checkEdge
  rw [hchild, hparent]
  simp only [bind, Except.bind, hloop]
  split
  · rfl
  · split
    · rfl
    · rfl

/-- Whether an edge is accepted depends on its check alone. -/
theorem Operation.outcome_addEdge_fst (s : Session) (edge : Edge) :
    (Operation.outcome s (.addEdge edge)).1 = s.network.checkEdge edge := by
  show (withoutResult (Network.addEdge edge) s).1 = _
  exact fst_withoutResult_check_bind (fun _ _ => rfl) s

/-- An edge that passes its check stands behind the others. -/
theorem Operation.edges_step_addEdge {s : Session} (h : s.network.checkEdge edge = .ok ()) :
    (Operation.step s (.addEdge edge)).network.edges = s.network.edges ++ [edge] := by
  unfold Operation.step
  rw [Operation.outcome_addEdge h]
  rfl

/-- A vertex reaches another if it is the other, or a path of one edge or more
leads there. -/
theorem reaches_iff_eq_or_transGen {source target : String} :
    Graph.reaches n.edges source target = true ↔
      target = source ∨
        Relation.TransGen (fun parent child => child ∈ n.children parent) source target := by
  have hadjacent : (fun parent child => child ∈ n.children parent) = Graph.Adjacent n.edges := by
    funext parent child
    exact propext Graph.mem_children
  rw [Graph.reaches_eq_true_iff, hadjacent, Relation.reflTransGen_iff_eq_or_transGen]

/-- Exactly the legal edges are accepted. The ends of an edge have to be defined;
then it must not be a loop, and no path of any length may lead from its child to its
parent; then it has to be new. An edge that meets all this is added, and the first
condition that fails gives the error. The search for a path ends on every graph,
behind at most one turn more than there are edges, and it answers whether there is
one, in whatever order it takes the children of a vertex. -/
theorem addEdge_legal (s : Session) (parent child : String) :
    (s.network.contains child = false →
      (Operation.outcome s (.addEdge ⟨parent, child⟩)).1 = .error (.undefinedVariable child)) ∧
    (s.network.contains child = true → s.network.contains parent = false →
      (Operation.outcome s (.addEdge ⟨parent, child⟩)).1 = .error (.undefinedVariable parent)) ∧
    (s.network.contains child = true → s.network.contains parent = true →
      (parent = child ∨ Relation.TransGen (fun a b => b ∈ s.network.children a) child parent →
        (Operation.outcome s (.addEdge ⟨parent, child⟩)).1 = .error (.cycle parent child)) ∧
      (¬(parent = child ∨ Relation.TransGen (fun a b => b ∈ s.network.children a) child parent) →
        (parent ∈ s.network.parents child →
          (Operation.outcome s (.addEdge ⟨parent, child⟩)).1 =
            .error (.duplicateEdge parent child)) ∧
        (parent ∉ s.network.parents child →
          (Operation.outcome s (.addEdge ⟨parent, child⟩)).1 = .ok () ∧
          (Operation.step s (.addEdge ⟨parent, child⟩)).network.edges =
            s.network.edges ++ [⟨parent, child⟩]))) ∧
    ((Error.undefinedVariable child).kind = .invalidArgument ∧
      (Error.undefinedVariable parent).kind = .invalidArgument ∧
      (Error.cycle parent child).kind = .cycle ∧
      (Error.duplicateEdge parent child).kind = .invalidArgument) ∧
    (∀ edges source target,
      (∀ order : List String → List String, (∀ ids, (order ids).Perm ids) →
        (∃ turns ≤ edges.length + 1,
          Graph.Searches order edges target [source] [] turns
            (Graph.reaches edges source target)) ∧
        ∀ turns answer, Graph.Searches order edges target [source] [] turns answer →
          answer = Graph.reaches edges source target) ∧
      (Graph.reaches edges source target = true ↔
        Relation.ReflTransGen (Graph.Adjacent edges) source target)) := by
  rw [Operation.outcome_addEdge_fst]
  refine ⟨fun hchild => checkEdge_of_child hchild,
    fun hchild hparent => checkEdge_of_parent hchild hparent, ?_, ⟨rfl, rfl, rfl, rfl⟩, ?_⟩
  · intro hchild hparent
    have hcheck : s.network.checkEdge ⟨parent, child⟩ = _ := checkEdge_of_defined hchild hparent
    rw [← reaches_iff_eq_or_transGen]
    refine ⟨fun hcycle => hcheck.trans (if_pos hcycle), fun hcycle => ?_⟩
    rw [if_neg hcycle] at hcheck
    refine ⟨fun hmem => hcheck.trans (if_pos (Graph.mem_parents.1 hmem)), fun hnew => ?_⟩
    have hnew' : (⟨parent, child⟩ : Edge) ∉ s.network.edges :=
      fun hmem => hnew (Graph.mem_parents.2 hmem)
    rw [if_neg hnew'] at hcheck
    exact ⟨hcheck, Operation.edges_step_addEdge hcheck⟩
  · intro edges source target
    refine ⟨fun order horder => ⟨?_, fun turns answer hrun => hrun.answer_eq horder⟩,
      Graph.reaches_eq_true_iff⟩
    exact Graph.exists_searches_reaches horder edges source target

/-- No smoke is defined; an edge back from the alarm closes a cycle; the edge to it is
there already; and it can be added as long as it is not. -/
theorem alarm_addEdge_legal :
    (Operation.outcome ⟨alarm, []⟩ (.addEdge ⟨"fault", "smoke"⟩)).1 =
      .error (.undefinedVariable "smoke") ∧
    (Operation.outcome ⟨alarm, []⟩ (.addEdge ⟨"alarm", "fault"⟩)).1 =
      .error (.cycle "alarm" "fault") ∧
    (Operation.outcome ⟨alarm, []⟩ (.addEdge ⟨"fault", "alarm"⟩)).1 =
      .error (.duplicateEdge "fault" "alarm") ∧
    (Operation.outcome (Operation.run alarmVariables ⟨empty, []⟩)
      (.addEdge ⟨"fault", "alarm"⟩)).1 = .ok () := by
  -- no edge leaves the alarm
  have hacyclic : ∀ n : Network, n.children "alarm" = [] →
      ¬("fault" = "alarm" ∨ Relation.TransGen (fun a b => b ∈ n.children a) "alarm" "fault") := by
    rintro n hleaf (hloop | hpath)
    · exact absurd hloop (by decide)
    · obtain ⟨child, hchild, -⟩ := Relation.TransGen.head'_iff.1 hpath
      rw [hleaf] at hchild
      exact List.not_mem_nil hchild
  refine ⟨(addEdge_legal _ _ _).1 (by decide), ?_, ?_, ?_⟩
  · exact ((addEdge_legal _ _ _).2.2.1 (by decide) (by decide)).1 (.inr (.single (by decide)))
  · exact (((addEdge_legal _ _ _).2.2.1 (by decide) (by decide)).2
      (hacyclic alarm (by decide))).1 (by decide)
  · exact ((((addEdge_legal _ _ _).2.2.1 (by decide +kernel) (by decide +kernel)).2
      (hacyclic _ (by decide +kernel))).2 (by decide +kernel)).1

end Network

end BeliefNet
