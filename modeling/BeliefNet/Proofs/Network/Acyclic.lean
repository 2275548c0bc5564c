import Mathlib
import BeliefNet.Proofs.Network.Search

/-!
# Graphs without cycles

The depth-first search answers whether there is a path
(`Graph.reaches_eq_true_iff`), so an edge whose child does not reach its parent
closes no cycle (`Graph.Acyclic.append`).
-/

namespace BeliefNet

namespace Graph

variable {edges : List Edge}

/-- No path leads from a vertex back to it. -/
def Acyclic (edges : List Edge) : Prop := ∀ id, ¬Relation.TransGen (Adjacent edges) id id

/-! ## One edge more -/

theorem adjacent_append {e : Edge} {parent child : String} :
    Adjacent (edges ++ [e]) parent child ↔
      Adjacent edges parent child ∨ (parent = e.parent ∧ child = e.child) := by
  unfold Adjacent
  rw [List.mem_append, List.mem_singleton]
  constructor
  · rintro (hmem | rfl)
    · exact .inl hmem
    · exact .inr ⟨rfl, rfl⟩
  · rintro (hmem | ⟨rfl, rfl⟩)
    · exact .inl hmem
    · exact .inr rfl

/-- A path either avoids the new edge or leads to its parent and away from its
child. -/
theorem path_append {e : Edge} {a b : String}
    (h : Relation.TransGen (Adjacent (edges ++ [e])) a b) :
    Relation.TransGen (Adjacent edges) a b ∨
      (Relation.ReflTransGen (Adjacent edges) a e.parent ∧
        Relation.ReflTransGen (Adjacent edges) e.child b) := by
  induction h with
  | single hedge =>
    rcases adjacent_append.1 hedge with hold | ⟨rfl, rfl⟩
    · exact .inl (.single hold)
    · exact .inr ⟨.refl, .refl⟩
  | tail _ hedge ih =>
    rcases adjacent_append.1 hedge with hold | ⟨rfl, rfl⟩
    · rcases ih with hpath | ⟨hto, hfrom⟩
      · exact .inl (hpath.tail hold)
      · exact .inr ⟨hto, hfrom.tail hold⟩
    · rcases ih with hpath | ⟨hto, -⟩
      · exact .inr ⟨hpath.to_reflTransGen, .refl⟩
      · exact .inr ⟨hto, .refl⟩

theorem acyclic_nil : Acyclic [] := by
  intro id h
  obtain ⟨_, hedge, _⟩ := Relation.TransGen.head'_iff.1 h
  exact List.not_mem_nil hedge

/-- An edge whose child does not reach its parent closes no cycle. -/
theorem Acyclic.append {e : Edge} (h : Acyclic edges)
    (hreach : reaches edges e.child e.parent = false) : Acyclic (edges ++ [e]) := by
  intro id hcycle
  rcases path_append hcycle with hpath | ⟨hto, hfrom⟩
  · exact h id hpath
  · exact Bool.eq_false_iff.1 hreach (reaches_eq_true_iff.2 (hfrom.trans hto))

/-- Fewer edges close fewer cycles. -/
theorem Acyclic.subset {edges' : List Edge} (h : Acyclic edges) (hsub : edges' ⊆ edges) :
    Acyclic edges' := fun id hcycle =>
  h id (Relation.TransGen.mono (fun _ _ hedge => hsub hedge) id id hcycle)

/-- No path leads back along an edge of a graph without cycles. -/
theorem Acyclic.reaches_eq_false {e : Edge} (h : Acyclic (edges ++ [e])) :
    reaches edges e.child e.parent = false := by
  rw [Bool.eq_false_iff]
  intro hreach
  have hpath : Relation.ReflTransGen (Adjacent (edges ++ [e])) e.child e.parent :=
    Relation.ReflTransGen.mono (fun _ _ hedge => adjacent_append.2 (.inl hedge)) _ _
      (reaches_eq_true_iff.1 hreach)
  exact h e.parent (.head' (adjacent_append.2 (.inr ⟨rfl, rfl⟩)) hpath)

/-- Among finitely many vertices of a graph without cycles there is one without
a child among them. -/
theorem Acyclic.exists_sink (h : Acyclic edges) {ids : Finset String} (hids : ids.Nonempty) :
    ∃ id ∈ ids, ∀ other ∈ ids, ¬Adjacent edges id other := by
  -- with descendants below, a least vertex has none of its children among them
  let below (a b : ids) : Prop := Relation.TransGen (Adjacent edges) b a
  have hirrefl : Std.Irrefl below := ⟨fun a => h a⟩
  have htrans : IsTrans ids below := ⟨fun _ _ _ hab hbc => hbc.trans hab⟩
  obtain ⟨start, hstart⟩ := hids
  obtain ⟨⟨id, hid⟩, -, hmin⟩ :=
    (Finite.wellFounded_of_trans_of_irrefl below).has_min Set.univ ⟨⟨start, hstart⟩, trivial⟩
  exact ⟨id, hid, fun other hother hedge => hmin ⟨other, hother⟩ trivial (.single hedge)⟩

end Graph

end BeliefNet
