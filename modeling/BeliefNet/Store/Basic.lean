import BeliefNet.Network.Basic
import BeliefNet.Store.Table

/-!
# Networks as they are stored

A stored network has its variables in a list and a hash map from ids to places in it.
Its edges are in two hash maps, one from each child to its parents and one from each
parent to its children. The maps are written one after the other, so nothing but the
order of the writing keeps them together; that they belong together is an invariant of
the operations.

* `Store.find?` looks up a variable.
* `Store.reaches` searches the edges, from parents to children.
-/

namespace BeliefNet

/-- A variable with its stored table. -/
structure Node where
  /-- The name in queries. -/
  id : String
  /-- The name for readers. -/
  label : String
  table : TableStore

structure Store where
  /-- In the order of their definition. -/
  nodes : List Node
  /-- Where in the list the variable with an id stands. -/
  index : Std.HashMap String Nat
  /-- The parents of each child, in the order in which the edges were added. -/
  parentsByChild : Std.HashMap String (List String)
  /-- The children of each parent, in the order in which the edges were added. -/
  childrenByParent : Std.HashMap String (List String)
  /-- One term for each observed variable, in the order of the ids. -/
  evidence : List Term
  listeners : Listeners

/-- Which neighbours of a variable are meant. -/
inductive Direction where
  | outgoing
  | incoming
  /-- The parents, and behind them the children. -/
  | both
  deriving DecidableEq, Repr

namespace Store

def empty : Store := ⟨[], ∅, ∅, ∅, [], ⟨0, []⟩⟩

/-- The place of the variable that has to be there. -/
def require (s : Store) (id : String) : Except Error Nat :=
  match s.index[id]? with
  | some position => .ok position
  | none => .error (.undefinedVariable id)

def contains (s : Store) (id : String) : Bool := s.index.contains id

def find? (s : Store) (id : String) : Option Node :=
  s.index[id]?.bind fun position => s.nodes[position]?

def table (s : Store) (id : String) : Except Error TableStore :=
  match s.find? id with
  | some v => .ok v.table
  | none => .error (.undefinedVariable id)

def parents (s : Store) (id : String) : List String := s.parentsByChild[id]?.getD []

def children (s : Store) (id : String) : List String := s.childrenByParent[id]?.getD []

def neighbours (s : Store) (id : String) (direction : Direction) : List Node :=
  let ids := match direction with
    | .outgoing => s.children id
    | .incoming => s.parents id
    | .both => s.parents id ++ s.children id
  ids.filterMap s.find?

/-- The edges grouped by child, the children in the order of their definition. -/
def edges (s : Store) : List Edge :=
  s.nodes.flatMap fun v => (s.parents v.id).map fun parent => ⟨parent, v.id⟩

def hasEvidence (s : Store) : Bool := !s.evidence.isEmpty

/-- All tables are complete. -/
def isReady (s : Store) : Bool := s.nodes.all (·.table.isComplete)

/-- Every table has to be complete. -/
def checkReady (s : Store) : Except Error Unit :=
  match s.nodes.find? fun v => !v.table.isComplete with
  | some v => .error (.incompleteTable v.id)
  | none => .ok ()

/-- Reads a query about variables of this network. -/
def parseQuery (s : Store) (text : String) : Except Error Query :=
  Query.read s.contains text

/-- Reads an expression in variables of this network. -/
def parse (s : Store) (text : String) : Except Error Expression :=
  Expression.read s.contains text

/-! ## The search for a path -/

/-- The parents whose children have not been put onto the stack. -/
def unvisited (s : Store) (visited : List String) : List String :=
  s.childrenByParent.keys.filter fun id => decide (id ∉ visited)

theorem length_unvisited_cons_le (s : Store) (visited : List String) (id : String) :
    (s.unvisited (id :: visited)).length ≤ (s.unvisited visited).length := by
  unfold unvisited
  rw [← List.countP_eq_length_filter, ← List.countP_eq_length_filter]
  exact List.countP_mono_left fun other _ h => by
    simp only [List.mem_cons, not_or, decide_eq_true_eq] at h ⊢
    exact h.2

/-- Visiting a parent for the first time leaves fewer of them. -/
theorem length_unvisited_cons_lt {s : Store} {visited : List String} {id : String}
    (hnew : id ∉ visited) (hchildren : s.children id ≠ []) :
    (s.unvisited (id :: visited)).length < (s.unvisited visited).length := by
  have hkey : id ∈ s.childrenByParent.keys := by
    rw [Std.HashMap.mem_keys]
    cases hmem : s.childrenByParent[id]? with
    | none =>
      unfold children at hchildren
      rw [hmem] at hchildren
      exact absurd rfl hchildren
    | some ids => exact Std.HashMap.mem_iff_isSome_getElem?.2 (by rw [hmem]; rfl)
  have hsplit : s.unvisited (id :: visited) =
      (s.unvisited visited).filter fun other => decide (other ≠ id) := by
    unfold unvisited
    rw [List.filter_filter]
    congr 1
    funext other
    simp [not_or]
  rw [hsplit]
  refine List.length_filter_lt_length_iff_exists.2 ⟨id, ?_, by simp⟩
  exact List.mem_filter.2 ⟨hkey, by simpa using hnew⟩

/-- Whether the search finds the target. The vertex on top of the stack is visited
next, and its last child before the others. -/
def search (s : Store) (target : String) : List String → List String → Bool
  | [], _ => false
  | id :: stack, visited =>
    if id = target then
      true
    else if id ∈ visited then
      s.search target stack visited
    else
      s.search target ((s.children id).reverse ++ stack) (id :: visited)
termination_by stack visited => ((s.unvisited visited).length, stack.length)
decreasing_by
  · exact Prod.Lex.right _ (Nat.lt_succ_self _)
  · rename_i hnew
    by_cases hchildren : s.children id = []
    · rcases Nat.lt_or_eq_of_le (s.length_unvisited_cons_le visited id) with hlt | heq
      · exact Prod.Lex.left _ _ hlt
      · rw [hchildren, List.reverse_nil, List.nil_append, heq]
        exact Prod.Lex.right _ (Nat.lt_succ_self _)
    · exact Prod.Lex.left _ _ (length_unvisited_cons_lt hnew hchildren)

/-- Whether a path of any length leads from one vertex to another. -/
def reaches (s : Store) (source target : String) : Bool := s.search target [source] []

end Store

end BeliefNet
