import BeliefNet.Graph
import BeliefNet.Table

/-!
# Networks

A network has boolean variables, each with a table, edges between them, and
evidence: values that have been observed. Listeners are registered with it and
are told about new edges and changes of the evidence; `Network.Update` does
that.

A network is what a `Store` stands for: the one list of edges in place of the two
maps in which it keeps them, and no index.
-/

namespace BeliefNet

structure Variable where
  /-- The name in queries. -/
  id : String
  /-- The name for readers. -/
  label : String
  table : Table
  deriving DecidableEq

/-- What a listener is told about. -/
inductive Scope where
  /-- Everything. -/
  | network
  /-- The edges to one variable. -/
  | variable (id : String)
  deriving DecidableEq, Repr

structure Registration where
  id : Nat
  scope : Scope
  deriving DecidableEq, Repr

/-- The registered listeners, in the order of their registration. -/
structure Listeners where
  /-- The id of the next listener; ids count up and are not used again. -/
  nextId : Nat
  registered : List Registration
  deriving DecidableEq, Repr

structure Network where
  /-- In the order of their definition. -/
  nodes : List Variable
  /-- In the order in which they were added. -/
  edges : List Edge
  /-- One term for each observed variable, in the order of the ids. -/
  evidence : List Term
  listeners : Listeners
  deriving DecidableEq

namespace Network

def empty : Network := ⟨[], [], [], ⟨0, []⟩⟩

def find? (n : Network) (id : String) : Option Variable :=
  n.nodes.find? (·.id == id)

def contains (n : Network) (id : String) : Bool :=
  n.nodes.any (·.id == id)

/-- The variable that has to be there. -/
def require (n : Network) (id : String) : Except Error Variable :=
  match n.find? id with
  | some v => .ok v
  | none => .error (.undefinedVariable id)

def table (n : Network) (id : String) : Except Error Table :=
  (n.require id).map (·.table)

def parents (n : Network) (id : String) : List String := Graph.parents n.edges id

def children (n : Network) (id : String) : List String := Graph.children n.edges id

/-- The edges grouped by child, the children in the order of their
definition. -/
def edgesByChild (n : Network) : List Edge :=
  n.nodes.flatMap fun v => (n.parents v.id).map fun parent => ⟨parent, v.id⟩

/-- All tables are complete. -/
def isReady (n : Network) : Bool := n.nodes.all (·.table.isComplete)

/-- Every table has to be complete. -/
def checkReady (n : Network) : Except Error Unit :=
  match n.nodes.find? fun v => !v.table.isComplete with
  | some v => .error (.incompleteTable v.id)
  | none => .ok ()

/-- Reads a query about variables of this network. -/
def parseQuery (n : Network) (text : String) : Except Error Query :=
  Query.parse n.contains text

/-- Reads an expression in variables of this network. -/
def parse (n : Network) (text : String) : Except Error Expression :=
  Expression.parse n.contains text

/-- Evidence with a value for one variable, in the order of the ids. -/
def observe : List Term → Term → List Term
  | [], t => [t]
  | u :: evidence, t =>
    if t.id < u.id then t :: u :: evidence
    else if t.id = u.id then t :: evidence
    else u :: observe evidence t

/-- The network with another table for a variable. -/
def withTable (n : Network) (id : String) (table : Table) : Network :=
  { n with nodes := n.nodes.map fun v => if v.id = id then { v with table := table } else v }

/-- The network with one edge more; the table of the child starts anew. -/
def withEdge (n : Network) (edge : Edge) : Network :=
  let n := { n with edges := n.edges ++ [edge] }
  n.withTable edge.child (Table.forParents edge.child (n.parents edge.child))

end Network

end BeliefNet
