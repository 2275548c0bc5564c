import BeliefNet.Network.Basic

/-!
# Changing a network

An update changes a network and may fail. A failure leaves behind what was
done before it, so an update checks everything it has to before it changes
anything. Listeners receive a notice when an edge has been added or the
evidence has been set or cleared. An edge and a row with its counterpart are
one change here; `Store.addEdge` and `TableStore.putDecimal` make the writes
that it stands for.

* `Session` is a network with the notices sent so far.
* `Network.addEdge` keeps the graph free of cycles.
* `Network.put` and its relatives fill tables.
* `Network.setEvidence` and its relatives change the evidence.
* `Network.listen` and `Network.dismiss` register and remove listeners.
-/

namespace BeliefNet

/-- What listeners are told. -/
inductive Event where
  | edgeAdded (edge : Edge)
  /-- Evidence was set or cleared. -/
  | changed
  deriving DecidableEq, Repr

/-- Whether a listener with this scope is told. -/
def Scope.hears : Scope → Event → Bool
  | .network, _ => true
  | .variable id, .edgeAdded edge => id == edge.child
  | .variable _, .changed => false

/-- An event as one listener sees it. -/
structure Notice where
  listener : Nat
  event : Event
  /-- The changed network. While notices go out no listener is registered. -/
  view : Network
  deriving DecidableEq

/-- A network and the notices that its changes have sent, the oldest first. -/
structure Session where
  network : Network
  notices : List Notice
  deriving DecidableEq

/-- A change that may fail. -/
abbrev Update := ExceptT Error (StateM Session)

namespace Update

/-- The outcome of an update, and the session behind it. -/
def apply {α : Type} (u : Update α) (s : Session) : Except Error α × Session :=
  (ExceptT.run u).run s

/-- The network as it is. -/
def current : Update Network := do
  return (← get).network

/-- What a check of the network finds. -/
def check {α : Type} (f : Network → Except Error α) : Update α := do
  liftExcept (f (← current))
where
  /-- A result as an update that changes nothing. -/
  liftExcept : Except Error α → Update α
    | .ok a => pure a
    | .error e => throw e

/-- Puts another network in place. -/
def commit (n : Network) : Update Unit :=
  modify fun s => { s with network := n }

/-- Tells the listeners whose scope it is, in the order of their
registration. -/
def announce (event : Event) : Update Unit :=
  modify fun s =>
    let view := { s.network with listeners := { s.network.listeners with registered := [] } }
    let hearing := s.network.listeners.registered.filter (·.scope.hears event)
    { s with notices := s.notices ++ hearing.map fun r => ⟨r.id, event, view⟩ }

end Update

namespace Network

open Update

/-- A variable with this id can be defined. -/
def checkNew (n : Network) (id : String) : Except Error Unit :=
  if !Text.isWord id.toList then
    .error (.invalidId id)
  else if n.contains id then
    .error (.duplicateVariable id)
  else
    .ok ()

/-- Defines a variable. Its label is its id if none is given. -/
def newVariable (id : String) (label : Option String) : Update Variable := do
  check (·.checkNew id)
  let n ← current
  let v : Variable := ⟨id, label.getD id, Table.forParents id []⟩
  commit { n with nodes := n.nodes ++ [v] }
  return v

/-- An edge can be added: its ends are defined, it closes no cycle, and it is
new. -/
def checkEdge (n : Network) (edge : Edge) : Except Error Unit := do
  let _ ← n.require edge.child
  let _ ← n.require edge.parent
  if edge.parent = edge.child || Graph.reaches n.edges edge.child edge.parent then
    throw (.cycle edge.parent edge.child)
  if edge ∈ n.edges then
    throw (.duplicateEdge edge.parent edge.child)

/-- Adds an edge. The entries of the child's table are lost, since its rows
are others. -/
def addEdge (edge : Edge) : Update Unit := do
  check (·.checkEdge edge)
  commit ((← current).withEdge edge)
  announce (.edgeAdded edge)

/-- Fills a row of the table of a variable by a function that may refuse. -/
def fillTable (id : String) (f : Table → Except Error Table) : Update Unit := do
  let table ← check fun n => n.table id >>= f
  commit ((← current).withTable id table)

/-- Fills the row of an expression with a double. -/
def putEntry (id : String) (e : Expression) (entry : Binary64) : Update Unit :=
  fillTable id (·.put e entry)

/-- Fills the row of an expression with a decimal. -/
def putDecimal (id : String) (e : Expression) (entry : Decimal) : Update Unit :=
  fillTable id (·.putDecimal e entry)

/-- Fills the row that a text names. -/
def put (id text : String) (entry : Binary64) : Update Unit := do
  let e ← check (·.parse text)
  putEntry id e entry

/-- Replaces the evidence and tells the listeners. -/
def replaceEvidence (f : List Term → List Term) : Update Unit := do
  let n ← current
  commit { n with evidence := f n.evidence }
  announce .changed

def setEvidence (t : Term) : Update Unit := do
  let _ ← check (·.require t.id)
  replaceEvidence (observe · t)

/-- Forgets the value of a variable, observed or not. -/
def clearEvidence (id : String) : Update Unit := do
  let _ ← check (·.require id)
  replaceEvidence (·.filter (·.id != id))

def clearAllEvidence : Update Unit :=
  replaceEvidence fun _ => []

/-- A listener with this scope can be registered. -/
def checkScope (n : Network) : Scope → Except Error Unit
  | .network => .ok ()
  | .variable id => (n.require id).map fun _ => ()

/-- Registers a listener and returns its id. -/
def listen (scope : Scope) : Update Nat := do
  check (·.checkScope scope)
  let n ← current
  let id := n.listeners.nextId
  commit { n with listeners := ⟨id + 1, n.listeners.registered ++ [⟨id, scope⟩]⟩ }
  return id

/-- Removes a listener, and says whether it was registered. -/
def dismiss (id : Nat) : Update Bool := do
  let n ← current
  let kept := n.listeners.registered.filter (·.id != id)
  commit { n with listeners := { n.listeners with registered := kept } }
  return kept.length != n.listeners.registered.length

end Network

end BeliefNet
