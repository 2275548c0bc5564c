import BeliefNet.Network.Update
import BeliefNet.Store.Basic

/-!
# Changing a stored network

An edit writes to a stored network step by step and may fail; what it has written
then stays written. So every edit has its checks in front of what it writes.

* `Edit.announce` takes the listeners out, tells them and puts them back.
* `Store.newVariable` writes the list of variables and then the index.
* `Store.addEdge` writes the children of the parent, then the parents of the child,
  and then the table of the child.
* `Store.put` and its relatives write to a table in its place.
-/

namespace BeliefNet

namespace Store

/-- An event as one listener sees it. -/
structure Notice where
  listener : Nat
  event : Event
  /-- The network at the moment when the listener is told. -/
  view : Store

/-- A stored network and the notices that its changes have sent, the oldest first. -/
structure Session where
  store : Store
  notices : List Notice

/-- A change that may fail on its way. -/
abbrev Edit := Writing Session

namespace Edit

/-- The network as it is. -/
def current : Edit Store := do
  return (← get).store

/-- What a check of the network finds. -/
def check {α : Type} (f : Store → Except Error α) : Edit α :=
  Writing.check fun s => f s.store

def write (f : Store → Store) : Edit Unit :=
  modify fun s => { s with store := f s.store }

/-- Takes all listeners out of the network. -/
def takeListeners : Edit (List Registration) := do
  let registered := (← current).listeners.registered
  write fun s => { s with listeners := { s.listeners with registered := [] } }
  return registered

/-- Puts listeners back. -/
def restoreListeners (registered : List Registration) : Edit Unit :=
  write fun s => { s with listeners := { s.listeners with registered := registered } }

/-- Tells those listeners whose scope it is, one after another. -/
def deliver (event : Event) : List Registration → Edit Unit
  | [] => pure ()
  | r :: rest => do
    if r.scope.hears event then
      modify fun s => { s with notices := s.notices ++ [⟨r.id, event, s.store⟩] }
    deliver event rest

/-- Tells the listeners, in the order of their registration. They are not in the
network while they are told. -/
def announce (event : Event) : Edit Unit := do
  let registered ← takeListeners
  deliver event registered
  restoreListeners registered

/-- Writes to the table of the variable at a place, whether the writing fails or
not. -/
def onTable (position : Nat) (w : Writing TableStore Unit) : Edit Unit := do
  match (← current).nodes[position]? with
  | none => pure ()
  | some v =>
    let (result, table) := w.apply v.table
    write fun s => { s with nodes := s.nodes.set position { v with table := table } }
    check fun _ => result

end Edit

open Edit

/-- A variable with this id can be defined. -/
def checkNew (s : Store) (id : String) : Except Error Unit :=
  if !Text.isWord id.toList then
    .error (.invalidId id)
  else if s.contains id then
    .error (.duplicateVariable id)
  else
    .ok ()

/-- Defines a variable. Its label is its id if none is given. -/
def newVariable (id : String) (label : Option String) : Edit Node := do
  check (·.checkNew id)
  let position := (← current).nodes.length
  let v : Node := ⟨id, label.getD id, .new id⟩
  write fun s => { s with nodes := s.nodes ++ [v] }
  write fun s => { s with index := s.index.insert id position }
  return v

/-- An edge can be added: its ends are defined, it closes no cycle, and it is new.
The result is the place of the child. -/
def checkEdge (s : Store) (edge : Edge) : Except Error Nat := do
  let position ← s.require edge.child
  let _ ← s.require edge.parent
  if edge.parent = edge.child || s.reaches edge.child edge.parent then
    throw (.cycle edge.parent edge.child)
  if edge.parent ∈ s.parents edge.child then
    throw (.duplicateEdge edge.parent edge.child)
  return position

/-- Puts an id behind those that an adjacency map has for another. -/
def push (m : Std.HashMap String (List String)) (id neighbour : String) :
    Std.HashMap String (List String) :=
  m.insert id (m[id]?.getD [] ++ [neighbour])

/-- Adds an edge. The entries of the child's table are lost, since its rows are
others. -/
def addEdge (edge : Edge) : Edit Unit := do
  let position ← check (·.checkEdge edge)
  write fun s => { s with childrenByParent := push s.childrenByParent edge.parent edge.child }
  write fun s => { s with parentsByChild := push s.parentsByChild edge.child edge.parent }
  let parents := (← current).parents edge.child
  onTable position (modify (·.regenerate parents))
  announce (.edgeAdded edge)

/-- Writes to the table of a variable. -/
def fillTable (id : String) (w : Writing TableStore Unit) : Edit Unit := do
  let position ← check (·.require id)
  onTable position w

/-- Fills the row of an expression with a double. -/
def putEntry (id : String) (e : Expression) (entry : Binary64) : Edit Unit :=
  fillTable id (TableStore.put e entry)

/-- Fills the row of an expression with a decimal. -/
def putDecimal (id : String) (e : Expression) (entry : Decimal) : Edit Unit :=
  fillTable id (TableStore.putDecimal e entry)

/-- Fills the row that a text names. -/
def put (id text : String) (entry : Binary64) : Edit Unit := do
  let e ← check (·.parse text)
  putEntry id e entry

/-- Replaces the evidence and tells the listeners. -/
def replaceEvidence (f : List Term → List Term) : Edit Unit := do
  write fun s => { s with evidence := f s.evidence }
  announce .changed

def setEvidence (t : Term) : Edit Unit := do
  let _ ← check (·.require t.id)
  replaceEvidence (Network.observe · t)

/-- Forgets the value of a variable, observed or not. -/
def clearEvidence (id : String) : Edit Unit := do
  let _ ← check (·.require id)
  replaceEvidence (·.filter (·.id != id))

def clearAllEvidence : Edit Unit :=
  replaceEvidence fun _ => []

/-- A listener with this scope can be registered. -/
def checkScope (s : Store) : Scope → Except Error Unit
  | .network => .ok ()
  | .variable id => (s.require id).map fun _ => ()

/-- Registers a listener and returns its id. -/
def listen (scope : Scope) : Edit Nat := do
  check (·.checkScope scope)
  let id := (← current).listeners.nextId
  write fun s => { s with listeners := { s.listeners with nextId := id + 1 } }
  write fun s => { s with listeners :=
    { s.listeners with registered := s.listeners.registered ++ [⟨id, scope⟩] } }
  return id

/-- Removes a listener, and says whether it was registered. -/
def dismiss (id : Nat) : Edit Bool := do
  let before := (← current).listeners.registered.length
  write fun s => { s with listeners :=
    { s.listeners with registered := s.listeners.registered.filter (·.id != id) } }
  return (← current).listeners.registered.length != before

end Store

end BeliefNet
