import Mathlib
import BeliefNet.Proofs.Network.WellFormed

/-!
# Who is told what

The operations that a network has accepted say which listeners are registered with
it: the first registration has the id 0, each later one the next number, and a
listener stays in its place until an operation removes it
(`Operation.registeredFrom`). A dispatch neither loses, repeats nor reorders one
(`Operation.run_listeners`).

From the same operations follows all that the listeners are told. The notices of a
run are those of its operations one after another, each sent to the listeners that
are registered when it ends (`Operation.run_notices`). `Operation.Notifies` says what
this means for the next operation, whichever it is.
-/

namespace BeliefNet

namespace Network

namespace Operation

variable {s : Session} {op : Operation} {ops past : List Operation} {next id : Nat}

/-! ## The listeners of a history -/

/-- The scope with which an operation registers a listener. -/
def scope? : Operation → Option Scope
  | listen scope => some scope
  | _ => none

/-- An operation removes the listener with this id, if there is one. -/
def removes (id : Nat) : Operation → Bool
  | dismiss other => other == id
  | _ => false

/-- How many listeners some operations register. -/
def registrations (past : List Operation) : Nat := past.countP (·.scope?.isSome)

/-- The listeners that some operations register and do not remove again, with the ids
from this one on. -/
def registeredFrom (next : Nat) : List Operation → List Registration
  | [] => []
  | op :: ops =>
    match op.scope? with
    | some scope =>
      if ops.any (·.removes next) then registeredFrom (next + 1) ops
      else ⟨next, scope⟩ :: registeredFrom (next + 1) ops
    | none => registeredFrom next ops

/-- The listeners of a network that has accepted these operations. -/
def listenersOf (past : List Operation) : Listeners :=
  ⟨registrations past, registeredFrom 0 past⟩

/-- What an operation that is accepted makes of the listeners. -/
def register (op : Operation) (l : Listeners) : Listeners :=
  match op.scope? with
  | some scope => ⟨l.nextId + 1, l.registered ++ [⟨l.nextId, scope⟩]⟩
  | none => { l with registered := l.registered.filter fun r => !op.removes r.id }

theorem registrations_append_of_some {scope : Scope} (h : op.scope? = some scope)
    (past : List Operation) : registrations (past ++ [op]) = registrations past + 1 := by
  simp [registrations, h]

theorem registrations_append_of_none (h : op.scope? = none) (past : List Operation) :
    registrations (past ++ [op]) = registrations past := by
  simp [registrations, h]

theorem register_of_not_removes (hscope : op.scope? = none) (h : ∀ id, op.removes id = false)
    (l : Listeners) : op.register l = l := by
  unfold register
  rw [hscope]
  simp [h]

/-- Whoever registers a listener removes none. -/
theorem removes_of_scope {scope : Scope} (h : op.scope? = some scope) (id : Nat) :
    op.removes id = false := by
  cases op with
  | listen _ => rfl
  | dismiss _ => cases h
  | _ => rfl

/-- An operation that tells the listeners anything registers and removes none. -/
theorem register_of_event {event : Event} (h : op.event? = some event) (l : Listeners) :
    op.register l = l := by
  cases op with
  | addEdge _ => exact register_of_not_removes rfl (fun _ => rfl) l
  | setEvidence _ => exact register_of_not_removes rfl (fun _ => rfl) l
  | clearEvidence _ => exact register_of_not_removes rfl (fun _ => rfl) l
  | clearAllEvidence => exact register_of_not_removes rfl (fun _ => rfl) l
  | _ => cases h

theorem listeners_of_commits {n n' : Network} (h : Commits n op n') :
    n'.listeners = op.register n.listeners := by
  cases h with
  | listen _ => rfl
  | dismiss =>
    unfold register scope? removes
    simp only [bne, Bool.beq_comm]
  | _ => exact (register_of_not_removes rfl (fun _ => rfl) _).symm

theorem registeredFrom_append_of_some {scope : Scope} (h : op.scope? = some scope)
    (past : List Operation) (next : Nat) :
    registeredFrom next (past ++ [op]) =
      registeredFrom next past ++ [⟨next + registrations past, scope⟩] := by
  induction past generalizing next with
  | nil => simp [registeredFrom, registrations, h]
  | cons o past ih =>
    have hremoves : (past ++ [op]).any (·.removes next) = past.any (·.removes next) := by
      rw [List.any_append, List.any_cons, List.any_nil, removes_of_scope h, Bool.or_false,
        Bool.or_false]
    rw [List.cons_append, registeredFrom, registeredFrom, hremoves]
    cases ho : o.scope? with
    | none =>
      have hcount : registrations (o :: past) = registrations past := by
        simp [registrations, ho]
      rw [hcount]
      exact ih next
    | some first =>
      have hcount : next + registrations (o :: past) = next + 1 + registrations past := by
        simp only [registrations, List.countP_cons, ho, Option.isSome_some, if_true]
        omega
      rw [hcount]
      simp only [ih (next + 1)]
      split
      · rfl
      · rfl

theorem registeredFrom_append_of_none (h : op.scope? = none) (past : List Operation)
    (next : Nat) :
    registeredFrom next (past ++ [op]) =
      (registeredFrom next past).filter fun r => !op.removes r.id := by
  induction past generalizing next with
  | nil => simp [registeredFrom, h]
  | cons o past ih =>
    rw [List.cons_append, registeredFrom, registeredFrom]
    cases ho : o.scope? with
    | none => exact ih next
    | some first =>
      simp only [List.any_append, List.any_cons, List.any_nil, Bool.or_false, ih (next + 1)]
      cases hold : past.any (·.removes next) with
      | true => rfl
      | false =>
        cases hnew : op.removes next with
        | true => simp [hnew]
        | false => simp [hnew]

/-- The listeners of a history with one operation more. -/
theorem listenersOf_append (past : List Operation) (op : Operation) :
    listenersOf (past ++ [op]) = op.register (listenersOf past) := by
  unfold listenersOf register
  cases h : op.scope? with
  | none => rw [registeredFrom_append_of_none h, registrations_append_of_none h]
  | some scope =>
    rw [registeredFrom_append_of_some h, registrations_append_of_some h, Nat.zero_add]

/-- Ids are handed out in ascending order. -/
theorem bounds_of_mem_registeredFrom {r : Registration} (h : r ∈ registeredFrom next past) :
    next ≤ r.id ∧ r.id < next + registrations past := by
  induction past generalizing next with
  | nil => cases h
  | cons op past ih =>
    unfold registeredFrom at h
    cases hop : op.scope? with
    | none =>
      rw [hop] at h
      simpa [registrations, hop] using ih h
    | some scope =>
      simp only [hop] at h
      simp only [registrations, List.countP_cons, hop, Option.isSome_some, if_true]
      have hlater : r ∈ registeredFrom (next + 1) past → next ≤ r.id ∧
          r.id < next + (past.countP (·.scope?.isSome) + 1) := by
        intro hmem
        obtain ⟨hle, hlt⟩ := ih hmem
        unfold registrations at hlt
        omega
      split at h
      · exact hlater h
      · rcases List.mem_cons.1 h with rfl | hmem
        · simp only
          omega
        · exact hlater hmem

theorem registeredFrom_ascending (next : Nat) (past : List Operation) :
    ((registeredFrom next past).map (·.id)).Pairwise (· < ·) := by
  induction past generalizing next with
  | nil => exact .nil
  | cons op past ih =>
    unfold registeredFrom
    split
    · split
      · exact ih (next + 1)
      · refine List.pairwise_cons.2 ⟨fun id hid => ?_, ih (next + 1)⟩
        obtain ⟨r, hr, rfl⟩ := List.mem_map.1 hid
        exact (bounds_of_mem_registeredFrom hr).1
    · exact ih next

/-! ## The notices of a history -/

/-- The notices of a run behind this past. What does not fail tells those who are then
registered. -/
def trace (past : List Operation) (s : Session) : List Operation → List Notice
  | [] => []
  | op :: ops =>
    match (op.outcome s).1 with
    | .ok _ =>
      op.tells (registeredFrom 0 past) (op.step s).network ++
        trace (past ++ [op]) (op.step s) ops
    | .error _ => trace past (op.step s) ops

/-- One step: the listeners follow the history, and those of the history are told. -/
theorem step_notices (hs : s.network.listeners = listenersOf past)
    (h : (op.outcome s).1 = .ok ()) :
    (op.step s).network.listeners = listenersOf (past ++ [op]) ∧
      (op.step s).notices =
        s.notices ++ op.tells (registeredFrom 0 past) (op.step s).network := by
  obtain ⟨n, hcommits, hstep⟩ := step_of_ok h
  have hlisteners := listeners_of_commits hcommits
  rw [hs] at hlisteners
  rw [hstep]
  refine ⟨hlisteners.trans (listenersOf_append past op).symm, ?_⟩
  show s.notices ++ op.tells n.listeners.registered n = _
  cases hevent : op.event? with
  | none => rw [tells_of_silent hevent, tells_of_silent hevent]
  | some event =>
    rw [register_of_event hevent] at hlisteners
    rw [hlisteners]
    rfl

/-- A run: the listeners are those of the operations that it has accepted, and it has
sent their notices. -/
theorem run_notices (hs : s.network.listeners = listenersOf past) (ops : List Operation) :
    (run ops s).network.listeners = listenersOf (past ++ accepted s ops) ∧
      (run ops s).notices = s.notices ++ trace past s ops := by
  induction ops generalizing s past with
  | nil =>
    rw [accepted, trace, List.append_nil, List.append_nil]
    exact ⟨hs, rfl⟩
  | cons op ops ih =>
    show (run ops (op.step s)).network.listeners = _ ∧ (run ops (op.step s)).notices = _
    unfold accepted trace
    cases hop : (op.outcome s).1 with
    | error e =>
      rw [step_of_error hop]
      exact ih hs
    | ok _ =>
      obtain ⟨hlisteners, hnotices⟩ := step_notices hs hop
      obtain ⟨hrun, htrace⟩ := ih hlisteners
      simp only
      rw [hrun, htrace, hnotices, List.append_assoc, List.append_assoc]
      exact ⟨rfl, rfl⟩

/-! ## Registration and removal -/

/-- The listener that is registered gets the next id. -/
theorem apply_listen_fst (scope : Scope) (s : Session) :
    ((Network.listen scope).apply s).1 =
      (s.network.checkScope scope).map fun _ => s.network.listeners.nextId := by
  unfold Network.listen
  rw [Update.apply_check_bind]
  cases s.network.checkScope scope with
  | error e => rfl
  | ok _ => rfl

/-- A dismissal says whether it finds the listener. -/
theorem apply_dismiss_fst (id : Nat) (s : Session) :
    ((Network.dismiss id).apply s).1 =
      .ok (decide (id ∈ s.network.listeners.registered.map (·.id))) := by
  have hfound : ((s.network.listeners.registered.filter (·.id != id)).length !=
      s.network.listeners.registered.length) =
        decide (id ∈ s.network.listeners.registered.map (·.id)) := by
    rw [Bool.eq_iff_iff, bne_iff_ne, decide_eq_true_eq, Ne, List.length_filter_eq_length_iff,
      List.mem_map]
    simp only [bne_iff_ne, not_forall, not_not, exists_prop]
  exact congrArg Except.ok hfound

/-- An operation dismisses the listener with this id, and is told that there was
one. -/
def removal (id : Nat) (s : Session) (op : Operation) : Bool :=
  op.removes id && ((Network.dismiss id).apply s).1.toOption == some true

/-- How often a run dismisses the listener with this id and is told that there was
one. -/
def removals (id : Nat) (s : Session) : List Operation → Nat
  | [] => 0
  | op :: ops => (op.removal id s).toNat + removals id (op.step s) ops

/-- The listener with this id was registered and has been removed again. -/
def Gone (id : Nat) (past : List Operation) : Prop :=
  id < registrations past ∧ id ∉ (registeredFrom 0 past).map (·.id)

instance (id : Nat) (past : List Operation) : Decidable (Gone id past) :=
  inferInstanceAs (Decidable (_ ∧ _))

theorem removal_eq (hs : s.network.listeners = listenersOf past) (id : Nat) (op : Operation) :
    op.removal id s =
      (op.removes id && decide (id ∈ (registeredFrom 0 past).map (·.id))) := by
  unfold removal
  rw [apply_dismiss_fst, hs]
  simp [listenersOf, Except.toOption]

theorem lt_registrations (h : id ∈ (registeredFrom 0 past).map (·.id)) :
    id < registrations past := by
  obtain ⟨r, hr, rfl⟩ := List.mem_map.1 h
  have hlt := (bounds_of_mem_registeredFrom hr).2
  rwa [Nat.zero_add] at hlt

/-- Without a registration those listeners stay that are not removed. -/
theorem mem_registered_append_of_none (hscope : op.scope? = none) :
    id ∈ (registeredFrom 0 (past ++ [op])).map (·.id) ↔
      id ∈ (registeredFrom 0 past).map (·.id) ∧ op.removes id = false := by
  rw [registeredFrom_append_of_none hscope]
  simp only [List.mem_map, List.mem_filter, Bool.not_eq_true']
  constructor
  · rintro ⟨r, ⟨hr, hkept⟩, rfl⟩
    exact ⟨⟨r, hr, rfl⟩, hkept⟩
  · rintro ⟨⟨r, hr, rfl⟩, hkept⟩
    exact ⟨r, ⟨hr, hkept⟩, rfl⟩

/-- One operation more: a listener goes when it is there and the operation removes
it. -/
theorem gone_append_iff (id : Nat) (past : List Operation) (op : Operation) :
    Gone id (past ++ [op]) ↔ Gone id past ∨
      (op.removes id = true ∧ id ∈ (registeredFrom 0 past).map (·.id)) := by
  unfold Gone
  cases hscope : op.scope? with
  | some scope =>
    rw [registrations_append_of_some hscope, registeredFrom_append_of_some hscope,
      List.map_append, List.mem_append, removes_of_scope hscope]
    simp only [List.map_cons, List.map_nil, List.mem_singleton, Nat.zero_add, not_or]
    constructor
    · rintro ⟨hlt, hmem, hne⟩
      exact .inl ⟨by omega, hmem⟩
    · rintro (⟨hlt, hmem⟩ | ⟨hremoves, -⟩)
      · exact ⟨by omega, hmem, by omega⟩
      · cases hremoves
  | none =>
    rw [registrations_append_of_none hscope, mem_registered_append_of_none hscope]
    cases op.removes id with
    | false => simp
    | true =>
      -- it was there, or it had gone before
      simp only [reduceCtorEq, and_false, not_false_eq_true, and_true, true_and]
      by_cases hmem : id ∈ (registeredFrom 0 past).map (·.id)
      · simp [hmem, lt_registrations hmem]
      · simp [hmem]

/-- What fails removes nothing. -/
theorem removes_of_error {e : Error} (h : (op.outcome s).1 = .error e) (id : Nat) :
    op.removes id = false := by
  cases op with
  | dismiss _ => cases h
  | _ => rfl

/-- In a run a listener is removed as often as it goes: once, or not at all. -/
theorem removals_run (hs : s.network.listeners = listenersOf past) (id : Nat)
    (ops : List Operation) :
    (decide (Gone id past)).toNat + removals id s ops =
      (decide (Gone id (past ++ accepted s ops))).toNat := by
  induction ops generalizing s past with
  | nil =>
    rw [accepted, removals, List.append_nil, Nat.add_zero]
  | cons op ops ih =>
    unfold accepted removals
    rw [removal_eq hs]
    cases hop : (op.outcome s).1 with
    | error e =>
      rw [removes_of_error hop, step_of_error hop, Bool.false_and, Bool.toNat_false, Nat.zero_add]
      exact ih hs
    | ok _ =>
      simp only
      rw [List.append_cons, ← ih (step_notices hs hop).1, ← Nat.add_assoc]
      congr 1
      have hstep := gone_append_iff id past op
      -- a listener that has gone is not registered, so it does not go again
      by_cases hgone : Gone id past
      · have hmem : id ∉ (registeredFrom 0 past).map (·.id) := hgone.2
        simp [hstep, hgone, hmem]
      · simp [hstep, hgone]

/-- A registration comes last, with the number of those before as its id. -/
theorem listen_spec (hs : s.network.listeners = listenersOf past) {scope : Scope}
    (h : ((Network.listen scope).apply s).1 = .ok id) :
    id = registrations past ∧
      (step s (.listen scope)).network.listeners.registered =
        registeredFrom 0 past ++ [⟨id, scope⟩] := by
  have hok : (outcome s (.listen scope)).1 = .ok () := by
    show ((Network.listen scope).apply s).1.map _ = _
    rw [h]
    rfl
  obtain rfl : id = registrations past := by
    rw [apply_listen_fst, hs] at h
    cases hscope : s.network.checkScope scope with
    | error e =>
      rw [hscope] at h
      cases h
    | ok _ =>
      rw [hscope] at h
      cases h
      rfl
  rw [(step_notices hs hok).1, listenersOf_append]
  exact ⟨rfl, rfl⟩

/-- A dismissal takes away the listener with this id and no other. -/
theorem dismiss_spec (hs : s.network.listeners = listenersOf past) (id : Nat) :
    ((Network.dismiss id).apply s).1 = .ok (decide (id ∈ (registeredFrom 0 past).map (·.id))) ∧
      (step s (.dismiss id)).network.listeners.registered =
        (registeredFrom 0 past).filter (·.id != id) := by
  have hok : (outcome s (.dismiss id)).1 = .ok () := rfl
  constructor
  · rw [apply_dismiss_fst, hs]
    rfl
  · rw [(step_notices hs hok).1, listenersOf_append]
    simp only [register, scope?, removes, listenersOf, bne, Bool.beq_comm]

/-- On the empty network a listener is removed once if it has gone, and otherwise not at
all. -/
theorem removals_build (id : Nat) (ops : List Operation) :
    removals id ⟨empty, []⟩ ops = if Gone id (accepted ⟨empty, []⟩ ops) then 1 else 0 := by
  have hempty : (⟨empty, []⟩ : Session).network.listeners = listenersOf [] := rfl
  have hnone : ¬Gone id [] := fun hgone => absurd hgone.1 (Nat.not_lt_zero id)
  have hremovals := removals_run hempty id ops
  rw [decide_eq_false hnone, Bool.toNat_false, Nat.zero_add, List.nil_append] at hremovals
  rw [hremovals]
  split
  · rw [decide_eq_true ‹_›, Bool.toNat_true]
  · rw [decide_eq_false ‹_›, Bool.toNat_false]

/-! ## The contract -/

theorem hears_edgeAdded (scope : Scope) (edge : Edge) :
    scope.hears (.edgeAdded edge) = decide (scope = .network ∨ scope = .variable edge.child) :=
  match scope with
  | .network => by simp [Scope.hears]
  | .variable id => by simp [Scope.hears, Bool.beq_eq_decide_eq]

theorem hears_changed (scope : Scope) : scope.hears .changed = decide (scope = .network) :=
  match scope with
  | .network => rfl
  | .variable id => by simp [Scope.hears]

/-- A defined variable has the table that is put in place. -/
theorem table_withTable {n : Network} {name : String} (h : n.contains name = true) (t : Table) :
    (n.withTable name t).table name = .ok t := by
  obtain ⟨v, hv⟩ := exists_find? h
  have hid : ∀ u : Variable,
      (if u.id = name then { u with table := t } else u).id = u.id := by
    intro u
    split <;> rfl
  have hfind : (n.withTable name t).find? name = some { v with table := t } := by
    unfold withTable find?
    rw [List.find?_map]
    simp only [Function.comp_def, hid]
    rw [show n.nodes.find? (·.id == name) = some v from hv, Option.map_some,
      if_pos (mem_of_find? hv).2]
  unfold table require
  rw [hfind]
  rfl

/-- The child of a new edge has an empty table for all its parents. -/
theorem table_withEdge {n : Network} {edge : Edge} (h : n.contains edge.child = true) :
    (n.withEdge edge).table edge.child =
      .ok (Table.forParents edge.child (n.parents edge.child ++ [edge.parent])) := by
  have hparents : Graph.parents (n.edges ++ [edge]) edge.child =
      n.parents edge.child ++ [edge.parent] := by
    simp [Graph.parents, Network.parents]
  rw [← hparents]
  exact table_withTable (n := { n with edges := n.edges ++ [edge] }) h _

/-- What the next operation of a session tells these listeners. -/
structure Notifies (s : Session) (listeners : List Registration) : Prop where
  /-- A new edge is told to the listeners of the network and to those of its child. -/
  edge : ∀ edge : Edge, (outcome s (.addEdge edge)).1 = .ok () →
    (step s (.addEdge edge)).notices = s.notices ++
      (listeners.filter fun r => r.scope = .network ∨ r.scope = .variable edge.child).map
        fun r => ⟨r.id, .edgeAdded edge, (step s (.addEdge edge)).network.unheard⟩
  /-- They see the child with an empty table for all its parents. -/
  table : ∀ edge : Edge, (outcome s (.addEdge edge)).1 = .ok () →
    (step s (.addEdge edge)).network.unheard.table edge.child =
      .ok (Table.forParents edge.child (s.network.parents edge.child ++ [edge.parent]))
  /-- A change of the evidence is told to the listeners of the network. -/
  changed : ∀ op : Operation, op.event? = some .changed → (op.outcome s).1 = .ok () →
    (op.step s).notices = s.notices ++
      (listeners.filter fun r => r.scope = .network).map
        fun r => ⟨r.id, .changed, (op.step s).network.unheard⟩
  /-- The evidence of a variable can be cleared whether it is observed or not. -/
  clear : ∀ id : String, s.network.contains id = true →
    (outcome s (.clearEvidence id)).1 = .ok ()
  /-- Nothing else is told, and no failure is. -/
  silent : ∀ op : Operation, op.event? = none ∨ (op.outcome s).1 ≠ .ok () →
    (op.step s).notices = s.notices
  /-- Telling the listeners leaves them as they are. -/
  kept : ∀ op : Operation, op.event? ≠ none →
    (op.step s).network.listeners = s.network.listeners

theorem notifies (hs : s.network.listeners = listenersOf past) :
    Notifies s (registeredFrom 0 past) where
  edge edge h := by
    rw [(step_notices hs h).2]
    unfold tells noticesTo
    simp only [event?, hears_edgeAdded]
  table edge h := by
    obtain ⟨_, hcommits, hstep⟩ := step_of_ok h
    cases hcommits with
    | addEdge hedge =>
      rw [hstep]
      exact table_withEdge (checkEdge_eq_ok_iff.1 hedge).2.1
  changed op hevent h := by
    rw [(step_notices hs h).2]
    unfold tells noticesTo
    simp only [hevent, hears_changed]
  clear id h := by
    obtain ⟨v, hv⟩ := exists_require h
    simp only [outcome, Network.clearEvidence, withoutResult_check_bind, hv]
    rfl
  silent op h := by
    cases hop : (op.outcome s).1 with
    | error e => rw [step_of_error hop]
    | ok _ =>
      rcases h with hevent | hfail
      · rw [(step_notices hs hop).2, tells_of_silent hevent, List.append_nil]
      · exact absurd hop hfail
  kept op h := by
    obtain ⟨event, hevent⟩ := Option.ne_none_iff_exists'.1 h
    cases hop : (op.outcome s).1 with
    | error e => rw [step_of_error hop]
    | ok _ => rw [(step_notices hs hop).1, hs, listenersOf_append, register_of_event hevent]

/-- The listeners are told exactly what they have to be told, in every run on the empty
network. All notices of the run are those of its operations in order, each told to the
listeners that were registered and not yet removed; and `Notifies` says whom the next
operation tells what. Ids are counted up and not used again: the next listener gets the
number of the registrations so far and comes last. A dismissal says whether it finds
the listener and takes away that one alone, so none is removed twice. -/
theorem build_notices (ops : List Operation) :
    let s := run ops ⟨empty, []⟩
    let past := accepted ⟨empty, []⟩ ops
    let listeners := registeredFrom 0 past
    s.notices = trace [] ⟨empty, []⟩ ops ∧
    Notifies s listeners ∧
    s.network.listeners.registered = listeners ∧
    ((listeners.map (·.id)).Pairwise (· < ·) ∧ ∀ r ∈ listeners, r.id < registrations past) ∧
    (∀ scope id, ((Network.listen scope).apply s).1 = .ok id →
      id = registrations past ∧
      (step s (.listen scope)).network.listeners.registered = listeners ++ [⟨id, scope⟩]) ∧
    (∀ id, ((Network.dismiss id).apply s).1 = .ok (decide (id ∈ listeners.map (·.id))) ∧
      (step s (.dismiss id)).network.listeners.registered = listeners.filter (·.id != id)) ∧
    (∀ id, removals id ⟨empty, []⟩ ops =
      if id < registrations past ∧ id ∉ listeners.map (·.id) then 1 else 0) := by
  intro s past listeners
  have hempty : (⟨empty, []⟩ : Session).network.listeners = listenersOf [] := rfl
  obtain ⟨hlisteners, hnotices⟩ := run_notices hempty ops
  have hs : s.network.listeners = listenersOf past := hlisteners
  refine ⟨hnotices, notifies hs, congrArg Listeners.registered hs,
    ⟨registeredFrom_ascending 0 past, fun r hr => ?_⟩, fun scope id h => listen_spec hs h,
    dismiss_spec hs, fun id => removals_build id ops⟩
  exact lt_registrations (List.mem_map_of_mem hr)

/-- Two variables and four listeners, the last of which is dismissed, and dismissed
again. -/
def alarmAudience : List Operation := alarmVariables ++ [
  .listen (.variable "fault"), .listen .network, .listen (.variable "alarm"), .listen .network,
  .dismiss 3, .dismiss 3]

theorem alarm_notices :
    (step (run alarmAudience ⟨empty, []⟩) (.addEdge ⟨"fault", "alarm"⟩)).notices.map
      (fun notice => (notice.listener, notice.event)) =
        [(1, .edgeAdded ⟨"fault", "alarm"⟩), (2, .edgeAdded ⟨"fault", "alarm"⟩)] ∧
    (step (run alarmAudience ⟨empty, []⟩) (.setEvidence ⟨"alarm", true⟩)).notices.map
      (fun notice => (notice.listener, notice.event)) = [(1, .changed)] ∧
    removals 3 ⟨empty, []⟩ alarmAudience = 1 := by
  obtain ⟨-, htells, -, -, -, -, hremovals⟩ := build_notices alarmAudience
  have hedge : (run alarmAudience ⟨empty, []⟩).network.checkEdge ⟨"fault", "alarm"⟩ = .ok () := by
    refine checkEdge_eq_ok_iff.2 ⟨by decide +kernel, by decide +kernel, ?_, by decide +kernel⟩
    rw [show (run alarmAudience ⟨empty, []⟩).network.edges = [] by decide +kernel]
    exact Graph.Acyclic.reaches_eq_false alarm_acyclic
  refine ⟨?_, ?_, ?_⟩
  · rw [htells.edge]
    · decide +kernel
    · rw [outcome_addEdge hedge]
  · rw [htells.changed _ rfl]
    · decide +kernel
    · decide +kernel
  · rw [hremovals]
    decide +kernel

end Operation

end Network

end BeliefNet
