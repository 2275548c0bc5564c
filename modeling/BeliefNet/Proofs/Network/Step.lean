import Mathlib
import BeliefNet.Proofs.Network.Run

/-!
# What one operation does

An operation checks all that it has to before it changes anything, and tells the
listeners at its end. So there are two ways for it to end
(`Operation.outcome_cases`): it fails, and the session is as it was; or it succeeds,
and the session has the network that the operation commits (`Network.Commits`) and
the notices of its event behind those sent before. What holds of every network that
can be built is what `Network.Commits` preserves (`Reachable.commits`).

`Network.Effect` looks at the variables, the edges and the tables alone: it says what
they are like behind a deed (`effect_step`), and `Network.Change` the same without
naming the deed (`change_step`).
-/

namespace BeliefNet

namespace Network

/-! ## Variables by their ids -/

section Lookup

variable {n : Network} {id : String} {v : Variable}

theorem contains_iff : n.contains id = true ↔ id ∈ n.nodes.map (·.id) := by
  simp [contains, List.any_eq_true]

theorem mem_of_find? (h : n.find? id = some v) : v ∈ n.nodes ∧ v.id = id :=
  ⟨List.mem_of_find?_eq_some h, by simpa using List.find?_some h⟩

theorem exists_find? (h : n.contains id = true) : ∃ v, n.find? id = some v := by
  cases hfind : n.find? id with
  | none =>
    obtain ⟨v, hv, rfl⟩ := List.mem_map.1 (contains_iff.1 h)
    exact absurd (beq_self_eq_true v.id) (List.find?_eq_none.1 hfind v hv)
  | some v => exact ⟨v, rfl⟩

theorem contains_of_require (h : n.require id = .ok v) : n.contains id = true := by
  unfold require at h
  split at h
  · rename_i w hfind
    obtain ⟨hmem, rfl⟩ := mem_of_find? hfind
    exact contains_iff.2 (List.mem_map_of_mem hmem)
  · cases h

theorem exists_require (h : n.contains id = true) : ∃ v, n.require id = .ok v := by
  obtain ⟨v, hfind⟩ := exists_find? h
  unfold require
  rw [hfind]
  exact ⟨v, rfl⟩

end Lookup

/-! ## Success and failure -/

/-- The network as listeners see it: while they are told, none is registered. -/
def unheard (n : Network) : Network :=
  { n with listeners := { n.listeners with registered := [] } }

/-- One notice for each of these listeners. -/
def noticesTo (listeners : List Registration) (event : Event) (view : Network) : List Notice :=
  (listeners.filter (·.scope.hears event)).map fun r => ⟨r.id, event, view⟩

/-- What an operation that succeeds makes of a network, and what it has checked
before. -/
inductive Commits (n : Network) : Operation → Network → Prop where
  | newVariable {id : String} {label : Option String} (hnew : n.checkNew id = .ok ()) :
      Commits n (.newVariable id label)
        { n with nodes := n.nodes ++ [⟨id, label.getD id, Table.forParents id []⟩] }
  | addEdge {edge : Edge} (hedge : n.checkEdge edge = .ok ()) :
      Commits n (.addEdge edge) (n.withEdge edge)
  | put {id text : String} {entry : Binary64} {e : Expression} {t : Table}
      (htext : n.parse text = .ok e) (ht : n.table id >>= (·.put e entry) = .ok t) :
      Commits n (.put id text entry) (n.withTable id t)
  | putEntry {id : String} {e : Expression} {entry : Binary64} {t : Table}
      (ht : n.table id >>= (·.put e entry) = .ok t) :
      Commits n (.putEntry id e entry) (n.withTable id t)
  | putDecimal {id : String} {e : Expression} {entry : Decimal} {t : Table}
      (ht : n.table id >>= (·.putDecimal e entry) = .ok t) :
      Commits n (.putDecimal id e entry) (n.withTable id t)
  | setEvidence {t : Term} (hid : n.contains t.id = true) :
      Commits n (.setEvidence t) { n with evidence := observe n.evidence t }
  | clearEvidence {id : String} (hid : n.contains id = true) :
      Commits n (.clearEvidence id) { n with evidence := n.evidence.filter (·.id != id) }
  | clearAllEvidence : Commits n .clearAllEvidence { n with evidence := [] }
  | listen {scope : Scope} (hscope : n.checkScope scope = .ok ()) :
      Commits n (.listen scope) { n with listeners :=
        ⟨n.listeners.nextId + 1, n.listeners.registered ++ [⟨n.listeners.nextId, scope⟩]⟩ }
  | dismiss {id : Nat} :
      Commits n (.dismiss id) { n with listeners :=
        { n.listeners with registered := n.listeners.registered.filter (·.id != id) } }

namespace Operation

/-- The event of which an operation tells the listeners. -/
def event? : Operation → Option Event
  | addEdge edge => some (.edgeAdded edge)
  | setEvidence _ | clearEvidence _ | clearAllEvidence => some .changed
  | _ => none

/-- What an operation that has led to this network tells these listeners. -/
def tells (op : Operation) (listeners : List Registration) (n : Network) : List Notice :=
  match op.event? with
  | some event => noticesTo listeners event n.unheard
  | none => []

/-- The session in which an operation has led to this network. -/
def finish (op : Operation) (s : Session) (n : Network) : Session :=
  ⟨n, s.notices ++ op.tells n.listeners.registered n⟩

variable {s : Session} {op : Operation} {n : Network} {e : Error}

theorem tells_of_silent (h : op.event? = none) (listeners : List Registration) (n : Network) :
    op.tells listeners n = [] := by
  unfold tells
  rw [h]

/-- An operation without an event leaves the notices as they are. -/
theorem finish_of_silent (h : op.event? = none) (s : Session) (n : Network) :
    op.finish s n = { s with network := n } := by
  unfold finish
  rw [tells_of_silent h, List.append_nil]

/-- An operation fails and leaves the session as it is, or it commits a network and
sends the notices of its event. -/
def Ends (op : Operation) (s : Session) (ending : Except Error Unit × Session) : Prop :=
  (∃ e, ending = (.error e, s)) ∨
    ∃ n, Commits s.network op n ∧ ending = (.ok (), op.finish s n)

theorem ends_of_commits (h : Commits s.network op n) {ending : Except Error Unit × Session}
    (hending : ending = (.ok (), op.finish s n)) : op.Ends s ending :=
  .inr ⟨n, h, hending⟩

/-- A check comes first, and if it fails nothing has been done. -/
theorem ends_check_bind {α β : Type} {f : Network → Except Error α} {g : α → Update β}
    (h : ∀ a, f s.network = .ok a → op.Ends s (withoutResult (g a) s)) :
    op.Ends s (withoutResult (Update.check f >>= g) s) := by
  rw [withoutResult_check_bind]
  cases hcheck : f s.network with
  | error e => exact .inl ⟨e, rfl⟩
  | ok a => exact h a hcheck

/-- A table is filled in one piece, a row together with its counterpart. -/
theorem ends_fillTable {id : String} {f : Table → Except Error Table} (hsilent : op.event? = none)
    (h : ∀ t, s.network.table id >>= f = .ok t → Commits s.network op (s.network.withTable id t)) :
    op.Ends s (withoutResult (fillTable id f) s) := by
  refine ends_check_bind fun t ht => ends_of_commits (h t ht) ?_
  rw [finish_of_silent hsilent]
  rfl

/-- There is no third way. -/
theorem outcome_cases (s : Session) (op : Operation) : op.Ends s (op.outcome s) := by
  cases op with
  | newVariable id label =>
    refine ends_check_bind fun _ hcheck => ends_of_commits (.newVariable hcheck) ?_
    rw [finish_of_silent rfl]
    rfl
  | addEdge edge => exact ends_check_bind fun _ hcheck => ends_of_commits (.addEdge hcheck) rfl
  | put id text entry =>
    exact ends_check_bind fun _ htext => ends_fillTable rfl fun _ ht => .put htext ht
  | putEntry id e entry => exact ends_fillTable rfl fun _ ht => .putEntry ht
  | putDecimal id e entry => exact ends_fillTable rfl fun _ ht => .putDecimal ht
  | setEvidence t =>
    exact ends_check_bind fun _ hcheck =>
      ends_of_commits (.setEvidence (contains_of_require hcheck)) rfl
  | clearEvidence id =>
    exact ends_check_bind fun _ hcheck =>
      ends_of_commits (.clearEvidence (contains_of_require hcheck)) rfl
  | clearAllEvidence => exact ends_of_commits .clearAllEvidence rfl
  | listen scope =>
    refine ends_check_bind fun _ hcheck => ends_of_commits (.listen hcheck) ?_
    rw [finish_of_silent rfl]
    rfl
  | dismiss id =>
    refine ends_of_commits .dismiss ?_
    rw [finish_of_silent rfl]
    rfl

theorem step_of_error (h : (op.outcome s).1 = .error e) : op.step s = s := by
  unfold step
  rcases outcome_cases s op with ⟨_, hfail⟩ | ⟨n, -, hok⟩
  · rw [hfail]
  · rw [hok] at h
    cases h

theorem step_of_ok (h : (op.outcome s).1 = .ok ()) :
    ∃ n, Commits s.network op n ∧ op.step s = op.finish s n := by
  unfold step
  rcases outcome_cases s op with ⟨_, hfail⟩ | ⟨n, hcommits, hok⟩
  · rw [hfail] at h
    cases h
  · rw [hok]
    exact ⟨n, hcommits, rfl⟩

end Operation

/-- What every operation that succeeds preserves holds of all networks that can be
built. -/
theorem Reachable.commits {P : Network → Prop} (hempty : P empty)
    (hcommits : ∀ {n op n'}, P n → Commits n op n' → P n') {n : Network} (h : n.Reachable) :
    P n := by
  obtain ⟨ops, rfl⟩ := h
  have hrun : ∀ s : Session, P s.network → P (Operation.run ops s).network := by
    induction ops with
    | nil => exact fun s hs => hs
    | cons op ops ih =>
      intro s hs
      refine ih _ ?_
      cases hop : (op.outcome s).1 with
      | error e =>
        rw [Operation.step_of_error hop]
        exact hs
      | ok _ =>
        obtain ⟨n, hn, hstep⟩ := Operation.step_of_ok hop
        rw [hstep]
        exact hcommits hs hn
  exact hrun ⟨empty, []⟩ hempty

/-- One more operation can follow. -/
theorem Reachable.step {n : Network} (h : n.Reachable) (op : Operation) :
    (op.step ⟨n, []⟩).network.Reachable := by
  obtain ⟨ops, rfl⟩ := h
  refine ⟨ops ++ [op], ?_⟩
  rw [Operation.run_append]
  have hnetwork : (Operation.run ops ⟨empty, []⟩).network =
      (⟨(Operation.run ops ⟨empty, []⟩).network, []⟩ : Session).network := rfl
  exact (Operation.outcome_congr hnetwork op).2

/-! ## Deeds and their effects -/

/-- What a network is like behind a deed, or behind an operation without
one. -/
inductive Effect (n : Network) : Option Deed → Network → Prop where
  | kept {n' : Network} (hnodes : n'.nodes = n.nodes) (hedges : n'.edges = n.edges) :
      Effect n none n'
  | defined {id label : String} (hnew : n.contains id = false) :
      Effect n (some (.define id))
        { n with nodes := n.nodes ++ [⟨id, label, Table.forParents id []⟩] }
  | linked {edge : Edge} (hedge : n.checkEdge edge = .ok ()) :
      Effect n (some (.link edge)) (n.withEdge edge)
  | filled {id : String} {v : Variable} {t : Table} {e : Expression} {entry : Decimal}
      (hv : n.find? id = some v) (ht : v.table.putDecimal e entry = .ok t) :
      Effect n (some (.fill id e entry)) (n.withTable id t)

theorem contains_of_checkNew {n : Network} {id : String} (h : n.checkNew id = .ok ()) :
    n.contains id = false := by
  unfold checkNew at h
  split at h
  · cases h
  · split at h
    · cases h
    · rename_i hnew
      simpa using hnew

/-- A table that is filled is that of a defined variable. -/
theorem exists_of_table_bind {n : Network} {id : String} {f : Table → Except Error Table}
    {t : Table} (h : n.table id >>= f = .ok t) : ∃ v, n.find? id = some v ∧ f v.table = .ok t := by
  unfold table require at h
  cases hv : n.find? id with
  | none =>
    rw [hv] at h
    cases h
  | some v =>
    rw [hv] at h
    exact ⟨v, rfl, h⟩

/-- A double that is put is put as a decimal. -/
theorem exists_of_put {t t' : Table} {e : Expression} {entry : Binary64}
    (h : t.put e entry = .ok t') :
    ∃ decimal, entry.InUnit ∧ Decimal.parse? entry.text = some decimal ∧
      t.putDecimal e decimal = .ok t' := by
  unfold Table.put at h
  split at h
  · rename_i hunit
    split at h
    · rename_i decimal hdecimal
      exact ⟨decimal, hunit, hdecimal, h⟩
    · cases h
  · cases h

/-- What an operation commits has the effect of its deed. -/
theorem Commits.effect {n n' : Network} {op : Operation} (h : Commits n op n') :
    Effect n (op.deed n) n' := by
  cases h with
  | newVariable hnew => exact .defined (contains_of_checkNew hnew)
  | addEdge hedge => exact .linked hedge
  | put htext ht =>
    obtain ⟨v, hv, hput⟩ := exists_of_table_bind ht
    obtain ⟨decimal, -, hdecimal, hput⟩ := exists_of_put hput
    simp only [Operation.deed, htext, hdecimal]
    exact .filled hv hput
  | putEntry ht =>
    obtain ⟨v, hv, hput⟩ := exists_of_table_bind ht
    obtain ⟨decimal, -, hdecimal, hput⟩ := exists_of_put hput
    simp only [Operation.deed, hdecimal]
    exact .filled hv hput
  | putDecimal ht =>
    obtain ⟨v, hv, hput⟩ := exists_of_table_bind ht
    exact .filled hv hput
  | setEvidence _ => exact .kept rfl rfl
  | clearEvidence _ => exact .kept rfl rfl
  | clearAllEvidence => exact .kept rfl rfl
  | listen _ => exact .kept rfl rfl
  | dismiss => exact .kept rfl rfl

/-- One step has the effect of its deed. -/
theorem effect_step (s : Session) (op : Operation) :
    Effect s.network (op.done s) (op.step s).network := by
  cases hop : (op.outcome s).1 with
  | error e =>
    have hdone : op.done s = none := by
      unfold Operation.done
      rw [hop]
    rw [hdone, Operation.step_of_error hop]
    exact .kept rfl rfl
  | ok _ =>
    obtain ⟨n, hcommits, hstep⟩ := Operation.step_of_ok hop
    rw [Operation.done_of_ok hop, hstep]
    exact hcommits.effect

/-- What one operation can do to the variables, the edges and the tables. -/
inductive Change (n : Network) : Network → Prop where
  | kept {n' : Network} (hnodes : n'.nodes = n.nodes) (hedges : n'.edges = n.edges) : Change n n'
  | defined {id label : String} (hnew : n.contains id = false) :
      Change n { n with nodes := n.nodes ++ [⟨id, label, Table.forParents id []⟩] }
  | linked {edge : Edge} (hedge : n.checkEdge edge = .ok ()) : Change n (n.withEdge edge)
  | filled {id : String} {v : Variable} {t : Table} {e : Expression} {entry : Decimal}
      (hv : n.find? id = some v) (ht : v.table.putDecimal e entry = .ok t) :
      Change n (n.withTable id t)

theorem Effect.change {n n' : Network} {done : Option Deed} (h : Effect n done n') :
    Change n n' := by
  cases h with
  | kept hnodes hedges => exact .kept hnodes hedges
  | defined hnew => exact .defined hnew
  | linked hedge => exact .linked hedge
  | filled hv ht => exact .filled hv ht

/-- One step is one change. -/
theorem change_step (s : Session) (op : Operation) :
    Change s.network (Operation.step s op).network :=
  (effect_step s op).change

/-- What every change keeps holds of every reachable network. -/
theorem Reachable.induction {P : Network → Prop} (hempty : P empty)
    (hchange : ∀ {n n'}, P n → Change n n' → P n') {n : Network} (h : n.Reachable) : P n :=
  h.commits hempty fun hn hcommits => hchange hn hcommits.effect.change

end Network

end BeliefNet
