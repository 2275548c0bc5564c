import Mathlib
import BeliefNet.Store.Update
import BeliefNet.Proofs.Store.Represents

/-!
# What the edits do to the network that is stored

Each edit of a stored network is one operation on the network that it represents
(`Store.outcome_simulates`): both fail with the same error and change nothing, or both
succeed, with results and notices that agree, and the store represents the network
again. Between the writes of an edit the store represents no network: an edge is in
one map before it is in the other, and a variable stands in the list before it is in
the index. What a block of writes comes to is a lemma of its own
(`Represents.define`, `Represents.link`).
-/

namespace BeliefNet

namespace Store

open Edit

variable {s : Store} {n : Network} {id : String} {v w : Node} {position : Nat}

/-! ## Blocks of writes -/

theorem set_self {α : Type} {l : List α} {i : Nat} {a : α} (h : l[i]? = some a) :
    l.set i a = l := by
  obtain ⟨hlt, rfl⟩ := List.getElem?_eq_some_iff.1 h
  exact List.set_getElem_self hlt

/-- A table in its place leaves the ids as they are. -/
theorem map_id_set (hv : s.nodes[position]? = some v) (t : TableStore) :
    (s.nodes.set position { v with table := t }).map (·.id) = s.nodes.map (·.id) := by
  rw [List.map_set]
  refine set_self ?_
  rw [List.getElem?_map, hv]
  rfl

/-- The place of an id, or the one behind all others. -/
theorem idxOf?_concat (ids : List String) (id other : String) :
    (ids ++ [id]).idxOf? other =
      (ids.idxOf? other).or (if id == other then some ids.length else none) := by
  unfold List.idxOf?
  rw [List.findIdx?_append, List.findIdx?_singleton]
  cases id == other with
  | true => simp
  | false => rfl

theorem getD_push (m : Std.HashMap String (List String)) (id neighbour other : String) :
    (push m id neighbour)[other]?.getD [] =
      m[other]?.getD [] ++ if id == other then [neighbour] else [] := by
  unfold push
  rw [Std.HashMap.getElem?_insert]
  by_cases heq : id = other
  · subst heq
    simp
  · simp [heq]

/-- The neighbours that one edge more gives. -/
theorem map_filter_concat (near far : Edge → String) (edges : List Edge) (edge : Edge)
    (id : String) :
    ((edges ++ [edge]).filter (near · == id)).map far =
      (edges.filter (near · == id)).map far ++ if near edge == id then [far edge] else [] := by
  rw [List.filter_append, List.map_append]
  cases h : near edge == id with
  | true => simp [h]
  | false => simp [h]

/-- The network behind the two pushes of an edge, whose table is not yet written. -/
def pushed (s : Store) (edge : Edge) : Store :=
  { s with
    childrenByParent := push s.childrenByParent edge.parent edge.child
    parentsByChild := push s.parentsByChild edge.child edge.parent }

theorem parents_pushed (s : Store) (edge : Edge) (id : String) :
    (s.pushed edge).parents id =
      s.parents id ++ if edge.child == id then [edge.parent] else [] :=
  getD_push _ _ _ _

theorem children_pushed (s : Store) (edge : Edge) (id : String) :
    (s.pushed edge).children id =
      s.children id ++ if edge.parent == id then [edge.child] else [] :=
  getD_push _ _ _ _

namespace Represents

/-- No other variable has the id of the one in this place. -/
theorem place_unique (h : s.Represents n) (hv : s.nodes[position]? = some v) {other : Nat}
    (hw : s.nodes[other]? = some w) (hid : w.id = v.id) : position = other := by
  obtain ⟨hlt, -⟩ := List.getElem?_eq_some_iff.1 hv
  have hlt' : position < (s.nodes.map (·.id)).length := by rwa [List.length_map]
  rw [← List.getElem?_inj hlt' h.nodup_ids, List.getElem?_map, List.getElem?_map, hv, hw]
  exact congrArg some hid.symm

theorem map_view_set (h : s.Represents n) (hv : s.nodes[position]? = some v) (t : TableStore) :
    (s.nodes.set position { v with table := t }).map Node.view =
      n.nodes.map fun w => if w.id = v.id then { w with table := t.view } else w := by
  obtain ⟨hlt, -⟩ := List.getElem?_eq_some_iff.1 hv
  rw [← h.nodes]
  refine List.ext_getElem? fun other => ?_
  rw [List.getElem?_map, List.getElem?_map, List.getElem?_map, List.getElem?_set]
  by_cases hother : position = other
  · subst hother
    rw [if_pos rfl, if_pos hlt, hv]
    show _ = some (if v.id = v.id then _ else _)
    rw [if_pos rfl]
    rfl
  · rw [if_neg hother]
    cases hw : s.nodes[other]? with
    | none => rfl
    | some w =>
      have hne : w.id ≠ v.id := fun hid => hother (h.place_unique hv hw hid)
      show some w.view = some (if w.id = v.id then _ else _)
      rw [if_neg hne]

theorem mem_set (h : s.Represents n) (hv : s.nodes[position]? = some v) {t : TableStore}
    (hw : w ∈ s.nodes.set position { v with table := t }) :
    w = { v with table := t } ∨ w ∈ s.nodes ∧ w.id ≠ v.id := by
  obtain ⟨other, hother⟩ := List.mem_iff_getElem?.1 hw
  rw [List.getElem?_set] at hother
  split at hother
  · split at hother
    · exact .inl (Option.some.inj hother).symm
    · cases hother
  · rename_i hne
    exact .inr ⟨List.mem_of_getElem? hother, fun hid => hne (h.place_unique hv hother hid)⟩

/-- The evidence is replaced. -/
theorem observe (h : s.Represents n) {evidence evidence' : List Term}
    (heq : evidence = evidence') :
    Represents { s with evidence := evidence } { n with evidence := evidence' } :=
  { h with evidence := heq, wellFormed := h.wellFormed.kept rfl rfl }

/-- The listeners are replaced. -/
theorem attend (h : s.Represents n) {listeners listeners' : Listeners}
    (heq : listeners = listeners') :
    Represents { s with listeners := listeners } { n with listeners := listeners' } :=
  { h with listeners := heq, wellFormed := h.wellFormed.kept rfl rfl }

/-- A variable stands in the list, and then in the index. -/
theorem define (h : s.Represents n) (hnew : n.contains id = false) (label : String) :
    Represents
      { s with
        nodes := s.nodes ++ [⟨id, label, .new id⟩]
        index := s.index.insert id s.nodes.length }
      { n with nodes := n.nodes ++ [⟨id, label, Table.forParents id []⟩] } where
  nodes := by
    rw [List.map_append, h.nodes, List.map_singleton, Node.view, TableStore.view_new]
  index other := by
    have hids : id ∉ s.nodes.map (·.id) := by
      rw [h.map_id, ← Network.contains_iff, hnew]
      exact Bool.false_ne_true
    rw [Std.HashMap.getElem?_insert, h.index, List.map_append, List.map_singleton,
      idxOf?_concat, List.length_map]
    by_cases heq : id = other
    · subst heq
      rw [List.idxOf?_eq_none_iff.2 hids, if_pos (beq_self_eq_true id)]
      rfl
    · have hother : (id == other) = false := by simpa using heq
      show (if id == other then _ else _) = Option.or _ (if id == other then _ else _)
      rw [hother]
      exact Option.or_none.symm
  parents := h.parents
  children := h.children
  evidence := h.evidence
  listeners := h.listeners
  tables v hv := by
    rcases List.mem_append.1 hv with hv | hv
    · exact h.tables v hv
    · obtain rfl := List.mem_singleton.1 hv
      show (TableStore.new id).Sound id (n.parents id)
      rw [h.wellFormed.parents_of_new hnew]
      exact TableStore.sound_regenerate _ []
  wellFormed := h.wellFormed.define hnew label

/-- A table is written in its place. -/
theorem fill (h : s.Represents n) (hv : s.nodes[position]? = some v) {t : TableStore}
    (ht : t.Sound v.id (n.parents v.id)) (hwellFormed : (n.withTable v.id t.view).WellFormed) :
    Represents { s with nodes := s.nodes.set position { v with table := t } }
      (n.withTable v.id t.view) where
  nodes := h.map_view_set hv t
  index other := by
    rw [map_id_set hv]
    exact h.index other
  parents := h.parents
  children := h.children
  evidence := h.evidence
  listeners := h.listeners
  tables w hw := by
    rcases h.mem_set hv hw with rfl | ⟨hw, -⟩
    · exact ht
    · exact h.tables w hw
  wellFormed := hwellFormed

/-- Behind the pushes the parents are those with the edge. -/
theorem parents_pushed (h : s.Represents n) (edge : Edge) (id : String) :
    (s.pushed edge).parents id = (n.withEdge edge).parents id := by
  rw [Store.parents_pushed, h.parents]
  exact (map_filter_concat (·.child) (·.parent) n.edges edge id).symm

theorem children_pushed (h : s.Represents n) (edge : Edge) (id : String) :
    (s.pushed edge).children id = (n.withEdge edge).children id := by
  rw [Store.children_pushed, h.children]
  exact (map_filter_concat (·.parent) (·.child) n.edges edge id).symm

/-- An edge is in the map to children, then in the map to parents, and then the rows
of its child are those of all its parents. -/
theorem link (h : s.Represents n) {edge : Edge} (hedge : n.checkEdge edge = .ok ())
    (hv : s.nodes[position]? = some v) (hid : v.id = edge.child) :
    Represents
      { s.pushed edge with nodes := s.nodes.set position { v with
          table := v.table.regenerate ((s.pushed edge).parents edge.child) } }
      (n.withEdge edge) := by
  have howner : v.table.owner = edge.child :=
    hid ▸ (h.tables v (List.mem_of_getElem? hv)).owner_eq
  rw [h.parents_pushed]
  constructor
  case nodes =>
    rw [h.map_view_set hv, TableStore.view_regenerate, howner, hid]
    rfl
  case index =>
    intro other
    rw [map_id_set hv]
    exact h.index other
  case parents => exact h.parents_pushed edge
  case children => exact h.children_pushed edge
  case evidence => exact h.evidence
  case listeners => exact h.listeners
  case tables =>
    intro w hw
    rcases h.mem_set hv hw with rfl | ⟨hw, hne⟩
    · show TableStore.Sound _ v.id _
      rw [hid, ← howner]
      exact TableStore.sound_regenerate _ _
    · rw [Network.parents_withEdge_of_ne (hid ▸ hne)]
      exact h.tables w hw
  case wellFormed => exact h.wellFormed.withEdge hedge

end Represents

/-! ## Notices -/

/-- The network without its listeners. -/
def unheard (s : Store) : Store :=
  { s with listeners := { s.listeners with registered := [] } }

theorem Represents.unheard (h : s.Represents n) : s.unheard.Represents n.unheard :=
  h.attend (by rw [h.listeners])

/-- A notice shows the network that another shows, of the same event and to the same
listener. -/
structure Notice.Shows (a : Notice) (b : BeliefNet.Notice) : Prop where
  listener : a.listener = b.listener
  event : a.event = b.event
  view : a.view.Represents b.view

/-- The store represents the network, and the notices show what they should. -/
structure Session.Follows (s : Session) (n : BeliefNet.Session) : Prop where
  store : s.store.Represents n.network
  notices : List.Forall₂ Notice.Shows s.notices n.notices

theorem apply_deliver (event : Event) (listeners : List Registration) (s : Session) :
    (deliver event listeners).apply s =
      (.ok (), { s with notices := s.notices ++
        (listeners.filter (·.scope.hears event)).map fun r => ⟨r.id, event, s.store⟩ }) := by
  induction listeners generalizing s with
  | nil =>
    rw [List.filter_nil, List.map_nil, List.append_nil]
    rfl
  | cons r listeners ih =>
    unfold deliver
    cases hhears : r.scope.hears event with
    | true =>
      have hfilter : (r :: listeners).filter (·.scope.hears event) =
          r :: listeners.filter (·.scope.hears event) :=
        List.filter_cons_of_pos hhears
      rw [hfilter, List.map_cons, List.append_cons]
      exact ih _
    | false =>
      have hfilter : (r :: listeners).filter (·.scope.hears event) =
          listeners.filter (·.scope.hears event) :=
        List.filter_cons_of_neg (by simpa using hhears)
      rw [hfilter]
      exact ih s

/-- The listeners are taken out, each whose scope it is sees the network without
them, and then they are back. -/
theorem apply_announce (event : Event) (s : Session) :
    (announce event).apply s =
      (.ok (), { s with notices := s.notices ++
        (s.store.listeners.registered.filter (·.scope.hears event)).map fun r =>
          ⟨r.id, event, s.store.unheard⟩ }) := by
  have hdeliver := apply_deliver event s.store.listeners.registered
    { s with store := s.store.unheard }
  show (deliver event s.store.listeners.registered >>= fun _ =>
    restoreListeners s.store.listeners.registered).apply { s with store := s.store.unheard } = _
  rw [Writing.apply_bind, hdeliver]
  rfl

/-- Both announce the same. -/
theorem Session.Follows.announce {s : Session} {n : BeliefNet.Session} (h : s.Follows n)
    (event : Event) :
    ((Edit.announce event).apply s).2.Follows ((Update.announce event).apply n).2 := by
  rw [apply_announce]
  refine ⟨h.store, List.rel_append h.notices ?_⟩
  rw [h.store.listeners, List.forall₂_map_left_iff, List.forall₂_map_right_iff]
  exact List.forall₂_same.2 fun r _ => ⟨rfl, rfl, h.store.unheard⟩

/-- How an edit of a store ends, beside the operation on the network: both fail and
change nothing, or both succeed and still agree. -/
inductive Simulates {α β : Type} (R : α → β → Prop) (s : Session) (n : BeliefNet.Session) :
    Except Error α × Session → Except Error β × BeliefNet.Session → Prop where
  | failed (e : Error) : Simulates R s n (.error e, s) (.error e, n)
  | done {a : α} {b : β} {s' : Session} {n' : BeliefNet.Session} (hresult : R a b)
      (h : s'.Follows n') : Simulates R s n (.ok a, s') (.ok b, n')

theorem apply_check_bind {α β : Type} (f : Store → Except Error α) (g : α → Edit β)
    (s : Session) :
    (check f >>= g).apply s =
      match f s.store with
      | .error e => (.error e, s)
      | .ok a => (g a).apply s :=
  Writing.apply_check_bind _ g s

section

variable {α β : Type} {R : α → β → Prop} {s : Session} {n : BeliefNet.Session} {γ δ : Type}

/-- Checks that find the same come first. -/
theorem simulates_check_bind {f : Store → Except Error γ} {f' : Network → Except Error γ}
    {g : γ → Edit α} {g' : γ → BeliefNet.Update β} (hcheck : f s.store = f' n.network)
    (h : ∀ c, f' n.network = .ok c → Simulates R s n ((g c).apply s) ((g' c).apply n)) :
    Simulates R s n ((check f >>= g).apply s) ((Update.check f' >>= g').apply n) := by
  rw [apply_check_bind, Update.apply_check_bind, hcheck]
  cases hfound : f' n.network with
  | error e => exact .failed e
  | ok c => exact h c hfound

/-- A variable has to be defined, and its place is known then. -/
theorem simulates_require_bind (hs : s.Follows n) {id : String} {g : Nat → Edit α}
    {g' : Variable → BeliefNet.Update β}
    (h : ∀ position v, s.store.nodes[position]? = some v → v.id = id →
      n.network.require id = .ok v.view →
      Simulates R s n ((g position).apply s) ((g' v.view).apply n)) :
    Simulates R s n ((check (·.require id) >>= g).apply s)
      ((Update.check (·.require id) >>= g').apply n) := by
  rw [apply_check_bind, Update.apply_check_bind]
  obtain ⟨hstore, hnetwork⟩ | ⟨position, v, hstore, hv, hid, hnetwork⟩ :=
    hs.store.require_cases id
  · rw [hstore, hnetwork]
    exact .failed _
  · rw [hstore, hnetwork]
    exact h position v hv hid hnetwork

/-- Behind writes that agree, announcing ends the edit. -/
theorem Session.Follows.simulates_announce {s' : Session} {n' : BeliefNet.Session}
    (h : s'.Follows n') (event : Event) :
    Simulates (fun _ _ => True) s n ((Edit.announce event).apply s')
      ((Update.announce event).apply n') := by
  have hannounced := h.announce event
  rw [apply_announce] at hannounced ⊢
  exact .done trivial hannounced

/-- The same evidence, and the same notices of it. -/
theorem simulates_replaceEvidence (h : s.Follows n) (f : List Term → List Term) :
    Simulates (fun _ _ => True) s n ((replaceEvidence f).apply s)
      ((Network.replaceEvidence f).apply n) := by
  have hobserved : Session.Follows
      { s with store := { s.store with evidence := f s.store.evidence } }
      { n with network := { n.network with evidence := f n.network.evidence } } :=
    ⟨h.store.observe (congrArg f h.store.evidence), h.notices⟩
  exact hobserved.simulates_announce .changed

theorem simulates_setEvidence (h : s.Follows n) (t : Term) :
    Simulates (fun _ _ => True) s n ((setEvidence t).apply s) ((Network.setEvidence t).apply n) :=
  simulates_require_bind h fun _ _ _ _ _ => simulates_replaceEvidence h _

theorem simulates_clearEvidence (h : s.Follows n) (id : String) :
    Simulates (fun _ _ => True) s n ((clearEvidence id).apply s)
      ((Network.clearEvidence id).apply n) :=
  simulates_require_bind h fun _ _ _ _ _ => simulates_replaceEvidence h _

theorem checkNew_eq (h : s.Follows n) (id : String) :
    s.store.checkNew id = n.network.checkNew id := by
  unfold checkNew Network.checkNew
  rw [h.store.contains_eq]

theorem simulates_newVariable (h : s.Follows n) (id : String) (label : Option String) :
    Simulates (fun v w => v.view = w) s n ((newVariable id label).apply s)
      ((Network.newVariable id label).apply n) := by
  refine simulates_check_bind (checkNew_eq h id) fun _ hcheck => ?_
  refine .done ?_ ⟨h.store.define (Network.contains_of_checkNew hcheck) _, h.notices⟩
  show (Node.mk id (label.getD id) (.new id)).view = _
  rw [Node.view, TableStore.view_new]

theorem checkScope_eq (h : s.Follows n) (scope : Scope) :
    s.store.checkScope scope = n.network.checkScope scope := by
  match scope with
  | .network => rfl
  | .variable id =>
    show (s.store.require id).map _ = (n.network.require id).map _
    obtain ⟨hstore, hnetwork⟩ | ⟨position, v, hstore, -, -, hnetwork⟩ :=
      h.store.require_cases id
    · rw [hstore, hnetwork]
      rfl
    · rw [hstore, hnetwork]
      rfl

theorem simulates_listen (h : s.Follows n) (scope : Scope) :
    Simulates Eq s n ((listen scope).apply s) ((Network.listen scope).apply n) := by
  refine simulates_check_bind (checkScope_eq h scope) fun _ _ => ?_
  refine .done (congrArg Listeners.nextId h.store.listeners) ⟨?_, h.notices⟩
  refine h.store.attend ?_
  rw [← h.store.listeners]

theorem simulates_dismiss (h : s.Follows n) (id : Nat) :
    Simulates Eq s n ((dismiss id).apply s) ((Network.dismiss id).apply n) := by
  refine .done ?_ ⟨?_, h.notices⟩
  · show ((s.store.listeners.registered.filter (·.id != id)).length !=
      s.store.listeners.registered.length) = _
    rw [h.store.listeners]
  · refine h.store.attend ?_
    rw [← h.store.listeners]

/-! ## Writing to tables -/

theorem apply_current_bind {α : Type} (g : Store → Edit α) (s : Session) :
    (current >>= g).apply s = (g s.store).apply s := rfl

theorem apply_write_bind {α : Type} (f : Store → Store) (g : Unit → Edit α) (s : Session) :
    (write f >>= g).apply s = (g ()).apply { s with store := f s.store } := rfl

/-- The table is written whether the writing fails or not. -/
theorem apply_onTable {v : Node} {position : Nat} (hv : s.store.nodes[position]? = some v)
    (w : Writing TableStore Unit) :
    (onTable position w).apply s =
      ((w.apply v.table).1, { s with store := { s.store with
        nodes := s.store.nodes.set position { v with table := (w.apply v.table).2 } } }) := by
  unfold onTable
  rw [apply_current_bind, hv]
  show Writing.apply (check (fun _ => (w.apply v.table).1)) _ = _
  exact Writing.apply_check _ _

/-- Both refuse an edge for the same reason, or both accept it. -/
theorem Represents.checkEdge_cases {s : Store} {n : Network} (h : s.Represents n) (edge : Edge) :
    (∃ e, s.checkEdge edge = .error e ∧ n.checkEdge edge = .error e) ∨
    ∃ position v, s.checkEdge edge = .ok position ∧ s.nodes[position]? = some v ∧
      v.id = edge.child ∧ n.checkEdge edge = .ok () := by
  have hmem : edge.parent ∈ s.parents edge.child ↔ edge ∈ n.edges := by
    rw [h.parents]
    exact Graph.mem_parents
  unfold checkEdge Network.checkEdge
  obtain ⟨hstore, hnetwork⟩ | ⟨position, v, hstore, hv, hid, hnetwork⟩ :=
    h.require_cases edge.child
  · rw [hstore, hnetwork]
    exact .inl ⟨_, rfl, rfl⟩
  obtain ⟨hstore', hnetwork'⟩ | ⟨other, w, hstore', -, -, hnetwork'⟩ :=
    h.require_cases edge.parent
  · rw [hstore, hnetwork, hstore', hnetwork']
    exact .inl ⟨_, rfl, rfl⟩
  rw [hstore, hnetwork, hstore', hnetwork', h.reaches_eq]
  simp only [bind, Except.bind, hmem]
  split
  · exact .inl ⟨_, rfl, rfl⟩
  split
  · exact .inl ⟨_, rfl, rfl⟩
  · exact .inr ⟨position, v, rfl, hv, hid, rfl⟩

/-- What is announced is the edge behind all its writes. -/
theorem apply_addEdge {edge : Edge} {position : Nat} {v : Node}
    (hcheck : s.store.checkEdge edge = .ok position) (hv : s.store.nodes[position]? = some v) :
    (addEdge edge).apply s = (Edit.announce (.edgeAdded edge)).apply
      { s with store := { s.store.pushed edge with
        nodes := s.store.nodes.set position { v with
          table := v.table.regenerate ((s.store.pushed edge).parents edge.child) } } } := by
  have hpushed : (addEdge edge).apply s =
      (onTable position (modify (·.regenerate ((s.store.pushed edge).parents edge.child))) >>=
        fun _ => Edit.announce (.edgeAdded edge)).apply ⟨s.store.pushed edge, s.notices⟩ := by
    unfold addEdge
    rw [apply_check_bind, hcheck]
    simp only [apply_write_bind, apply_current_bind]
    rfl
  have hwritten := apply_onTable (s := ⟨s.store.pushed edge, s.notices⟩) hv
    (modify (·.regenerate ((s.store.pushed edge).parents edge.child)))
  rw [hpushed, Writing.apply_bind, hwritten]
  rfl

/-- The writes of an edge come to one edge more. -/
theorem simulates_addEdge (h : s.Follows n) (edge : Edge) :
    Simulates (fun _ _ => True) s n ((addEdge edge).apply s) ((Network.addEdge edge).apply n) := by
  obtain ⟨e, hstore, hnetwork⟩ | ⟨position, v, hstore, hv, hid, hnetwork⟩ :=
    h.store.checkEdge_cases edge
  · unfold addEdge Network.addEdge
    rw [apply_check_bind, Update.apply_check_bind, hstore, hnetwork]
    exact .failed e
  · have hlinked : Session.Follows ⟨_, s.notices⟩ ⟨n.network.withEdge edge, n.notices⟩ :=
      ⟨h.store.link hnetwork hv hid, h.notices⟩
    rw [apply_addEdge hstore hv]
    unfold Network.addEdge
    rw [Update.apply_check_bind, hnetwork]
    exact hlinked.simulates_announce (.edgeAdded edge)

theorem find?_of_require {n : Network} {id : String} {v : Variable} (h : n.require id = .ok v) :
    n.find? id = some v := by
  unfold Network.require at h
  split at h
  · rename_i hfind
    rw [hfind, Except.ok.inj h]
  · cases h

/-- A put that is refused writes nothing, and one that is accepted fills the rows. -/
theorem simulates_fillTable (h : s.Follows n) (id : String) {w : Writing TableStore Unit}
    {f : Table → Except Error Table} (hw : ∀ t : TableStore, t.PutEnds (w.apply t) (f t.view))
    (hf : ∀ {t t'}, f t = .ok t' → ∃ e entry, t.putDecimal e entry = .ok t') :
    Simulates (fun _ _ => True) s n ((fillTable id w).apply s)
      ((Network.fillTable id f).apply n) := by
  unfold fillTable Network.fillTable
  rw [apply_check_bind, Update.apply_check_bind]
  unfold Network.table
  obtain ⟨hstore, hnetwork⟩ | ⟨position, v, hstore, hv, rfl, hnetwork⟩ := h.store.require_cases id
  · rw [hstore, hnetwork]
    exact .failed _
  rw [hstore, hnetwork]
  have hput : (Except.map (·.table) (Except.ok v.view) >>= f) = f v.table.view := rfl
  have hends := hw v.table
  have htable := h.store.tables v (List.mem_of_getElem? hv)
  rw [hput]
  show Simulates _ s n ((onTable position w).apply s) _
  rw [apply_onTable hv]
  generalize hfound : f v.table.view = found at hends
  generalize w.apply v.table = written at hends
  cases hends with
  | refused e =>
    have hsame : s.store.nodes.set position { v with table := v.table } = s.store.nodes :=
      set_self hv
    rw [hsame]
    exact .failed e
  | filled entry hrow hvalue hcounterpart =>
    have hfind := find?_of_require hnetwork
    obtain ⟨e', entry', hput'⟩ := hf hfound
    have hwellFormed := h.store.wellFormed.change (.filled hfind hput')
    refine .done trivial ⟨h.store.fill hv ?_ hwellFormed, h.notices⟩
    exact htable.put (h.store.wellFormed.nodup_parents _) (h.store.wellFormed.not_mem_parents _)
      (.filled entry hrow hvalue hcounterpart)

theorem simulates_putDecimal (h : s.Follows n) (id : String) (e : Expression)
    (entry : Decimal) :
    Simulates (fun _ _ => True) s n ((putDecimal id e entry).apply s)
      ((Network.putDecimal id e entry).apply n) :=
  simulates_fillTable h id (fun t => t.putDecimal_ends e entry) fun hput => ⟨e, entry, hput⟩

theorem simulates_putEntry (h : s.Follows n) (id : String) (e : Expression)
    (entry : Binary64) :
    Simulates (fun _ _ => True) s n ((putEntry id e entry).apply s)
      ((Network.putEntry id e entry).apply n) := by
  refine simulates_fillTable h id (fun t => t.put_ends e entry) fun hput => ?_
  obtain ⟨decimal, -, -, hput⟩ := Network.exists_of_put hput
  exact ⟨e, decimal, hput⟩

theorem simulates_put (h : s.Follows n) (id text : String) (entry : Binary64) :
    Simulates (fun _ _ => True) s n ((put id text entry).apply s)
      ((Network.put id text entry).apply n) :=
  simulates_check_bind (h.store.parse_eq text) fun e _ => simulates_putEntry h id e entry

end

end Store

end BeliefNet
