import Mathlib
import BeliefNet.Proofs.Network.WellFormed
import BeliefNet.Proofs.Table.Puts

/-!
# What a run leaves behind

A network is a function of what the operations that succeeded have done to it
(`Reflects`, `build_reflects`):

* the variables are those that were defined, and the edges those that were
  added, each in the order of the operations;
* the table of a variable holds what was put into it since it last started
  anew, that is since the variable was defined or the last edge to it was added.

So the tables of a run are partial maps from the assignments of the parents to
probabilities (`build_tables`).
-/

namespace BeliefNet

namespace Network

namespace Deed

/-- The variable that was defined. -/
def id? : Deed → Option String
  | define id => some id
  | _ => none

/-- The edge that was added. -/
def edge? : Deed → Option Edge
  | link edge => some edge
  | _ => none

/-- What was put into the table of a variable. -/
def put? (id : String) : Deed → Option Put
  | fill other e entry => if other = id then some ⟨e, entry⟩ else none
  | _ => none

/-- The table of a variable starts anew. -/
def resets (id : String) : Deed → Bool
  | define other => other == id
  | link edge => edge.child == id
  | fill .. => false

/-- The variables that were defined, in order. -/
def defined (past : List Deed) : List String := past.filterMap id?

/-- The edges that were added, in order. -/
def links (past : List Deed) : List Edge := past.filterMap edge?

/-- What was put into the table of a variable since it last started anew. -/
def puts (id : String) (past : List Deed) : List Put :=
  (past.rtakeWhile fun deed => !deed.resets id).filterMap (put? id)

variable {past fills : List Deed} {deed : Deed} {id : String}

@[simp] theorem defined_concat (past : List Deed) (deed : Deed) :
    defined (past ++ [deed]) = defined past ++ deed.id?.toList := by
  unfold defined
  rw [List.filterMap_append]
  cases h : deed.id? with
  | none => simp [h]
  | some id => simp [h]

@[simp] theorem links_concat (past : List Deed) (deed : Deed) :
    links (past ++ [deed]) = links past ++ deed.edge?.toList := by
  unfold links
  rw [List.filterMap_append]
  cases h : deed.edge? with
  | none => simp [h]
  | some edge => simp [h]

theorem puts_concat_of_resets (h : deed.resets id = true) : puts id (past ++ [deed]) = [] := by
  unfold puts
  rw [List.rtakeWhile_concat_neg _ _ _ (by simp [h])]
  rfl

theorem puts_concat (h : deed.resets id = false) :
    puts id (past ++ [deed]) = puts id past ++ (deed.put? id).toList := by
  unfold puts
  rw [List.rtakeWhile_concat_pos _ _ _ (by simp [h]), List.filterMap_append]
  cases hput : deed.put? id with
  | none => simp [hput]
  | some p => simp [hput]

/-- Behind deeds that put nothing, only the fillings count. -/
theorem puts_append (hpast : ∀ deed ∈ past, deed.put? id = none)
    (hfills : ∀ deed ∈ fills, deed.resets id = false) :
    puts id (past ++ fills) = fills.filterMap (put? id) := by
  induction fills using List.reverseRecOn with
  | nil =>
    rw [List.append_nil]
    refine List.filterMap_eq_nil_iff.2 fun deed hdeed => hpast deed ?_
    exact (List.rtakeWhile_suffix _ past).subset hdeed
  | append_singleton fills deed ih =>
    have hlast : deed.resets id = false := hfills deed (by simp)
    rw [← List.append_assoc, puts_concat hlast,
      ih fun deed hdeed => hfills deed (List.mem_append_left _ hdeed), List.filterMap_append]
    cases hput : deed.put? id with
    | none => simp [hput]
    | some p => simp [hput]

theorem mem_puts_concat {p : Put} (h : p ∈ puts id (past ++ [deed])) :
    p ∈ puts id past ∨ deed.put? id = some p := by
  cases hresets : deed.resets id with
  | true =>
    rw [puts_concat_of_resets hresets] at h
    exact absurd h List.not_mem_nil
  | false =>
    rw [puts_concat hresets, List.mem_append, Option.mem_toList] at h
    exact h

/-! ### Kinds of deeds -/

theorem defined_append (past past' : List Deed) :
    defined (past ++ past') = defined past ++ defined past' := List.filterMap_append

theorem links_append (past past' : List Deed) :
    links (past ++ past') = links past ++ links past' := List.filterMap_append

@[simp] theorem defined_map_link (edges : List Edge) : defined (edges.map link) = [] := by
  simp [defined, id?]

@[simp] theorem links_map_link (edges : List Edge) : links (edges.map link) = edges := by
  unfold links
  rw [List.filterMap_map]
  exact List.filterMap_some

/-- The deeds fill rows, and do nothing else. -/
def Fills (fills : List Deed) : Prop := ∀ deed ∈ fills, ∃ id e entry, deed = fill id e entry

namespace Fills

theorem defined_eq (h : Fills fills) : defined fills = [] := by
  refine List.filterMap_eq_nil_iff.2 fun deed hdeed => ?_
  obtain ⟨id, e, entry, rfl⟩ := h deed hdeed
  rfl

theorem links_eq (h : Fills fills) : links fills = [] := by
  refine List.filterMap_eq_nil_iff.2 fun deed hdeed => ?_
  obtain ⟨id, e, entry, rfl⟩ := h deed hdeed
  rfl

theorem resets_eq (h : Fills fills) (id : String) : ∀ deed ∈ fills, deed.resets id = false := by
  intro deed hdeed
  obtain ⟨_, e, entry, rfl⟩ := h deed hdeed
  rfl

end Fills

end Deed

/-! ## Operations that succeed -/

namespace Operation

/-- The edge that an operation adds. -/
def link? : Operation → Option Edge
  | addEdge edge => some edge
  | _ => none

/-- The id of the variable that an operation defines. -/
def definition? : Operation → Option String
  | newVariable id _ => some id
  | _ => none

/-- A put adds no edge and defines no variable, whether its text can be read or not. -/
theorem deed_put {α : Type} {f : Deed → Option α} (hf : ∀ id e entry, f (.fill id e entry) = none)
    (n : Network) (id text : String) (entry : Binary64) :
    ((put id text entry).deed n).bind f = none := by
  show ((n.parse text).toOption.bind fun e =>
    (Decimal.parse? entry.text).map (.fill id e)).bind f = _
  cases (n.parse text).toOption with
  | none => rfl
  | some e =>
    cases Decimal.parse? entry.text with
    | none => rfl
    | some decimal => exact hf id e decimal

theorem deed_putEntry {α : Type} {f : Deed → Option α}
    (hf : ∀ id e entry, f (.fill id e entry) = none) (n : Network) (id : String) (e : Expression)
    (entry : Binary64) : ((putEntry id e entry).deed n).bind f = none := by
  show ((Decimal.parse? entry.text).map (.fill id e)).bind f = _
  cases Decimal.parse? entry.text with
  | none => rfl
  | some decimal => exact hf id e decimal

theorem deed_link (n : Network) (op : Operation) : (op.deed n).bind Deed.edge? = op.link? := by
  cases op with
  | put id text entry => exact deed_put (fun _ _ _ => rfl) n id text entry
  | putEntry id e entry => exact deed_putEntry (fun _ _ _ => rfl) n id e entry
  | _ => rfl

theorem deed_definition (n : Network) (op : Operation) :
    (op.deed n).bind Deed.id? = op.definition? := by
  cases op with
  | put id text entry => exact deed_put (fun _ _ _ => rfl) n id text entry
  | putEntry id e entry => exact deed_putEntry (fun _ _ _ => rfl) n id e entry
  | _ => rfl

/-- What is read off the deeds of a run is read off the operations that do not fail. -/
theorem filterMap_history {α : Type} {f : Deed → Option α} {g : Operation → Option α}
    (hdeed : ∀ n op, (deed n op).bind f = g op) (s : Session) (ops : List Operation) :
    (history s ops).filterMap f = (accepted s ops).filterMap g := by
  induction ops generalizing s with
  | nil => rfl
  | cons op ops ih =>
    unfold history accepted done
    rw [List.filterMap_append, ih]
    cases hop : (op.outcome s).1 with
    | error e => rfl
    | ok _ =>
      simp only [List.filterMap_cons, ← hdeed s.network op]
      cases op.deed s.network with
      | none => rfl
      | some deed =>
        rw [Option.bind_some]
        cases hf : f deed with
        | none => simp [hf]
        | some a => simp [hf]

end Operation

/-! ## Networks that are built -/

/-- The network that some operations build, failing ones included. -/
def build (ops : List Operation) : Network := (Operation.run ops ⟨empty, []⟩).network

/-- What those of them that succeed have done. -/
def deeds (ops : List Operation) : List Deed := Operation.history ⟨empty, []⟩ ops

/-- The network is what some deeds leave behind. -/
structure Reflects (n : Network) (past : List Deed) : Prop where
  ids : n.nodes.map (·.id) = Deed.defined past
  edges : n.edges = Deed.links past
  tables : ∀ v ∈ n.nodes, v.table = Table.ofPuts v.id (n.parents v.id) (Deed.puts v.id past)
  inUnit : ∀ id, ∀ p ∈ Deed.puts id past, p.entry.InUnit

variable {n n' : Network} {past : List Deed} {s : Session}

theorem reflects_empty : empty.Reflects [] where
  ids := rfl
  edges := rfl
  tables _ hv := absurd hv List.not_mem_nil
  inUnit _ _ hp := absurd hp List.not_mem_nil

namespace Reflects

/-- A deed that puts nothing leaves probabilities only. -/
theorem inUnit_concat (h : n.Reflects past) {deed : Deed}
    (hput : ∀ id p, deed.put? id = some p → p.entry.InUnit) (id : String) :
    ∀ p ∈ Deed.puts id (past ++ [deed]), p.entry.InUnit := by
  intro p hp
  rcases Deed.mem_puts_concat hp with hp | hp
  · exact h.inUnit id p hp
  · exact hput id p hp

theorem kept (h : n.Reflects past) (hnodes : n'.nodes = n.nodes) (hedges : n'.edges = n.edges) :
    n'.Reflects past := by
  constructor
  · rw [hnodes]
    exact h.ids
  · rw [hedges]
    exact h.edges
  · intro v hv
    rw [hnodes] at hv
    unfold parents
    rw [hedges]
    exact h.tables v hv
  · exact h.inUnit

theorem define (hn : n.WellFormed) (h : n.Reflects past) {id label : String}
    (hnew : n.contains id = false) :
    Reflects { n with nodes := n.nodes ++ [⟨id, label, Table.forParents id []⟩] }
      (past ++ [.define id]) := by
  have hid : id ∉ n.nodes.map (·.id) := by
    rw [← contains_iff, hnew]
    simp
  constructor
  · show (n.nodes ++ _).map (·.id) = _
    rw [List.map_append, h.ids, Deed.defined_concat]
    rfl
  · rw [Deed.links_concat]
    simpa [Deed.edge?] using h.edges
  · intro v hv
    show v.table = Table.ofPuts v.id (n.parents v.id) _
    rcases List.mem_append.1 hv with hv | hv
    · have hne : id ≠ v.id := fun heq => hid (heq ▸ List.mem_map_of_mem hv)
      rw [Deed.puts_concat (by simpa [Deed.resets] using hne)]
      simpa [Deed.put?] using h.tables v hv
    · obtain rfl := List.mem_singleton.1 hv
      rw [Deed.puts_concat_of_resets (by simp [Deed.resets]), hn.parents_of_new hnew]
      exact Table.forParents_eq_ofPuts id []
  · exact h.inUnit_concat fun _ _ hput => by cases hput

theorem link (h : n.Reflects past) (edge : Edge) :
    (n.withEdge edge).Reflects (past ++ [.link edge]) := by
  constructor
  · rw [Deed.defined_concat]
    show (n.withEdge edge).nodes.map (·.id) = _
    unfold withEdge
    rw [WellFormed.map_id_withTable]
    simpa [Deed.id?] using h.ids
  · rw [Deed.links_concat, ← h.edges]
    rfl
  · intro w hw
    obtain ⟨v, hv, rfl⟩ := List.mem_map.1 hw
    by_cases hid : v.id = edge.child
    · rw [if_pos hid]
      show Table.forParents edge.child _ = Table.ofPuts v.id _ _
      rw [hid, Deed.puts_concat_of_resets (by simp [Deed.resets])]
      exact Table.forParents_eq_ofPuts _ _
    · rw [if_neg hid, parents_withEdge_of_ne hid,
        Deed.puts_concat (by simpa [Deed.resets] using Ne.symm hid)]
      simpa [Deed.put?] using h.tables v hv
  · exact h.inUnit_concat fun _ _ hput => by cases hput

theorem fill (hn : n.WellFormed) (h : n.Reflects past) {id : String} {v : Variable} {t : Table}
    {e : Expression} {entry : Decimal} (hv : n.find? id = some v)
    (ht : v.table.putDecimal e entry = .ok t) :
    (n.withTable id t).Reflects (past ++ [.fill id e entry]) := by
  obtain ⟨hmem, rfl⟩ := mem_of_find? hv
  rw [h.tables v hmem] at ht
  obtain ⟨hunit, hrow⟩ := Table.isRowOf_of_putDecimal ht
  rw [Table.putDecimal_ofPuts (hn.nodup_parents _) (hn.not_mem_parents _) hrow hunit] at ht
  constructor
  · rw [WellFormed.map_id_withTable, Deed.defined_concat]
    simpa [Deed.id?] using h.ids
  · rw [Deed.links_concat]
    simpa [Deed.edge?] using h.edges
  · intro w hw
    obtain ⟨u, hu, rfl⟩ := List.mem_map.1 hw
    by_cases hid : u.id = v.id
    · rw [if_pos hid, ← Except.ok.inj ht, Deed.puts_concat rfl]
      show Table.ofPuts v.id _ _ = Table.ofPuts u.id (n.parents u.id) _
      rw [hid]
      simp [Deed.put?]
    · rw [if_neg hid, Deed.puts_concat rfl]
      simpa [Deed.put?, Ne.symm hid] using h.tables u hu
  · refine h.inUnit_concat fun id p hput => ?_
    obtain ⟨-, rfl⟩ : v.id = id ∧ (⟨e, entry⟩ : Put) = p := by simpa [Deed.put?] using hput
    exact hunit

/-- One step: the deed is one more. -/
theorem effect (hn : n.WellFormed) (h : n.Reflects past) {done : Option Deed}
    (heffect : Effect n done n') : n'.Reflects (past ++ done.toList) := by
  cases heffect with
  | kept hnodes hedges => simpa using h.kept hnodes hedges
  | defined hnew => exact h.define hn hnew
  | linked hedge => exact h.link _
  | filled hv ht => exact h.fill hn hv ht

/-- A run: the history is what comes behind. -/
theorem run (hn : s.network.WellFormed) (h : s.network.Reflects past) (ops : List Operation) :
    (Operation.run ops s).network.Reflects (past ++ Operation.history s ops) := by
  induction ops generalizing s past with
  | nil => simpa [Operation.history, Operation.run] using h
  | cons op ops ih =>
    unfold Operation.history
    rw [← List.append_assoc]
    exact ih (hn.change (change_step s op)) (h.effect hn (effect_step s op))

end Reflects

theorem build_reachable (ops : List Operation) : (build ops).Reachable := ⟨ops, rfl⟩

theorem build_reflects (ops : List Operation) : (build ops).Reflects (deeds ops) :=
  Reflects.run (s := ⟨empty, []⟩) WellFormed.empty reflects_empty ops

/-! ## The graph -/

/-- The edges by child are the edges. -/
theorem WellFormed.edgesByChild_perm (h : n.WellFormed) : n.edgesByChild.Perm n.edges := by
  have hmem : ∀ e, e ∈ n.edgesByChild ↔ e ∈ n.edges := by
    intro e
    unfold edgesByChild
    rw [List.mem_flatMap]
    constructor
    · rintro ⟨v, -, he⟩
      obtain ⟨parent, hparent, rfl⟩ := List.mem_map.1 he
      exact Graph.mem_parents.1 hparent
    · intro he
      obtain ⟨v, hv, hid⟩ := List.mem_map.1 (contains_iff.1 (h.defined e he).2)
      have hparent : e.parent ∈ n.parents v.id := hid ▸ Graph.mem_parents.2 he
      refine ⟨v, hv, List.mem_map.2 ⟨e.parent, hparent, ?_⟩⟩
      rw [hid]
  have hnodup : n.edgesByChild.Nodup := by
    unfold edgesByChild
    rw [List.nodup_flatMap]
    constructor
    · intro v _
      exact (h.nodup_parents v.id).map fun _ _ heq => congrArg Edge.parent heq
    · -- edges of different variables differ in the child
      refine (List.pairwise_map.1 h.nodup_ids).imp fun {v w} hne e he he' => ?_
      obtain ⟨_, _, rfl⟩ := List.mem_map.1 he
      obtain ⟨_, _, heq⟩ := List.mem_map.1 he'
      exact hne (congrArg Edge.child heq).symm
  exact (List.perm_ext_iff_of_nodup hnodup h.nodup_edges).2 hmem

/-! ## The tables -/

/-- The table of a variable is a partial map from the assignments of its parents
to probabilities. It has exactly the expressions with one hypothesis, on the
variable, and evidence for each parent, in any order. A row is unfilled until
its assignment has been put since the table last started anew, and then holds
what the last such put says: the probability, or its complement if it was put on
the other row. So the two rows of an assignment add up to one, and the table is
complete once all assignments have been put. -/
theorem build_tables (ops : List Operation) {v : Variable} (hv : v ∈ (build ops).nodes) :
    (∀ e, (∃ error, v.table.get? e = .error error) ↔
      ¬e.IsRowOf v.id ((build ops).parents v.id)) ∧
    (∀ e, e.IsRowOf v.id ((build ops).parents v.id) →
      (v.table.get? e = .ok none ↔ ∀ p ∈ Deed.puts v.id (deeds ops), ¬p.Concerns e) ∧
      (∀ x, v.table.get? e = .ok (some x) ↔ ∃ before p after,
        Deed.puts v.id (deeds ops) = before ++ p :: after ∧ p.Concerns e ∧
        (∀ later ∈ after, ¬later.Concerns e) ∧ x = p.on e)) ∧
    (∀ e e', e.IsRowOf v.id ((build ops).parents v.id) →
      e'.IsRowOf v.id ((build ops).parents v.id) → e.evidence.Perm e'.evidence →
      e.hypotheses ≠ e'.hypotheses →
      ∃ x y, v.table.get? e = .ok x ∧ v.table.get? e' = .ok y ∧ Table.Complementary x y) ∧
    (∀ p ∈ Deed.puts v.id (deeds ops),
      p.entry.InUnit ∧ p.entry.complement.toRat = 1 - p.entry.toRat) ∧
    (v.table.isComplete = true ↔ v.table.size = v.table.expressions.length) ∧
    (v.table.isComplete = true ↔ ∀ values : String → Bool, ∃ p ∈ Deed.puts v.id (deeds ops),
      p.expression.evidence.Perm (((build ops).parents v.id).map fun id => ⟨id, values id⟩)) := by
  have h := (build_reachable ops).wellFormed
  have hnodup := h.nodup_parents v.id
  have hpaired := h.paired v hv
  have htable := (build_reflects ops).tables v hv
  have hget : ∀ e, e.IsRowOf v.id ((build ops).parents v.id) →
      v.table.get? e = .ok (Put.recorded (Deed.puts v.id (deeds ops)) e) := by
    intro e hrow
    rw [htable]
    exact Table.get?_ofPuts hnodup hrow
  refine ⟨?_, ?_, ?_, ?_, ?_, ?_⟩
  · intro e
    constructor
    · rintro ⟨error, herror⟩ hrow
      rw [hget e hrow] at herror
      cases herror
    · intro hrow
      rw [htable]
      exact ⟨_, Table.get?_of_not_isRowOf hrow⟩
  · intro e hrow
    rw [hget e hrow]
    constructor
    · rw [Except.ok.injEq, Put.recorded_eq_none_iff]
    · intro x
      rw [Except.ok.injEq, Put.recorded_eq_some_iff]
  · intro e e' hrow hrow' hevidence hother
    exact Table.complementary_recorded hpaired hnodup hrow hrow' hevidence hother
  · intro p hp
    have hunit := (build_reflects ops).inUnit v.id p hp
    exact ⟨hunit, Decimal.toRat_complement hunit⟩
  · exact Table.isComplete_iff_size v.table
  · rw [htable]
    exact Table.isComplete_ofPuts hnodup

/-- The alarm gets a prior. -/
def alarmPrior : List Operation :=
  alarmVariables ++ [.putDecimal "alarm" ⟨⟨[⟨"alarm", true⟩], []⟩⟩ (tenths 5)]

/-- The edge from the fault takes the prior back. Then two probabilities are put
for one assignment, one on each row. -/
def revision : List Operation :=
  alarmPrior ++ alarm.edges.map .addEdge ++
    [.putDecimal "alarm" ⟨⟨[⟨"alarm", true⟩], [⟨"fault", true⟩]⟩⟩ (tenths 8),
      .putDecimal "alarm" ⟨⟨[⟨"alarm", false⟩], [⟨"fault", true⟩]⟩⟩ (tenths 1)]

theorem deeds_revision : deeds revision =
    [.define "fault", .define "alarm", .fill "alarm" ⟨⟨[⟨"alarm", true⟩], []⟩⟩ (tenths 5),
      .link ⟨"fault", "alarm"⟩,
      .fill "alarm" ⟨⟨[⟨"alarm", true⟩], [⟨"fault", true⟩]⟩⟩ (tenths 8),
      .fill "alarm" ⟨⟨[⟨"alarm", false⟩], [⟨"fault", true⟩]⟩⟩ (tenths 1)] := by
  have hacyclic : Graph.Acyclic
      ((Operation.run alarmPrior ⟨empty, []⟩).network.edges ++ alarm.edges) := by
    have hnone : (Operation.run alarmPrior ⟨empty, []⟩).network.edges = [] := by decide +kernel
    rw [hnone]
    exact alarm_acyclic
  obtain ⟨-, hhistory, hlinked⟩ := run_addEdge alarm.edges (Operation.run alarmPrior ⟨empty, []⟩)
    (by decide +kernel) (by decide +kernel) hacyclic
  unfold deeds revision
  rw [Operation.history_append, Operation.history_append, hhistory, Operation.run_append,
    Operation.history_congr (show _ = (⟨_, []⟩ : Session).network from hlinked)]
  decide +kernel

/-- So the later of the two counts, and the prior is forgotten. -/
theorem revision_tables :
    ∃ v ∈ (build revision).nodes,
      v.table.get? ⟨⟨[⟨"alarm", true⟩], [⟨"fault", true⟩]⟩⟩ = .ok (some (tenths 9)) ∧
      v.table.get? ⟨⟨[⟨"alarm", true⟩], [⟨"fault", false⟩]⟩⟩ = .ok none ∧
      (∃ error, v.table.get? ⟨⟨[⟨"alarm", true⟩], []⟩⟩ = .error error) ∧
      ¬v.table.isComplete = true := by
  have hreflects := build_reflects revision
  have hparents : (build revision).parents "alarm" = ["fault"] := by
    unfold parents
    rw [hreflects.edges, deeds_revision]
    rfl
  have hdefined : "alarm" ∈ (build revision).nodes.map (·.id) := by
    rw [hreflects.ids, deeds_revision]
    decide
  obtain ⟨v, hv, hid⟩ := List.mem_map.1 hdefined
  obtain ⟨hforeign, hentry, -, -, -, hcomplete⟩ := build_tables revision hv
  rw [hid, hparents] at hforeign hentry hcomplete
  rw [deeds_revision] at hentry hcomplete
  refine ⟨v, hv, ?_, ?_, ?_, ?_⟩
  · refine ((hentry _ ⟨⟨true, rfl⟩, by decide⟩).2 _).2 ⟨[_], _, [], rfl, ?_, ?_, ?_⟩
    · decide
    · simp
    · decide +kernel
  · refine (hentry _ ⟨⟨true, rfl⟩, by decide⟩).1.2 ?_
    decide
  · refine (hforeign _).2 ?_
    rintro ⟨-, hevidence⟩
    exact absurd hevidence (by decide)
  · intro h
    obtain ⟨p, hp, hconcerns⟩ := hcomplete.1 h fun _ => false
    revert p
    decide

end Network

end BeliefNet
