import Mathlib
import BeliefNet.Proofs.Inference.Alike
import BeliefNet.Proofs.Network.Filling

/-!
# The order in which a model is built

A plan defines variables, then adds edges, then fills rows. If its edges close no
cycle and no row is filled twice, the edges can be added and the rows be filled
in any order, each row named in any words (`Plan.Reorders`): every call succeeds,
and the networks answer alike, though the rows of their tables are listed in
different orders (`Plan.order_irrelevant`).
-/

namespace BeliefNet

namespace Network

namespace Deed

/-- Both deeds fill the rows of one assignment. -/
def Overlaps : Deed → Deed → Prop
  | fill id e _, fill id' e' _ => id = id' ∧ e.evidence.Perm e'.evidence
  | _, _ => False

instance : (deed deed' : Deed) → Decidable (deed.Overlaps deed')
  | fill .., fill .. => inferInstanceAs (Decidable (_ ∧ _))
  | define _, _ | link _, _ | fill .., define _ | fill .., link _ => .isFalse id

theorem not_concerns_of_not_overlaps {deed deed' : Deed} {id : String} {p p' : Put}
    (h : ¬deed.Overlaps deed') (hp : deed.put? id = some p) (hp' : deed'.put? id = some p') :
    ¬p.Concerns p'.expression := by
  cases deed with
  | fill own e entry =>
    cases deed' with
    | fill own' e' entry' =>
      obtain ⟨rfl, rfl⟩ : own = id ∧ (⟨e, entry⟩ : Put) = p := by simpa [put?] using hp
      obtain ⟨rfl, rfl⟩ : own' = own ∧ (⟨e', entry'⟩ : Put) = p' := by simpa [put?] using hp'
      exact fun hconcerns => h ⟨rfl, hconcerns⟩
    | _ => cases hp'
  | _ => cases hp

end Deed

/-- How a model is built: variables with their labels, then edges, then calls
that fill rows. -/
structure Plan where
  nodes : List (String × Option String)
  edges : List Edge
  puts : List Operation

namespace Plan

/-- The calls that define the variables. -/
def declarations (p : Plan) : List Operation :=
  p.nodes.map fun node => .newVariable node.1 node.2

/-- A new network with the variables. -/
def declared (p : Plan) : Session := Operation.run p.declarations ⟨empty, []⟩

/-- With the edges as well. -/
def linked (p : Plan) : Session := Operation.run (p.edges.map .addEdge) p.declared

/-- With the entries. -/
def built (p : Plan) : Session := Operation.run p.puts p.linked

/-- The edges join variables that the plan defines, and close no cycle. -/
structure Linkable (p : Plan) : Prop where
  nodup : p.edges.Nodup
  acyclic : Graph.Acyclic p.edges
  defined : ∀ e ∈ p.edges,
    p.declared.network.contains e.parent = true ∧ p.declared.network.contains e.child = true

/-- The rows are filled without a failure, and none of them twice. -/
structure Sound (p : Plan) : Prop extends Linkable p where
  succeed : Operation.Succeed p.linked p.puts
  once : (Operation.history p.linked p.puts).Pairwise fun deed deed' => ¬deed.Overlaps deed'

/-- The other plan defines the same variables, adds the same edges in some order,
and fills the same rows in some order and in other words. -/
structure Reorders (p p' : Plan) : Prop where
  nodes : p.nodes = p'.nodes
  edges : p.edges.Perm p'.edges
  puts : ∃ mid, p.puts.Perm mid ∧
    List.Forall₂ (Operation.Rewritten p.declared.network.contains) mid p'.puts

/-- What defining the variables has done. -/
def definitions (p : Plan) : List Deed := Operation.history ⟨empty, []⟩ p.declarations

variable {p p' : Plan} {deed : Deed}

theorem exists_of_mem_definitions (h : deed ∈ p.definitions) : ∃ id, deed = .define id := by
  obtain ⟨op, hop, n, hdeed⟩ := Operation.exists_of_mem_history h
  obtain ⟨node, -, rfl⟩ := List.mem_map.1 hop
  exact ⟨node.1, (Option.some.inj hdeed).symm⟩

theorem links_definitions (p : Plan) : Deed.links p.definitions = [] := by
  refine List.filterMap_eq_nil_iff.2 fun deed hdeed => ?_
  obtain ⟨id, rfl⟩ := exists_of_mem_definitions hdeed
  rfl

theorem declared_wellFormed (p : Plan) : p.declared.network.WellFormed := WellFormed.empty.run _

theorem linked_wellFormed (p : Plan) : p.linked.network.WellFormed := p.declared_wellFormed.run _

theorem built_wellFormed (p : Plan) : p.built.network.WellFormed := p.linked_wellFormed.run _

theorem declared_reflects (p : Plan) : p.declared.network.Reflects p.definitions :=
  build_reflects p.declarations

namespace Linkable

/-- The edges can be added one after another. -/
theorem succeed (h : p.Linkable) : Operation.Succeed p.declared (p.edges.map .addEdge) ∧
    Operation.history p.declared (p.edges.map .addEdge) = p.edges.map .link := by
  have hnone : p.declared.network.edges ++ p.edges = p.edges := by
    rw [p.declared_reflects.edges, p.links_definitions, List.nil_append]
  obtain ⟨hsucceed, hhistory, -⟩ := run_addEdge p.edges p.declared h.defined
    (hnone.symm ▸ h.nodup) (hnone.symm ▸ h.acyclic)
  exact ⟨hsucceed, hhistory⟩

theorem linked_reflects (h : p.Linkable) :
    p.linked.network.Reflects (p.definitions ++ p.edges.map .link) := by
  rw [← h.succeed.2]
  exact p.declared_reflects.run p.declared_wellFormed _

/-- Edges define no variables. -/
theorem contains_linked (h : p.Linkable) :
    p.linked.network.contains = p.declared.network.contains := by
  funext id
  rw [Bool.eq_iff_iff, contains_iff, contains_iff, h.linked_reflects.ids,
    p.declared_reflects.ids]
  simp [Deed.defined_append]

theorem built_reflects (h : p.Linkable) : p.built.network.Reflects
    (p.definitions ++ p.edges.map .link ++ Operation.history p.linked p.puts) :=
  h.linked_reflects.run p.linked_wellFormed _

end Linkable

namespace Reorders

theorem declared_eq (h : p.Reorders p') : p'.declared = p.declared := by
  unfold declared declarations
  rw [h.nodes]

theorem definitions_eq (h : p.Reorders p') : p'.definitions = p.definitions := by
  unfold definitions declarations
  rw [h.nodes]

/-- The other order of the edges is as good. -/
theorem linkable (h : p.Reorders p') (hp : p.Linkable) : p'.Linkable where
  nodup := h.edges.nodup_iff.1 hp.nodup
  acyclic := hp.acyclic.subset h.edges.symm.subset
  defined e he := by
    rw [h.declared_eq]
    exact hp.defined e (h.edges.mem_iff.2 he)

/-- The edges lead to the same network, but for the order of the parents. -/
theorem sameShape (h : p.Reorders p') (hp : p.Linkable) :
    SameShape p.linked.network p'.linked.network := by
  have hreflects := hp.linked_reflects
  have hreflects' := (h.linkable hp).linked_reflects
  rw [h.definitions_eq] at hreflects'
  constructor
  · intro id
    rw [Bool.eq_iff_iff, contains_iff, contains_iff, hreflects.ids, hreflects'.ids]
    simp [Deed.defined_append]
  · refine parents_perm ?_
    rw [hreflects.edges, hreflects'.edges]
    simpa [Deed.links_append, links_definitions] using h.edges

/-- The rows can be filled in the other order as well. -/
theorem succeed (h : p.Reorders p') (hp : p.Sound) : Operation.Succeed p'.linked p'.puts := by
  obtain ⟨mid, hperm, hwords⟩ := h.puts
  rw [← hp.contains_linked] at hwords
  exact Operation.succeed_rewritten p.linked_wellFormed p'.linked_wellFormed
    (h.sameShape hp.toLinkable) hperm hwords hp.succeed

/-- In both orders the calls fill rows, and the rows are the same. -/
theorem puts_rewords (h : p.Reorders p') (hp : p.Sound) :
    Deed.Fills (Operation.history p.linked p.puts) ∧
      Deed.Fills (Operation.history p'.linked p'.puts) ∧
      ∀ id, ∃ mid, ((Operation.history p.linked p.puts).filterMap (Deed.put? id)).Perm mid ∧
        List.Forall₂ Put.Rewords mid
          ((Operation.history p'.linked p'.puts).filterMap (Deed.put? id)) := by
  have hsucceed := h.succeed hp
  have hshape := h.sameShape hp.toLinkable
  obtain ⟨mid, hperm, hwords⟩ := h.puts
  rw [← hp.contains_linked] at hwords
  obtain ⟨hmid, hsource⟩ := Operation.Rewritten.forall_mem hwords
  have hputs : ∀ op ∈ p.puts, op.isPut = true := fun op hop => hmid op (hperm.mem_iff.1 hop)
  have hputs' : ∀ op ∈ p'.puts, op.isPut = true := by
    intro op' hop'
    obtain ⟨op, -, hrewritten⟩ := hsource op' hop'
    exact hrewritten.isPut.2
  refine ⟨Operation.fills_history hputs, Operation.fills_history hputs', fun id => ?_⟩
  rw [Operation.history_of_succeed hputs hp.succeed,
    Operation.history_of_succeed hputs' hsucceed, List.filterMap_filterMap,
    List.filterMap_filterMap]
  exact ⟨_, hperm.filterMap _,
    List.rel_filterMap (fun _ _ hop => hop.deed_rewords hshape id) hwords⟩

/-- The networks answer alike. -/
theorem alike (h : p.Reorders p') (hp : p.Sound) : Alike p.built.network p'.built.network := by
  obtain ⟨hfills, hfills', hrewords⟩ := h.puts_rewords hp
  have hlinkable := hp.toLinkable
  have hreflects := hlinkable.built_reflects
  have hreflects' := (h.linkable hlinkable).built_reflects
  rw [h.definitions_eq] at hreflects'
  have hparents : ∀ id, (p.built.network.parents id).Perm (p'.built.network.parents id) := by
    refine parents_perm ?_
    rw [hreflects.edges, hreflects'.edges]
    simpa [Deed.links_append, links_definitions, hfills.links_eq, hfills'.links_eq] using h.edges
  -- defining variables and adding edges puts nothing into a table
  have hpast : ∀ (edges : List Edge) (id : String),
      ∀ deed ∈ p.definitions ++ edges.map .link, deed.put? id = none := by
    intro edges id deed hdeed
    rcases List.mem_append.1 hdeed with hdeed | hdeed
    · obtain ⟨_, rfl⟩ := exists_of_mem_definitions hdeed
      rfl
    · obtain ⟨_, -, rfl⟩ := List.mem_map.1 hdeed
      rfl
  constructor
  · rw [hreflects.ids, hreflects'.ids]
    simp [Deed.defined_append, hfills.defined_eq, hfills'.defined_eq]
  · exact hparents
  · intro v hv v' hv' hid
    rw [hreflects.tables v hv, hreflects'.tables v' hv', ← hid,
      Deed.puts_append (hpast _ _) (hfills.resets_eq _),
      Deed.puts_append (hpast _ _) (hfills'.resets_eq _)]
    refine Table.get?_ofPuts_congr (p.built_wellFormed.nodup_parents _) (hparents _) fun e => ?_
    obtain ⟨mid, hperm, hwords⟩ := hrewords v.id
    rw [← Put.recorded_rewords hwords, Put.recorded_perm ?_ hperm]
    refine List.pairwise_filterMap.2 (hp.once.imp fun {deed deed'} hnot q hq q' hq' => ?_)
    exact Deed.not_concerns_of_not_overlaps hnot hq hq'

end Reorders

/-- The order in which a model is built does not change its answers. Take a plan
that adds edges without a cycle and fills no row twice, and another that adds the
same edges and fills the same rows in any order, and in any words. Then all edges
can be added and all rows be filled in both, and the two networks are ready
together, and agree on every joint probability and on every query. -/
theorem order_irrelevant (h : p.Sound) (hreorders : p.Reorders p') :
    Operation.Succeed p.declared (p.edges.map .addEdge) ∧
    Operation.Succeed p'.declared (p'.edges.map .addEdge) ∧
    Operation.Succeed p'.linked p'.puts ∧
    p.built.network.isReady = p'.built.network.isReady ∧
    (∀ fixed, p.built.network.joint fixed = p'.built.network.joint fixed) ∧
    (∀ text, p.built.network.query text = p'.built.network.query text) := by
  have hlinkable := h.toLinkable
  have halike := hreorders.alike h
  have hn := p.built_wellFormed
  have hn' := p'.built_wellFormed
  exact ⟨hlinkable.succeed.1, (hreorders.linkable hlinkable).succeed.1, hreorders.succeed h,
    halike.isReady_eq hn hn', halike.joint_eq hn hn', halike.query_eq hn hn'⟩

/-- Wet grass has two causes. -/
def garden : Plan where
  nodes := [("rain", none), ("sprinkler", none), ("wet", none)]
  edges := [⟨"rain", "wet"⟩, ⟨"sprinkler", "wet"⟩]
  puts := [
    .putDecimal "rain" ⟨⟨[⟨"rain", true⟩], []⟩⟩ (tenths 2),
    .putDecimal "sprinkler" ⟨⟨[⟨"sprinkler", true⟩], []⟩⟩ (tenths 3),
    .putDecimal "wet" ⟨⟨[⟨"wet", true⟩], [⟨"rain", true⟩, ⟨"sprinkler", true⟩]⟩⟩ (tenths 9),
    .putDecimal "wet" ⟨⟨[⟨"wet", true⟩], [⟨"rain", true⟩, ⟨"sprinkler", false⟩]⟩⟩ (tenths 8),
    .putDecimal "wet" ⟨⟨[⟨"wet", true⟩], [⟨"rain", false⟩, ⟨"sprinkler", true⟩]⟩⟩ (tenths 7),
    .putDecimal "wet" ⟨⟨[⟨"wet", false⟩], [⟨"rain", false⟩, ⟨"sprinkler", false⟩]⟩⟩ (tenths 10)]

/-- The same from the last to the first, with the sprinkler named first. -/
def gardenBackwards : Plan where
  nodes := [("rain", none), ("sprinkler", none), ("wet", none)]
  edges := [⟨"sprinkler", "wet"⟩, ⟨"rain", "wet"⟩]
  puts := [
    .putDecimal "wet" ⟨⟨[⟨"wet", false⟩], [⟨"sprinkler", false⟩, ⟨"rain", false⟩]⟩⟩ (tenths 10),
    .putDecimal "wet" ⟨⟨[⟨"wet", true⟩], [⟨"sprinkler", true⟩, ⟨"rain", false⟩]⟩⟩ (tenths 7),
    .putDecimal "wet" ⟨⟨[⟨"wet", true⟩], [⟨"sprinkler", false⟩, ⟨"rain", true⟩]⟩⟩ (tenths 8),
    .putDecimal "wet" ⟨⟨[⟨"wet", true⟩], [⟨"sprinkler", true⟩, ⟨"rain", true⟩]⟩⟩ (tenths 9),
    .putDecimal "sprinkler" ⟨⟨[⟨"sprinkler", true⟩], []⟩⟩ (tenths 3),
    .putDecimal "rain" ⟨⟨[⟨"rain", true⟩], []⟩⟩ (tenths 2)]

theorem garden_acyclic : Graph.Acyclic garden.edges :=
  (Graph.acyclic_nil.append (by simp [Graph.reaches, Graph.search, Graph.children])).append
    (e := ⟨"sprinkler", "wet"⟩) (by simp [Graph.reaches, Graph.search, Graph.children])

theorem garden_linkable : garden.Linkable where
  nodup := by decide
  acyclic := garden_acyclic
  defined := by decide +kernel

theorem garden_succeed : Operation.Succeed garden.linked garden.puts := by
  have hlinked : garden.linked.network = garden.edges.foldl withEdge garden.declared.network :=
    (run_addEdge garden.edges garden.declared garden_linkable.defined (by decide +kernel)
      garden_acyclic).2.2
  refine (Operation.succeed_iff garden.linked_wellFormed (by decide)).2 ?_
  simp only [garden, List.forall_mem_cons, List.not_mem_nil, false_implies, implies_true, and_true]
  refine ⟨?_, ?_, ?_, ?_, ?_, ?_⟩
  all_goals
    refine (Operation.putDecimal_ok_iff garden.linked_wellFormed).2 ?_
    rw [hlinked]
    decide +kernel

theorem garden_sound : garden.Sound where
  toLinkable := garden_linkable
  succeed := garden_succeed
  once := by
    rw [Operation.history_of_succeed (by decide) garden_succeed]
    show (garden.puts.filterMap fun op => op.deed empty).Pairwise fun d d' => ¬d.Overlaps d'
    decide

theorem garden_reorders : garden.Reorders gardenBackwards where
  nodes := rfl
  edges := by decide
  puts := by
    refine ⟨garden.puts.reverse, (List.reverse_perm _).symm, ?_⟩
    refine .cons (.putDecimal ?_) (.cons (.putDecimal ?_) (.cons (.putDecimal ?_)
      (.cons (.putDecimal ?_) (.cons (.putDecimal ?_) (.cons (.putDecimal ?_) .nil)))))
    all_goals exact Expression.same_iff_perm.2 ⟨by decide, by decide⟩

/-- So the grass is as wet, and the rain as likely. -/
theorem garden_order_irrelevant : garden.Sound ∧ garden.Reorders gardenBackwards ∧
    garden.built.network.isReady = gardenBackwards.built.network.isReady ∧
    garden.built.network.joint [⟨"wet", true⟩] =
      gardenBackwards.built.network.joint [⟨"wet", true⟩] ∧
    garden.built.network.query "P(rain|wet)" =
      gardenBackwards.built.network.query "P(rain|wet)" := by
  obtain ⟨-, -, -, hready, hjoint, hquery⟩ := order_irrelevant garden_sound garden_reorders
  exact ⟨garden_sound, garden_reorders, hready, hjoint _, hquery _⟩

end Plan

end Network

end BeliefNet
