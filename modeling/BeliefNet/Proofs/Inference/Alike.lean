import Mathlib
import BeliefNet.Marginals
import BeliefNet.Proofs.Inference.Enumeration

/-!
# Networks that answer alike

An answer is made of the entries that are looked up in the tables. So two
networks answer alike if they have the same variables, in the same order, each
with the same parents in some order, and the same entries to be looked up
(`Alike`): they are ready together (`Alike.isReady_eq`), and agree on joint
probabilities (`Alike.joint_eq`) and on queries (`Alike.query_eq`), with all
rounding and all errors.
-/

namespace BeliefNet

namespace Network

/-- The networks have the same variables, with tables in which the same is
found. The rows of the tables may be listed in different orders. -/
structure Alike (n n' : Network) : Prop where
  ids : n.nodes.map (·.id) = n'.nodes.map (·.id)
  parents : ∀ id, (n.parents id).Perm (n'.parents id)
  entries : ∀ v ∈ n.nodes, ∀ v' ∈ n'.nodes, v.id = v'.id → ∀ e, v.table.get? e = v'.table.get? e

/-- Complete tables are those in which every row is found filled. -/
theorem WellFormed.isComplete_iff {n : Network} (h : n.WellFormed) {v : Variable}
    (hv : v ∈ n.nodes) : v.table.isComplete = true ↔ ∀ e, v.table.get? e ≠ .ok none := by
  obtain ⟨entries, htable, -⟩ := h.paired v hv
  rw [htable]
  exact Table.isComplete_iff_get? (h.nodup_parents v.id)

/-- The first variable without a complete table. -/
theorem find?_incomplete_congr {nodes nodes' : List Variable}
    (h : List.Forall₂ (fun v v' => v.id = v'.id ∧ v.table.isComplete = v'.table.isComplete)
      nodes nodes') :
    (nodes.find? fun v => !v.table.isComplete).map (·.id) =
      (nodes'.find? fun v => !v.table.isComplete).map (·.id) := by
  induction h with
  | nil => rfl
  | @cons v v' nodes nodes' hv _ ih =>
    rw [List.find?_cons, List.find?_cons, ← hv.2]
    cases v.table.isComplete with
    | true => exact ih
    | false => exact congrArg some hv.1

theorem checkReady_eq (n : Network) :
    n.checkReady =
      match (n.nodes.find? fun v => !v.table.isComplete).map (·.id) with
      | some id => .error (.incompleteTable id)
      | none => .ok () := by
  unfold checkReady
  cases n.nodes.find? fun v => !v.table.isComplete with
  | none => rfl
  | some v => rfl

namespace Alike

variable {n n' : Network} {w : World} {fixed : List Term}

/-- The variables one by one. -/
theorem forall₂ (h : Alike n n') {R : Variable → Variable → Prop}
    (hR : ∀ v ∈ n.nodes, ∀ v' ∈ n'.nodes, v.id = v'.id → R v v') :
    List.Forall₂ R n.nodes n'.nodes := by
  have hids : List.Forall₂ (fun v v' : Variable => v.id = v'.id) n.nodes n'.nodes := by
    have heq : List.Forall₂ (· = ·) (n.nodes.map (·.id)) (n'.nodes.map (·.id)) := by
      rw [h.ids]
      exact List.forall₂_same.2 fun _ _ => rfl
    exact List.forall₂_map_right_iff.1 (List.forall₂_map_left_iff.1 heq)
  rw [List.forall₂_iff_zip] at hids ⊢
  refine ⟨hids.1, fun {v v'} hpair => ?_⟩
  exact hR v (List.of_mem_zip hpair).1 v' (List.of_mem_zip hpair).2 (hids.2 hpair)

theorem contains_eq (h : Alike n n') (id : String) : n.contains id = n'.contains id := by
  rw [Bool.eq_iff_iff, contains_iff, contains_iff, h.ids]

theorem isComplete_eq (h : Alike n n') (hn : n.WellFormed) (hn' : n'.WellFormed) {v v' : Variable}
    (hv : v ∈ n.nodes) (hv' : v' ∈ n'.nodes) (hid : v.id = v'.id) :
    v.table.isComplete = v'.table.isComplete := by
  rw [Bool.eq_iff_iff, hn.isComplete_iff hv, hn'.isComplete_iff hv']
  simp only [h.entries v hv v' hv' hid]

theorem checkReady_eq (h : Alike n n') (hn : n.WellFormed) (hn' : n'.WellFormed) :
    n.checkReady = n'.checkReady := by
  have hfind := find?_incomplete_congr (h.forall₂ fun v hv v' hv' hid =>
    ⟨hid, h.isComplete_eq hn hn' hv hv' hid⟩)
  rw [Network.checkReady_eq, Network.checkReady_eq, hfind]

theorem isReady_eq (h : Alike n n') (hn : n.WellFormed) (hn' : n'.WellFormed) :
    n.isReady = n'.isReady := by
  rw [Bool.eq_iff_iff, isReady_iff, isReady_iff, h.checkReady_eq hn hn']

/-! ## Joint probabilities -/

theorem free_eq (h : Alike n n') (fixed : List Term) : n.free fixed = n'.free fixed := by
  unfold free
  rw [h.ids]

theorem worlds_eq (h : Alike n n') (fixed : List Term) : n.worlds fixed = n'.worlds fixed := by
  unfold worlds worldOf Network.ids
  rw [h.ids, h.free_eq]

/-- The rows that a world selects have their terms in different orders. -/
theorem rowIn_same (h : Alike n n') (w : World) {v v' : Variable} (hid : v.id = v'.id) :
    (n.rowIn w v).same (n'.rowIn w v') = true := by
  unfold rowIn
  rw [hid]
  exact Expression.same_iff_perm.2 ⟨List.Perm.refl _, (h.parents v'.id).map _⟩

theorem productIn_eq (h : Alike n n') (hn : n.Complete) (hn' : n'.WellFormed) (w : World) :
    n.productIn w = n'.productIn w := by
  refine productFrom_congr (h.forall₂ fun v hv v' hv' hid => ?_) _
  obtain ⟨entry, hentry, -⟩ := hn.exists_entry hv w
  have hentry' : v'.table.get? (n'.rowIn w v') = .ok (some entry) := by
    rw [← h.entries v hv v' hv' hid]
    exact Table.get?_ok_congr (h.rowIn_same w hid) hentry
  rw [hn.entry_eq hv fun id hid => value?_worldFilter hn.toWellFormed hid,
    hn'.entry_eq hv' fun id hid => value?_worldFilter hn' hid, hentry, hentry']

/-- Joint probabilities are the same, with all their roundings. -/
theorem joint_eq (h : Alike n n') (hn : n.WellFormed) (hn' : n'.WellFormed) (fixed : List Term) :
    n.joint fixed = n'.joint fixed := by
  rw [hn.joint_spec, hn'.joint_spec, ← h.checkReady_eq hn hn', ← h.free_eq, ← h.worlds_eq]
  cases hready : n.checkReady with
  | error e => rfl
  | ok _ =>
    have hcomplete : n.Complete := ⟨hn, isReady_iff.2 hready⟩
    have hadd : ∀ total w, n.addWorld total w = n'.addWorld total w := by
      intro total w
      unfold addWorld
      rw [h.productIn_eq hcomplete hn']
    rw [foldlM_congr fun w _ total => hadd total w]

/-! ## Queries -/

theorem infer_eq (h : Alike n n') (hn : n.WellFormed) (hn' : n'.WellFormed) (q : Query) :
    n.infer q = n'.infer q := by
  have hcheck : n.checkQuery q = n'.checkQuery q := by
    unfold checkQuery
    simp only [h.contains_eq]
  unfold infer
  simp only [hcheck, h.joint_eq hn hn']

/-- Queries are read and answered the same. -/
theorem query_eq (h : Alike n n') (hn : n.WellFormed) (hn' : n'.WellFormed) (text : String) :
    n.query text = n'.query text := by
  have hparse : n.parseQuery text = n'.parseQuery text := by
    unfold parseQuery
    rw [funext h.contains_eq]
  unfold query
  simp only [hparse, h.checkReady_eq hn hn', h.infer_eq hn hn']

end Alike

end Network

end BeliefNet
