import Mathlib
import BeliefNet.Proofs.Network.WellFormed

/-!
# What the evidence is like

An observation stands in the place of its id, and there is one for a variable or
none. Only defined variables are observed, variables stay defined, and their ids are
words. So whatever the operations before, the evidence is a list of words in ascending
order (`Reachable.legible`), which can be written down and read again.
-/

namespace BeliefNet

namespace Network

variable {n n' : Network} {evidence : List Term} {t u : Term}

theorem mem_observe (h : u ∈ observe evidence t) : u = t ∨ u ∈ evidence := by
  induction evidence with
  | nil => exact .inl (List.mem_singleton.1 h)
  | cons first evidence ih =>
    unfold observe at h
    split at h
    · exact List.mem_cons.1 h
    · split at h
      · rcases List.mem_cons.1 h with rfl | hmem
        · exact .inl rfl
        · exact .inr (List.mem_cons_of_mem _ hmem)
      · rcases List.mem_cons.1 h with rfl | hmem
        · exact .inr List.mem_cons_self
        · exact (ih hmem).imp_right (List.mem_cons_of_mem _)

/-- An observation keeps the ids in ascending order. -/
theorem observe_ascending (h : evidence.Pairwise (·.id < ·.id)) (t : Term) :
    (observe evidence t).Pairwise (·.id < ·.id) := by
  induction evidence with
  | nil => exact List.pairwise_singleton _ t
  | cons first evidence ih =>
    obtain ⟨hfirst, hrest⟩ := List.pairwise_cons.1 h
    unfold observe
    split
    · rename_i hbefore
      refine List.pairwise_cons.2 ⟨fun u hu => ?_, h⟩
      rcases List.mem_cons.1 hu with rfl | hmem
      · exact hbefore
      · exact String.lt_trans hbefore (hfirst u hmem)
    · rename_i hnot
      split
      · rename_i hsame
        refine List.pairwise_cons.2 ⟨fun u hu => ?_, hrest⟩
        rw [hsame]
        exact hfirst u hu
      · rename_i hne
        refine List.pairwise_cons.2 ⟨fun u hu => ?_, ih hrest⟩
        rcases mem_observe hu with rfl | hmem
        · exact lt_of_le_of_ne (not_lt.1 hnot) (Ne.symm hne)
        · exact hfirst u hmem

/-- The variables of a network can be named in a text, and so can its evidence, in
ascending order. -/
structure Legible (n : Network) : Prop where
  words : ∀ id, n.contains id = true → Text.isWord id.toList = true
  observed : ∀ t ∈ n.evidence, n.contains t.id = true
  ascending : n.evidence.Pairwise (·.id < ·.id)

namespace Legible

theorem empty : Legible empty :=
  ⟨nofun, nofun, .nil⟩

/-- Other evidence of the same kind. -/
theorem withEvidence (h : n.Legible) (hobserved : ∀ t ∈ evidence, n.contains t.id = true)
    (hascending : evidence.Pairwise (·.id < ·.id)) :
    Legible { n with evidence := evidence } :=
  ⟨h.words, hobserved, hascending⟩

/-- It depends on the ids and on the evidence alone. -/
theorem congr (h : n.Legible) (hcontains : ∀ id, n'.contains id = n.contains id)
    (hevidence : n'.evidence = n.evidence) : n'.Legible where
  words id hid := h.words id (hcontains id ▸ hid)
  observed t ht := by
    rw [hcontains]
    exact h.observed t (hevidence ▸ ht)
  ascending := hevidence ▸ h.ascending

theorem define (h : n.Legible) {id : String} (hnew : n.checkNew id = .ok ()) (label : String) :
    Legible { n with nodes := n.nodes ++ [⟨id, label, Table.forParents id []⟩] } := by
  have hword : Text.isWord id.toList = true := by
    unfold checkNew at hnew
    by_contra hnot
    rw [if_pos (by simpa using hnot)] at hnew
    cases hnew
  refine ⟨fun other hother => ?_, fun t ht => ?_, h.ascending⟩
  · rw [contains_iff, List.map_append, List.mem_append] at hother
    rcases hother with hold | hlast
    · exact h.words other (contains_iff.2 hold)
    · rw [List.map_singleton, List.mem_singleton] at hlast
      rwa [hlast]
  · have hdefined := contains_iff.1 (h.observed t ht)
    rw [contains_iff, List.map_append]
    exact List.mem_append_left _ hdefined

/-- An operation that succeeds keeps a network legible. -/
theorem commits {op : Operation} (h : n.Legible) (hcommits : Commits n op n') : n'.Legible := by
  cases hcommits with
  | newVariable hnew => exact h.define hnew _
  | addEdge _ => exact h.congr (WellFormed.contains_withEdge n _) rfl
  | put _ _ => exact h.congr (WellFormed.contains_withTable n _ · _) rfl
  | putEntry _ => exact h.congr (WellFormed.contains_withTable n _ · _) rfl
  | putDecimal _ => exact h.congr (WellFormed.contains_withTable n _ · _) rfl
  | setEvidence hid =>
    refine h.withEvidence (fun u hu => ?_) (observe_ascending h.ascending _)
    rcases mem_observe hu with rfl | hmem
    · exact hid
    · exact h.observed u hmem
  | clearEvidence _ =>
    exact h.withEvidence (fun u hu => h.observed u (List.mem_of_mem_filter hu))
      (h.ascending.filter _)
  | clearAllEvidence => exact h.withEvidence nofun .nil
  | listen _ => exact h.congr (fun _ => rfl) rfl
  | dismiss => exact h.congr (fun _ => rfl) rfl

end Legible

theorem Reachable.legible (h : n.Reachable) : n.Legible :=
  h.commits Legible.empty fun hn hcommits => hn.commits hcommits

end Network

end BeliefNet
