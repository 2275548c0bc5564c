import Mathlib
import BeliefNet.Proofs.Inference.Accuracy

/-!
# What readiness promises

A network is ready when its tables are complete, and nothing else is checked
before a joint probability is computed. That is enough: whatever terms are
fixed, every completion of them is a filter that selects one filled row of every
table and has a product (`Complete.exists_filter`), and the products can be added
up. So a joint probability fails only where too many variables are free
(`Reachable.joint_answers`).
-/

namespace BeliefNet

theorem length_completions (ids : List String) : (completions ids).length = 2 ^ ids.length := by
  induction ids with
  | nil => rfl
  | cons id ids ih =>
    rw [completions, List.length_flatMap, List.length_cons, pow_succ]
    simp [ih]

namespace Network

variable {n : Network} {fixed : List Term}

namespace Complete

/-- A total assignment with at least one term is a filter. It selects one row of
every table, that row is filled, and the entries have a product. -/
theorem exists_filter (h : n.Complete) (hsize : n.nodes.length ≤ maxVariables) {c : List Term}
    (hc : c ∈ completions (n.free fixed)) (hne : fixed ++ c ≠ []) :
    ∃ f, Filter.ofTerms (fixed ++ c) = .ok f ∧
      (∀ v ∈ n.nodes, ∃ row entry,
        v.table.select f = [row] ∧ v.table.get? row.expression = .ok (some entry)) ∧
      ∃ p, n.product f = .ok p := by
  have hvalues : ∀ id ∈ n.ids,
      (⟨(fixed ++ c).foldl Term.assign []⟩ : Filter).value? id =
        some (World.value (n.worldOf (fixed ++ c)) id) :=
    fun id hid => value?_of_mem_completions hc hid
  refine ⟨⟨(fixed ++ c).foldl Term.assign []⟩, ?_, ?_, ?_⟩
  · unfold Filter.ofTerms
    rw [if_neg (by simpa using hne)]
  · intro v hv
    obtain ⟨stored, hselect, hget⟩ := h.exists_select hv hvalues
    obtain ⟨entry, hentry, -⟩ := h.exists_entry hv (n.worldOf (fixed ++ c))
    exact ⟨_, entry, hselect, hentry⟩
  · exact ⟨_, (h.product_eq hvalues).trans (h.productIn_eq hsize _).1⟩

/-- With too many free variables there is nothing to add up. -/
theorem joint_eq_tooManyFree (h : n.Complete) (hmany : 64 ≤ (n.free fixed).length) :
    n.joint fixed = .error (.tooManyFree (n.free fixed).length) := by
  rw [h.joint_spec, isReady_iff.1 h.ready]
  simp only [bind, Except.bind]
  rw [if_pos hmany]
  rfl

end Complete

/-- In every network that operations can build and that is ready, any terms at
all have a joint probability, if they leave fewer than 64 variables free: the
completions can be counted with 64 bits, each of them selects one filled row of
every table and has a product, and the products have a sum. With more free
variables there is one error, which says so. -/
theorem Reachable.joint_answers (h : n.Reachable) (hready : n.isReady = true)
    (hsize : n.nodes.length ≤ 10 ^ 7) (fixed : List Term) :
    ((n.free fixed).length < 64 →
      (completions (n.free fixed)).length = 2 ^ (n.free fixed).length ∧
      2 ^ (n.free fixed).length < 2 ^ 64 ∧
      (∀ c ∈ completions (n.free fixed), fixed ++ c ≠ [] →
        ∃ f, Filter.ofTerms (fixed ++ c) = .ok f ∧
          (∀ v ∈ n.nodes, ∃ row entry,
            v.table.select f = [row] ∧ v.table.get? row.expression = .ok (some entry)) ∧
          ∃ p, n.product f = .ok p) ∧
      ∃ j, n.joint fixed = .ok j) ∧
    (64 ≤ (n.free fixed).length →
      n.joint fixed = .error (.tooManyFree (n.free fixed).length) ∧
      (Error.tooManyFree (n.free fixed).length).kind = .invalidArgument) := by
  have hcomplete := h.complete hready
  constructor
  · intro hfew
    obtain ⟨j, hjoint, -⟩ := hcomplete.exists_joint hsize hfew
    refine ⟨length_completions _, Nat.pow_lt_pow_right (by decide) hfew, ?_, j, hjoint⟩
    intro c hc hne
    exact hcomplete.exists_filter hsize hc hne
  · intro hmany
    exact ⟨hcomplete.joint_eq_tooManyFree hmany, rfl⟩

/-- The names of 64 coins, one for each field of a board. -/
def coinIds : List String :=
  let letters := ["a", "b", "c", "d", "e", "f", "g", "h"]
  letters.flatMap fun row => letters.map (row ++ ·)

/-- The coins: 64 variables without edges, true as often as not. -/
def coins : Network where
  nodes := coinIds.map fun id => ⟨id, id, ⟨id, [
    ⟨⟨⟨[⟨id, true⟩], []⟩⟩, some (tenths 5)⟩,
    ⟨⟨⟨[⟨id, false⟩], []⟩⟩, some (tenths 5)⟩]⟩⟩
  edges := []
  evidence := []
  listeners := ⟨0, []⟩

theorem coins_reachable : coins.Reachable := by
  refine ⟨coinIds.flatMap fun id =>
    [.newVariable id none, .putDecimal id ⟨⟨[⟨id, true⟩], []⟩⟩ (tenths 5)], ?_⟩
  decide +kernel

/-- With one coin fixed 63 are free, in more worlds than anyone visits, and still
there is an answer; smoke is no coin, and leaves all of them free. -/
theorem coins_joint_answers :
    (∃ j, coins.joint [⟨"aa", true⟩, ⟨"smoke", true⟩, ⟨"aa", false⟩] = .ok j) ∧
    coins.joint [⟨"smoke", true⟩] = .error (.tooManyFree 64) := by
  have hready : coins.isReady = true := by decide +kernel
  have hsize : coins.nodes.length ≤ 10 ^ 7 := by decide +kernel
  constructor
  · obtain ⟨hanswer, -⟩ := coins_reachable.joint_answers hready hsize
      [⟨"aa", true⟩, ⟨"smoke", true⟩, ⟨"aa", false⟩]
    obtain ⟨-, -, -, hjoint⟩ := hanswer (by decide +kernel)
    exact hjoint
  · obtain ⟨-, hrefuse⟩ := coins_reachable.joint_answers hready hsize [⟨"smoke", true⟩]
    have hfree : (coins.free [⟨"smoke", true⟩]).length = 64 := by decide +kernel
    rw [hfree] at hrefuse
    exact (hrefuse le_rfl).1

end Network

end BeliefNet
