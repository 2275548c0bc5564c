import Mathlib
import BeliefNet.Proofs.Table.Rows

/-!
# Which row stands where

The assignments of `k` variables are numbered from `0` to `2 ^ k - 1`, and the binary
digits of the number are the values: the first variable has the most significant digit,
and a digit 0 is the value true (`pattern`, `assignments_eq_patterns`). The two rows of an
assignment stand side by side, so row `2 * c` and the one behind it belong to the number
`c` (`Table.getElem?_expressionsFor`).

Read from the most significant value to the least, the rows are in lexicographic order
(`Precedes`). The order follows from the recursion of `assignments` without the numbers,
and it tells any two rows apart (`Table.pairwise_expressionsFor`).
`Table.forParents_generates` puts this together for a table that starts anew.
-/

namespace BeliefNet

open Expression (ofRow)

variable {owner : String} {parents : List String} {id : String} {ids : List String}
  {v w : List Bool}

/-! ## Numbers of assignments -/

theorem pattern_cons (id : String) (ids : List String) (c : Nat) :
    pattern (id :: ids) c = ⟨id, !c.testBit ids.length⟩ :: pattern ids c := by
  have hdigit : ∀ i, (id :: ids).length - 1 - (i + 1) = ids.length - 1 - i := by
    intro i
    rw [List.length_cons]
    omega
  unfold pattern
  rw [List.mapIdx_cons]
  simp only [hdigit]
  rfl

/-- A digit in front of all others leaves them as they are. -/
theorem pattern_two_pow_add (ids : List String) (c : Nat) :
    pattern ids (2 ^ ids.length + c) = pattern ids c := by
  unfold pattern
  refine List.mapIdx_eq_mapIdx_iff.2 fun i hi => ?_
  rw [Nat.testBit_two_pow_add_gt (by omega)]

theorem map_id_pattern (ids : List String) (c : Nat) : (pattern ids c).map (·.id) = ids := by
  induction ids with
  | nil => rfl
  | cons id ids ih => rw [pattern_cons, List.map_cons, ih]

theorem assignments_cons (id : String) (ids : List String) :
    assignments (id :: ids) =
      (assignments ids).map (⟨id, true⟩ :: ·) ++ (assignments ids).map (⟨id, false⟩ :: ·) := by
  simp [assignments]

/-- The first half of the numbers begins with a 0 and the second with a 1. -/
theorem assignments_eq_patterns (ids : List String) :
    assignments ids = (List.range (2 ^ ids.length)).map (pattern ids) := by
  induction ids with
  | nil => rfl
  | cons id ids ih =>
    rw [assignments_cons, ih, List.length_cons, Nat.two_pow_succ, List.range_add, List.map_append,
      List.map_map, List.map_map, List.map_map]
    congr 1
    · refine List.map_congr_left fun c hc => ?_
      have hlt : c < 2 ^ ids.length := List.mem_range.1 hc
      simp [pattern_cons, Nat.testBit_lt_two_pow hlt]
    · refine List.map_congr_left fun c hc => ?_
      have hlt : c < 2 ^ ids.length := List.mem_range.1 hc
      simp [pattern_cons, pattern_two_pow_add, Nat.testBit_two_pow_add_eq,
        Nat.testBit_lt_two_pow hlt]

theorem getElem?_assignments {c : Nat} (hc : c < 2 ^ ids.length) :
    (assignments ids)[c]? = some (pattern ids c) := by
  simp [assignments_eq_patterns, hc]

/-! ## The order of assignments -/

/-- At the first place where they differ, the first values have true and the second
false. -/
def Precedes (v w : List Bool) : Prop :=
  ∃ common rest rest', v = common ++ true :: rest ∧ w = common ++ false :: rest'

theorem precedes_true_false (v w : List Bool) : Precedes (true :: v) (false :: w) :=
  ⟨[], v, w, rfl, rfl⟩

namespace Precedes

theorem cons (h : Precedes v w) (value : Bool) : Precedes (value :: v) (value :: w) := by
  obtain ⟨common, rest, rest', rfl, rfl⟩ := h
  exact ⟨value :: common, rest, rest', rfl, rfl⟩

theorem ne (h : Precedes v w) : v ≠ w := by
  obtain ⟨common, rest, rest', rfl, rfl⟩ := h
  intro heq
  cases List.append_cancel_left heq

/-- What follows does not matter. -/
theorem append (h : Precedes v w) (x y : List Bool) : Precedes (v ++ x) (w ++ y) := by
  obtain ⟨common, rest, rest', rfl, rfl⟩ := h
  exact ⟨common, rest ++ x, rest' ++ y, by simp, by simp⟩

end Precedes

theorem assignments_ordered (ids : List String) :
    (assignments ids).Pairwise fun a b => Precedes (a.map (·.value)) (b.map (·.value)) := by
  induction ids with
  | nil => exact List.pairwise_singleton _ _
  | cons id ids ih =>
    rw [assignments_cons, List.pairwise_append, List.pairwise_map, List.pairwise_map]
    refine ⟨?_, ?_, ?_⟩
    · exact ih.imp fun h => h.cons true
    · exact ih.imp fun h => h.cons false
    · intro a ha b hb
      obtain ⟨a', -, rfl⟩ := List.mem_map.1 ha
      obtain ⟨b', -, rfl⟩ := List.mem_map.1 hb
      exact precedes_true_false _ _

/-! ## Rows -/

/-- The values of a row from the most significant to the least: those of the parents,
and then that of the owner. -/
def Expression.values (e : Expression) : List Bool :=
  (e.evidence ++ e.hypotheses).map (·.value)

theorem Expression.values_ofRow (owner : String) (value : Bool) (a : List Term) :
    (ofRow owner value a).values = a.map (·.value) ++ [value] := by
  simp [values, ofRow]

/-- Parts of one length. -/
theorem length_flatMap_of_forall {α β : Type} {l : List α} {g : α → List β} {k : Nat}
    (h : ∀ a ∈ l, (g a).length = k) : (l.flatMap g).length = l.length * k := by
  rw [List.length_flatMap, List.map_congr_left h, List.map_const', List.sum_replicate, smul_eq_mul]

/-- Of two parts for each element, those of the element at `c` stand at `2 * c`. -/
theorem getElem?_flatMap_pair {α β : Type} (l : List α) (f g : α → β) (c : Nat) :
    (l.flatMap fun a => [f a, g a])[2 * c]? = l[c]?.map f ∧
      (l.flatMap fun a => [f a, g a])[2 * c + 1]? = l[c]?.map g := by
  induction l generalizing c with
  | nil => simp
  | cons a l ih =>
    cases c with
    | zero => simp
    | succ c => simpa [Nat.mul_succ] using ih c

namespace Table

theorem expressionsFor_eq (owner : String) (parents : List String) :
    expressionsFor owner parents =
      (assignments parents).flatMap fun a => [true, false].map fun value => ofRow owner value a :=
  rfl

theorem mem_expressionsFor {e : Expression} :
    e ∈ expressionsFor owner parents ↔
      ∃ value a, a.map (·.id) = parents ∧ e = ofRow owner value a := by
  simp only [expressionsFor_eq, List.mem_flatMap, mem_assignments, List.mem_map]
  constructor
  · rintro ⟨a, ha, value, -, rfl⟩
    exact ⟨value, a, ha, rfl⟩
  · rintro ⟨value, a, ha, rfl⟩
    exact ⟨a, ha, value, by cases value <;> simp, rfl⟩

theorem getElem?_expressionsFor (owner : String) {c : Nat} (hc : c < 2 ^ parents.length) :
    (expressionsFor owner parents)[2 * c]? = some (ofRow owner true (pattern parents c)) ∧
      (expressionsFor owner parents)[2 * c + 1]? =
        some (ofRow owner false (pattern parents c)) := by
  have hpair := getElem?_flatMap_pair (assignments parents) (ofRow owner true) (ofRow owner false) c
  rwa [getElem?_assignments hc] at hpair

theorem expressionsFor_ordered (owner : String) (parents : List String) :
    (expressionsFor owner parents).Pairwise fun e e' => Precedes e.values e'.values := by
  rw [expressionsFor_eq, List.pairwise_flatMap]
  constructor
  · intro a _
    have hpair : Precedes (a.map (·.value) ++ [true]) (a.map (·.value) ++ [false]) :=
      ⟨_, [], [], rfl, rfl⟩
    simpa [Expression.values_ofRow] using hpair
  · refine (assignments_ordered parents).imp fun hprecedes => ?_
    intro e he e' he'
    obtain ⟨value, -, rfl⟩ := List.mem_map.1 he
    obtain ⟨value', -, rfl⟩ := List.mem_map.1 he'
    rw [Expression.values_ofRow, Expression.values_ofRow]
    exact hprecedes.append _ _

/-- No two rows mean the same, since one stands before the other. -/
theorem pairwise_expressionsFor (hnodup : parents.Nodup) :
    (expressionsFor owner parents).Pairwise fun e e' => e.same e' = false := by
  refine (expressionsFor_ordered owner parents).imp_of_mem fun he he' hprecedes => ?_
  obtain ⟨value, a, ha, rfl⟩ := mem_expressionsFor.1 he
  obtain ⟨value', a', ha', rfl⟩ := mem_expressionsFor.1 he'
  rw [← Bool.not_eq_true,
    Expression.ofRow_same_iff hnodup (mem_assignments.2 ha) (mem_assignments.2 ha')]
  rintro ⟨rfl, rfl⟩
  exact hprecedes.ne rfl

/-- A variable with `k` parents has a row for each of its values and each assignment of
the parents. -/
theorem length_expressionsFor (owner : String) (parents : List String) :
    (expressionsFor owner parents).length = 2 ^ (parents.length + 1) := by
  rw [expressionsFor_eq, length_flatMap_of_forall fun _ _ => List.length_map _,
    assignments_eq_patterns, List.length_map, List.length_range, pow_succ]
  rfl

/-- The rows of a variable with these parents: all of them, each once and in their
order. -/
structure Generates (owner : String) (parents : List String) (rows : List Expression) :
    Prop where
  length_eq : rows.length = 2 ^ (parents.length + 1)
  /-- No two rows mean the same. -/
  distinct : rows.Pairwise fun e e' => e.same e' = false
  /-- There is a row for each value and each assignment of the parents, and no other. -/
  mem_iff : ∀ e, e ∈ rows ↔ ∃ value a, a.map (·.id) = parents ∧ e = ofRow owner value a
  /-- The first parent is the most significant, and the value of the owner varies
  fastest. -/
  ordered : rows.Pairwise fun e e' => Precedes e.values e'.values
  /-- The place of a row is given by the digits of its number. -/
  place : ∀ c < 2 ^ parents.length,
    rows[2 * c]? = some (ofRow owner true (pattern parents c)) ∧
      rows[2 * c + 1]? = some (ofRow owner false (pattern parents c))
  /-- Two rows side by side turn into each other when the owner gets its other value. -/
  complementary : ∀ c < 2 ^ parents.length, ∃ e e',
    rows[2 * c]? = some e ∧ rows[2 * c + 1]? = some e' ∧
      e.withHypothesis owner false = .ok e' ∧ e'.withHypothesis owner true = .ok e

/-- A table that starts anew has exactly the rows of its variable and the parents, each
once, in lexicographic order and side by side with its complement, and none of them is
filled. -/
theorem forParents_generates (howner : owner ∉ parents) (hnodup : parents.Nodup) :
    Generates owner parents (forParents owner parents).expressions ∧
      (forParents owner parents).isEmpty = true := by
  have hexpressions : (forParents owner parents).expressions = expressionsFor owner parents := by
    unfold forParents expressions
    rw [List.map_map]
    exact List.map_id _
  refine ⟨?_, by simp [forParents, isEmpty]⟩
  rw [hexpressions]
  refine ⟨length_expressionsFor owner parents, pairwise_expressionsFor hnodup,
    fun _ => mem_expressionsFor, expressionsFor_ordered owner parents,
    fun _ hc => getElem?_expressionsFor owner hc, fun c hc => ?_⟩
  obtain ⟨htrue, hfalse⟩ := getElem?_expressionsFor owner hc
  have hids := map_id_pattern parents c
  have hother : ∀ value value',
      (ofRow owner value (pattern parents c)).withHypothesis owner value' =
        .ok (ofRow owner value' (pattern parents c)) := by
    intro value value'
    exact Expression.withHypothesis_eq rfl (hids.symm ▸ hnodup) (hids.symm ▸ howner) value'
  exact ⟨_, _, htrue, hfalse, hother true false, hother false true⟩

/-- With two parents there are eight rows. The sixth is about a dry lawn, with the
sprinkler off and in the rain. -/
theorem lawn_generates :
    "wet" ∉ ["sprinkler", "rain"] ∧ ["sprinkler", "rain"].Nodup ∧
      (forParents "wet" ["sprinkler", "rain"]).expressions.length = 8 ∧
      (forParents "wet" ["sprinkler", "rain"]).expressions[5]? =
        some ⟨⟨[⟨"wet", false⟩], [⟨"sprinkler", false⟩, ⟨"rain", true⟩]⟩⟩ := by
  have howner : "wet" ∉ ["sprinkler", "rain"] := by simp
  have hnodup : ["sprinkler", "rain"].Nodup := by simp
  obtain ⟨hgenerates, -⟩ := forParents_generates howner hnodup
  exact ⟨howner, hnodup, hgenerates.length_eq, (hgenerates.place 2 (by simp)).2⟩

end Table

end BeliefNet
