import Mathlib
import BeliefNet.Proofs.Store.Update

/-!
# Runs of a stored network

A run of a stored network makes edits, whether they fail or not. Beside it runs the
network that the store represents: each step simulates its step
(`Store.outcome_simulates`), so after any run the store still represents the network,
the same operations have failed with the same errors, and the same notices have been
sent (`Store.run_follows`).
-/

namespace BeliefNet

namespace Store

open Network (Operation)

/-- The outcome of an edit without its result. -/
def withoutResult {α : Type} (w : Edit α) (s : Session) : Except Error Unit × Session :=
  ((w.apply s).1.map fun _ => (), (w.apply s).2)

/-- Whether an operation fails, and the session behind it. -/
def outcome (s : Session) : Operation → Except Error Unit × Session
  | .newVariable id label => withoutResult (newVariable id label) s
  | .addEdge edge => withoutResult (addEdge edge) s
  | .put id text entry => withoutResult (put id text entry) s
  | .putEntry id e entry => withoutResult (putEntry id e entry) s
  | .putDecimal id e entry => withoutResult (putDecimal id e entry) s
  | .setEvidence t => withoutResult (setEvidence t) s
  | .clearEvidence id => withoutResult (clearEvidence id) s
  | .clearAllEvidence => withoutResult clearAllEvidence s
  | .listen scope => withoutResult (listen scope) s
  | .dismiss id => withoutResult (dismiss id) s

/-- The session behind an operation, whether it fails or not. -/
def step (s : Session) (op : Operation) : Session := (outcome s op).2

/-- The session behind some operations. -/
def run (ops : List Operation) (s : Session) : Session := ops.foldl step s

/-- The operations of a run that do not fail, in order. -/
def accepted (s : Session) : List Operation → List Operation
  | [] => []
  | op :: ops =>
    match (outcome s op).1 with
    | .ok _ => op :: accepted (step s op) ops
    | .error _ => accepted (step s op) ops

/-- None of the operations fails. -/
def Succeed (s : Session) : List Operation → Prop
  | [] => True
  | op :: ops => (outcome s op).1 = .ok () ∧ Succeed (step s op) ops

/-- The session of a network before anything has been done to it. -/
def initial : Session := ⟨empty, []⟩

variable {s : Session} {n : BeliefNet.Session}

theorem Simulates.withoutResult {α β : Type} {R : α → β → Prop} {w : Edit α}
    {u : BeliefNet.Update β} (h : Simulates R s n (w.apply s) (u.apply n)) :
    Simulates Eq s n (withoutResult w s) (Network.withoutResult u n) := by
  unfold Store.withoutResult Network.withoutResult
  generalize w.apply s = ending at h
  generalize u.apply n = ending' at h
  cases h with
  | failed e => exact .failed e
  | done _ hfollows => exact .done rfl hfollows

/-- Whether the operation fails or not, the store does what the network does. -/
theorem outcome_simulates (h : s.Follows n) (op : Operation) :
    Simulates Eq s n (outcome s op) (op.outcome n) := by
  cases op with
  | newVariable id label => exact (simulates_newVariable h id label).withoutResult
  | addEdge edge => exact (simulates_addEdge h edge).withoutResult
  | put id text entry => exact (simulates_put h id text entry).withoutResult
  | putEntry id e entry => exact (simulates_putEntry h id e entry).withoutResult
  | putDecimal id e entry => exact (simulates_putDecimal h id e entry).withoutResult
  | setEvidence t => exact (simulates_setEvidence h t).withoutResult
  | clearEvidence id => exact (simulates_clearEvidence h id).withoutResult
  | clearAllEvidence => exact (simulates_replaceEvidence h fun _ => []).withoutResult
  | listen scope => exact (simulates_listen h scope).withoutResult
  | dismiss id => exact (simulates_dismiss h id).withoutResult

/-- One step: the same error or none, and the store follows. -/
theorem step_follows (h : s.Follows n) (op : Operation) :
    (outcome s op).1 = (op.outcome n).1 ∧ (step s op).Follows (op.step n) := by
  have hsimulates := outcome_simulates h op
  unfold step Operation.step
  generalize outcome s op = ending at hsimulates ⊢
  generalize op.outcome n = ending' at hsimulates ⊢
  cases hsimulates with
  | failed e => exact ⟨rfl, h⟩
  | done hresult hfollows => exact ⟨congrArg Except.ok hresult, hfollows⟩

/-- A run: the same operations fail, and the store follows to the end. -/
theorem run_follows (h : s.Follows n) (ops : List Operation) :
    accepted s ops = Operation.accepted n ops ∧ (run ops s).Follows (Operation.run ops n) := by
  induction ops generalizing s n with
  | nil => exact ⟨rfl, h⟩
  | cons op ops ih =>
    obtain ⟨houtcome, hfollows⟩ := step_follows h op
    obtain ⟨haccepted, hrun⟩ := ih hfollows
    refine ⟨?_, hrun⟩
    unfold accepted Operation.accepted
    cases hop : (op.outcome n).1 with
    | error e =>
      rw [houtcome, hop]
      exact haccepted
    | ok _ =>
      rw [houtcome, hop]
      exact congrArg (op :: ·) haccepted

theorem initial_follows : initial.Follows ⟨Network.empty, []⟩ := ⟨.empty, .nil⟩

end Store

end BeliefNet
