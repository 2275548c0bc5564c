import Mathlib
import BeliefNet.Network.Update

/-!
# Runs of a network

A run is any list of operations on the empty network, failing ones included.
`Network.Operation` are the updates that are open to callers. What one of them
does to the variables, the edges and the tables, if it succeeds, is its deed, and
the deeds of a run are its history (`Operation.history`).
-/

namespace BeliefNet

namespace Update

variable {α β : Type}

/-- A check that fails ends an update, and one that does not changes nothing. -/
theorem apply_check_bind (f : Network → Except Error α) (g : α → Update β) (s : Session) :
    (check f >>= g).apply s =
      match f s.network with
      | .error e => (.error e, s)
      | .ok a => (g a).apply s := by
  show (check.liftExcept (f s.network) >>= g).apply s = _
  cases f s.network with
  | error e => rfl
  | ok a => rfl

end Update

namespace Network

open Update

/-- The updates that are open to callers. -/
inductive Operation where
  | newVariable (id : String) (label : Option String)
  | addEdge (edge : Edge)
  | put (id text : String) (entry : Binary64)
  | putEntry (id : String) (e : Expression) (entry : Binary64)
  | putDecimal (id : String) (e : Expression) (entry : Decimal)
  | setEvidence (t : Term)
  | clearEvidence (id : String)
  | clearAllEvidence
  | listen (scope : Scope)
  | dismiss (id : Nat)

/-- The outcome of an update without its result. -/
def withoutResult {α : Type} (u : Update α) (s : Session) : Except Error Unit × Session :=
  ((u.apply s).1.map fun _ => (), (u.apply s).2)

theorem withoutResult_check_bind {α β : Type} (f : Network → Except Error α) (g : α → Update β)
    (s : Session) :
    withoutResult (check f >>= g) s =
      match f s.network with
      | .error e => (.error e, s)
      | .ok a => withoutResult (g a) s := by
  unfold withoutResult
  rw [apply_check_bind]
  cases f s.network with
  | error e => rfl
  | ok a => rfl

/-- An update that cannot fail behind its check succeeds or fails as the check does. -/
theorem fst_withoutResult_check_bind {α : Type} {f : Network → Except Error Unit}
    {g : Unit → Update α} (hg : ∀ a s, (withoutResult (g a) s).1 = .ok ()) (s : Session) :
    (withoutResult (check f >>= g) s).1 = f s.network := by
  rw [withoutResult_check_bind]
  cases f s.network with
  | error e => rfl
  | ok a => exact hg a s

/-- The notices that were sent before make no difference to an update. -/
def IgnoresNotices {α : Type} (u : Update α) : Prop :=
  ∀ n notices notices', (withoutResult u ⟨n, notices⟩).1 = (withoutResult u ⟨n, notices'⟩).1 ∧
    (withoutResult u ⟨n, notices⟩).2.network = (withoutResult u ⟨n, notices'⟩).2.network

theorem IgnoresNotices.check_bind {α β : Type} {f : Network → Except Error α} {g : α → Update β}
    (hg : ∀ a, IgnoresNotices (g a)) : IgnoresNotices (check f >>= g) := by
  intro n notices notices'
  rw [withoutResult_check_bind, withoutResult_check_bind]
  cases hcheck : f n with
  | error e => exact ⟨rfl, rfl⟩
  | ok a => exact hg a n notices notices'

/-- What an operation that succeeds does to the variables, the edges or a
table. -/
inductive Deed where
  | define (id : String)
  | link (edge : Edge)
  /-- A row of the table of a variable gets a probability. -/
  | fill (id : String) (e : Expression) (entry : Decimal)
  deriving DecidableEq

namespace Operation

/-- Whether an operation fails, and the session behind it. -/
def outcome (s : Session) : Operation → Except Error Unit × Session
  | newVariable id label => withoutResult (Network.newVariable id label) s
  | addEdge edge => withoutResult (Network.addEdge edge) s
  | put id text entry => withoutResult (Network.put id text entry) s
  | putEntry id e entry => withoutResult (Network.putEntry id e entry) s
  | putDecimal id e entry => withoutResult (Network.putDecimal id e entry) s
  | setEvidence t => withoutResult (Network.setEvidence t) s
  | clearEvidence id => withoutResult (Network.clearEvidence id) s
  | clearAllEvidence => withoutResult Network.clearAllEvidence s
  | listen scope => withoutResult (Network.listen scope) s
  | dismiss id => withoutResult (Network.dismiss id) s

/-- The session behind an operation, whether it fails or not. -/
def step (s : Session) (op : Operation) : Session := (op.outcome s).2

/-- An edge that can be added is added, and announced. -/
theorem outcome_addEdge {s : Session} {edge : Edge} (h : s.network.checkEdge edge = .ok ()) :
    outcome s (addEdge edge) = (.ok (), ((announce (.edgeAdded edge)).apply
      { s with network := s.network.withEdge edge }).2) := by
  show withoutResult (Network.addEdge edge) s = _
  unfold Network.addEdge
  rw [withoutResult_check_bind, h]
  rfl

/-- The session behind some operations. -/
def run (ops : List Operation) (s : Session) : Session := ops.foldl step s

theorem run_append (ops ops' : List Operation) (s : Session) :
    run (ops ++ ops') s = run ops' (run ops s) :=
  List.foldl_append

/-- What an operation does to the variables, the edges or a table of this
network, if it succeeds. A double is put as the decimal that its text reads
as. -/
def deed (n : Network) : Operation → Option Deed
  | newVariable id _ => some (.define id)
  | addEdge edge => some (.link edge)
  | put id text entry =>
    (n.parse text).toOption.bind fun e => (Decimal.parse? entry.text).map (.fill id e)
  | putEntry id e entry => (Decimal.parse? entry.text).map (.fill id e)
  | putDecimal id e entry => some (.fill id e entry)
  | _ => none

/-- The deed of an operation; one that fails has none. -/
def done (s : Session) (op : Operation) : Option Deed :=
  match (op.outcome s).1 with
  | .ok _ => op.deed s.network
  | .error _ => none

/-- The deeds of some operations, one after another. -/
def history (s : Session) : List Operation → List Deed
  | [] => []
  | op :: ops => (op.done s).toList ++ history (op.step s) ops

/-- The operations of a run that do not fail, in order. -/
def accepted (s : Session) : List Operation → List Operation
  | [] => []
  | op :: ops =>
    match (op.outcome s).1 with
    | .ok _ => op :: accepted (op.step s) ops
    | .error _ => accepted (op.step s) ops

/-- None of the operations fails. -/
def Succeed (s : Session) : List Operation → Prop
  | [] => True
  | op :: ops => (op.outcome s).1 = .ok () ∧ Succeed (op.step s) ops

/-- What an operation does depends on the network. -/
theorem outcome_congr {s s' : Session} (h : s.network = s'.network) (op : Operation) :
    (op.outcome s).1 = (op.outcome s').1 ∧ (op.step s).network = (op.step s').network := by
  obtain ⟨n, notices⟩ := s
  obtain ⟨n', notices'⟩ := s'
  obtain rfl : n = n' := h
  cases op with
  | newVariable id label =>
    exact IgnoresNotices.check_bind (fun _ _ _ _ => ⟨rfl, rfl⟩) n notices notices'
  | addEdge edge =>
    exact IgnoresNotices.check_bind (fun _ _ _ _ => ⟨rfl, rfl⟩) n notices notices'
  | put id text entry =>
    exact IgnoresNotices.check_bind (fun _ => .check_bind fun _ _ _ _ => ⟨rfl, rfl⟩)
      n notices notices'
  | putEntry id e entry =>
    exact IgnoresNotices.check_bind (fun _ _ _ _ => ⟨rfl, rfl⟩) n notices notices'
  | putDecimal id e entry =>
    exact IgnoresNotices.check_bind (fun _ _ _ _ => ⟨rfl, rfl⟩) n notices notices'
  | setEvidence t =>
    exact IgnoresNotices.check_bind (fun _ _ _ _ => ⟨rfl, rfl⟩) n notices notices'
  | clearEvidence id =>
    exact IgnoresNotices.check_bind (fun _ _ _ _ => ⟨rfl, rfl⟩) n notices notices'
  | clearAllEvidence => exact ⟨rfl, rfl⟩
  | listen scope =>
    exact IgnoresNotices.check_bind (fun _ _ _ _ => ⟨rfl, rfl⟩) n notices notices'
  | dismiss id => exact ⟨rfl, rfl⟩

theorem history_congr {s s' : Session} (h : s.network = s'.network) (ops : List Operation) :
    history s ops = history s' ops := by
  induction ops generalizing s s' with
  | nil => rfl
  | cons op ops ih =>
    obtain ⟨houtcome, hnetwork⟩ := outcome_congr h op
    unfold history done
    rw [houtcome, h, ih hnetwork]

theorem run_congr {s s' : Session} (h : s.network = s'.network) (ops : List Operation) :
    (run ops s).network = (run ops s').network := by
  induction ops generalizing s s' with
  | nil => exact h
  | cons op ops ih => exact ih (outcome_congr h op).2

theorem history_append (ops ops' : List Operation) (s : Session) :
    history s (ops ++ ops') = history s ops ++ history (run ops s) ops' := by
  induction ops generalizing s with
  | nil => rfl
  | cons op ops ih =>
    show (op.done s).toList ++ history (op.step s) (ops ++ ops') = _
    rw [ih, ← List.append_assoc]
    rfl

theorem done_of_ok {s : Session} {op : Operation} (h : (op.outcome s).1 = .ok ()) :
    op.done s = op.deed s.network := by
  unfold done
  rw [h]

theorem deed_of_done {s : Session} {op : Operation} {deed : Deed} (h : op.done s = some deed) :
    op.deed s.network = some deed := by
  unfold done at h
  split at h
  · exact h
  · cases h

/-- Whatever was done is the deed of an operation. -/
theorem exists_of_mem_history {s : Session} {ops : List Operation} {deed : Deed}
    (h : deed ∈ history s ops) : ∃ op ∈ ops, ∃ n, op.deed n = some deed := by
  induction ops generalizing s with
  | nil => exact absurd h List.not_mem_nil
  | cons op ops ih =>
    rcases List.mem_append.1 h with hdone | hlater
    · exact ⟨op, List.mem_cons_self, s.network, deed_of_done (Option.mem_toList.1 hdone)⟩
    · obtain ⟨other, hother, hdeed⟩ := ih hlater
      exact ⟨other, List.mem_cons_of_mem op hother, hdeed⟩

end Operation

/-- A network that some operations build from the empty one. -/
def Reachable (n : Network) : Prop :=
  ∃ ops, (Operation.run ops ⟨empty, []⟩).network = n

end Network

end BeliefNet
