import Mathlib
import BeliefNet.Proofs.Network.WellFormed
import BeliefNet.Proofs.Store.Run

/-!
# All or nothing

What an edit has written before it fails stays written. So an edit that leaves
everything as it was when it fails (`Writing.Atomic`) has to have all its checks in
front of what it writes: checks may come first (`Writing.Atomic.check_bind`), and
behind them only what cannot fail (`Writing.Sure`), such as the two pushes of an edge
or the two entries of a row and its counterpart.

Every operation is built in this way (`Store.atomic_outcome`), from whatever state it
starts. What does not fail in a run is then all there is to the run
(`Store.run_accepted`).
-/

namespace BeliefNet

namespace Writing

variable {σ α β : Type}

/-- A change that fails has written nothing. -/
def Atomic (w : Writing σ α) : Prop :=
  ∀ s e, (w.apply s).1 = .error e → (w.apply s).2 = s

/-- A change that does not fail. -/
def Sure (w : Writing σ α) : Prop := ∀ s, ∃ a, (w.apply s).1 = .ok a

theorem Sure.atomic {w : Writing σ α} (hw : w.Sure) : w.Atomic := by
  intro s e herror
  obtain ⟨a, hok⟩ := hw s
  rw [hok] at herror
  cases herror

theorem atomic_throw (e : Error) : Atomic (throw e : Writing σ α) := fun _ _ _ => rfl

/-- Checks may come first. -/
theorem Atomic.check_bind {f : σ → Except Error α} {g : α → Writing σ β}
    (hg : ∀ a, (g a).Atomic) : (check f >>= g).Atomic := by
  intro s e
  rw [apply_check_bind]
  cases f s with
  | error _ => exact fun _ => rfl
  | ok a => exact hg a s e

theorem sure_pure (a : α) : Sure (pure a : Writing σ α) := fun _ => ⟨a, rfl⟩

theorem sure_get : Sure (get : Writing σ σ) := fun s => ⟨s, rfl⟩

theorem sure_modify (f : σ → σ) : Sure (modify f : Writing σ PUnit) := fun _ => ⟨⟨⟩, rfl⟩

/-- Nothing of this can fail. -/
theorem Sure.bind {w : Writing σ α} {g : α → Writing σ β} (hw : w.Sure)
    (hg : ∀ a, (g a).Sure) : (w >>= g).Sure := by
  intro s
  rw [apply_bind]
  obtain ⟨a, hok⟩ := hw s
  generalize w.apply s = ending at hok
  obtain ⟨outcome, s'⟩ := ending
  obtain rfl : outcome = .ok a := hok
  exact hg a s'

/-- Reading a state writes nothing. -/
theorem Atomic.get_bind {g : σ → Writing σ β} (hg : ∀ a, (g a).Atomic) :
    (get >>= g : Writing σ β).Atomic := by
  intro s e
  rw [apply_bind]
  exact hg s s e

end Writing

open Writing

/-! ## Writing to tables -/

namespace TableStore

/-- Both entries are written behind the last check. -/
theorem atomic_putDecimal (e : Expression) (entry : Decimal) : (putDecimal e entry).Atomic := by
  unfold putDecimal
  by_cases hunit : entry.InUnit
  · rw [if_neg (not_not.2 hunit)]
    refine .check_bind fun _ => .check_bind fun value => .get_bind fun t => ?_
    refine .check_bind fun counterpart => Sure.atomic ?_
    exact (sure_modify _).bind fun _ => sure_modify _
  · rw [if_pos hunit]
    exact atomic_throw _

theorem atomic_put (e : Expression) (entry : Binary64) : (put e entry).Atomic := by
  unfold put
  by_cases hunit : entry.InUnit
  · rw [if_neg (not_not.2 hunit)]
    cases Decimal.parse? entry.text with
    | some decimal => exact atomic_putDecimal e decimal
    | none => exact atomic_throw _
  · rw [if_pos hunit]
    exact atomic_throw _

end TableStore

namespace Store

open Edit

/-! ## Edits -/

theorem sure_write (f : Store → Store) : (write f).Sure := sure_modify _

theorem sure_current : current.Sure := sure_get.bind fun _ => sure_pure _

theorem sure_announce (event : Event) : (announce event).Sure := by
  intro s
  rw [apply_announce]
  exact ⟨_, rfl⟩

/-- A table that is not in the list is not written. -/
theorem apply_onTable_of_none {s : Session} {position : Nat} (hv : s.store.nodes[position]? = none)
    (w : Writing TableStore Unit) : (onTable position w).apply s = (.ok (), s) := by
  unfold onTable
  rw [apply_current_bind, hv]
  rfl

theorem sure_onTable {w : Writing TableStore Unit} (hw : w.Sure) (position : Nat) :
    (onTable position w).Sure := by
  intro s
  cases hv : s.store.nodes[position]? with
  | none => exact ⟨(), congrArg Prod.fst (apply_onTable_of_none hv w)⟩
  | some v =>
    rw [apply_onTable hv]
    exact hw v.table

/-- A table that is as it was is written back to where it was. -/
theorem atomic_onTable {w : Writing TableStore Unit} (hw : w.Atomic) (position : Nat) :
    (onTable position w).Atomic := by
  intro s e
  cases hv : s.store.nodes[position]? with
  | none =>
    rw [apply_onTable_of_none hv]
    exact fun _ => rfl
  | some v =>
    rw [apply_onTable hv]
    intro herror
    have htable : (w.apply v.table).2 = v.table := hw v.table e herror
    refine congrArg (fun nodes => (⟨{ s.store with nodes := nodes }, s.notices⟩ : Session)) ?_
    rw [htable]
    exact set_self hv

theorem atomic_newVariable (id : String) (label : Option String) :
    (newVariable id label).Atomic := by
  refine .check_bind fun _ => Sure.atomic ?_
  refine sure_current.bind fun s => ?_
  refine (sure_write _).bind fun _ => (sure_write _).bind fun _ => ?_
  exact sure_pure _

/-- Both maps and the table are written behind the last check. -/
theorem atomic_addEdge (edge : Edge) : (addEdge edge).Atomic := by
  refine .check_bind fun position => Sure.atomic ?_
  refine (sure_write _).bind fun _ => (sure_write _).bind fun _ => ?_
  refine sure_current.bind fun s => ?_
  exact (sure_onTable (sure_modify _) position).bind fun _ => sure_announce _

theorem atomic_fillTable {w : Writing TableStore Unit} (hw : w.Atomic) (id : String) :
    (fillTable id w).Atomic :=
  .check_bind fun position => atomic_onTable hw position

theorem sure_replaceEvidence (f : List Term → List Term) : (replaceEvidence f).Sure :=
  (sure_write _).bind fun _ => sure_announce _

theorem atomic_listen (scope : Scope) : (listen scope).Atomic := by
  refine .check_bind fun _ => Sure.atomic ?_
  refine sure_current.bind fun s => ?_
  refine (sure_write _).bind fun _ => (sure_write _).bind fun _ => ?_
  exact sure_pure _

theorem sure_dismiss (id : Nat) : (dismiss id).Sure :=
  sure_current.bind fun _ => (sure_write _).bind fun _ => sure_current.bind fun _ => sure_pure _

/-! ## Operations and runs -/

open Network (Operation)

variable {s : Session} {op : Operation} {e : Error}

/-- An edit that is atomic is so without its result. -/
theorem snd_withoutResult {α : Type} {w : Edit α} (hw : w.Atomic)
    (h : (withoutResult w s).1 = .error e) : (withoutResult w s).2 = s := by
  unfold withoutResult at h ⊢
  cases houtcome : (w.apply s).1 with
  | error e' => exact hw s e' houtcome
  | ok a =>
    rw [houtcome] at h
    cases h

/-- One step: an operation that fails has written nothing. -/
theorem step_of_error (h : (outcome s op).1 = .error e) : step s op = s := by
  unfold step
  cases op with
  | newVariable id label => exact snd_withoutResult (atomic_newVariable id label) h
  | addEdge edge => exact snd_withoutResult (atomic_addEdge edge) h
  | put id text entry =>
    refine snd_withoutResult ?_ h
    exact .check_bind fun e => atomic_fillTable (TableStore.atomic_put e entry) id
  | putEntry id e entry =>
    exact snd_withoutResult (atomic_fillTable (TableStore.atomic_put e entry) id) h
  | putDecimal id e entry =>
    exact snd_withoutResult (atomic_fillTable (TableStore.atomic_putDecimal e entry) id) h
  | setEvidence t =>
    exact snd_withoutResult (.check_bind fun _ => (sure_replaceEvidence _).atomic) h
  | clearEvidence id =>
    exact snd_withoutResult (.check_bind fun _ => (sure_replaceEvidence _).atomic) h
  | clearAllEvidence => exact snd_withoutResult (sure_replaceEvidence _).atomic h
  | listen scope => exact snd_withoutResult (atomic_listen scope) h
  | dismiss id => exact snd_withoutResult (sure_dismiss id).atomic h

/-- Without its failures a run succeeds, and ends in the same session. -/
theorem run_accepted (s : Session) (ops : List Operation) :
    Succeed s (accepted s ops) ∧ run (accepted s ops) s = run ops s := by
  induction ops generalizing s with
  | nil => exact ⟨trivial, rfl⟩
  | cons op ops ih =>
    unfold accepted
    obtain ⟨hsucceed, hrun⟩ := ih (step s op)
    cases hop : (outcome s op).1 with
    | ok _ => exact ⟨⟨hop, hsucceed⟩, hrun⟩
    | error e =>
      rw [step_of_error hop] at hsucceed hrun
      show Succeed s (accepted (step s op) ops) ∧
        run (accepted (step s op) ops) s = run ops (step s op)
      rw [step_of_error hop]
      exact ⟨hsucceed, hrun⟩

/-- An operation that fails, for whatever reason, leaves everything as it was: the
variables and their order, the index, both maps of edges, the rows and the entries of
the tables, the evidence, the listeners and their next id; and no listener is told
anything. So the failures of a run can be left out: without them it succeeds and ends
in the same session. -/
theorem failure_changes_nothing (s : Session) :
    (∀ (op : Operation) (e : Error), (outcome s op).1 = .error e → step s op = s) ∧
    ∀ ops : List Operation, Succeed s (accepted s ops) ∧ run (accepted s ops) s = run ops s :=
  ⟨fun _ _ h => step_of_error h, run_accepted s⟩

/-- A second variable with the id of the first, a loop, a put by a text that is no
expression, a row without the parent, entries above one as a double and as a decimal,
and three calls for a variable that there is not. -/
def alarmRefusals : List Operation := [
  .newVariable "fault" none,
  .addEdge ⟨"fault", "fault"⟩,
  .put "alarm" "P(alarm|fault" ⟨0x3fe0000000000000⟩,
  .putDecimal "alarm" ⟨⟨[⟨"alarm", true⟩], []⟩⟩ (Network.tenths 5),
  .putEntry "fault" ⟨⟨[⟨"fault", true⟩], []⟩⟩ ⟨0x4000000000000000⟩,
  .putDecimal "fault" ⟨⟨[⟨"fault", true⟩], []⟩⟩
    { Network.tenths 10 with scale := 1, scale_le := by decide },
  .setEvidence ⟨"smoke", true⟩,
  .clearEvidence "smoke",
  .listen (.variable "smoke")]

/-- Each of them fails on the alarm, and leaves it as it is. -/
theorem alarm_failure_changes_nothing : ∀ op ∈ alarmRefusals,
    (∃ e, (outcome (run Network.alarmOperations initial) op).1 = .error e) ∧
      step (run Network.alarmOperations initial) op = run Network.alarmOperations initial := by
  have hrefused : ∀ op ∈ alarmRefusals, (op.outcome ⟨Network.alarm, []⟩).1 ≠ .ok () := by
    decide +kernel
  intro op hop
  have hfollows := (run_follows initial_follows Network.alarmOperations).2
  have hnetwork : (Operation.run Network.alarmOperations ⟨Network.empty, []⟩).network =
      (⟨Network.alarm, []⟩ : BeliefNet.Session).network := Network.run_alarmOperations
  have hsame : (outcome (run Network.alarmOperations initial) op).1 =
      (op.outcome ⟨Network.alarm, []⟩).1 :=
    (step_follows hfollows op).1.trans (Operation.outcome_congr hnetwork op).1
  cases houtcome : (outcome (run Network.alarmOperations initial) op).1 with
  | error e => exact ⟨⟨e, rfl⟩, (failure_changes_nothing _).1 op e houtcome⟩
  | ok _ => exact absurd (hsame.symm.trans houtcome) (hrefused op hop)

end Store

end BeliefNet
