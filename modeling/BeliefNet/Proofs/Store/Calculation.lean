import Mathlib
import BeliefNet.Store.Inference
import BeliefNet.Proofs.Probability.Running

/-!
# Calculations that may overflow

A calculation that counts its exponents in 32 bits is compared with one without bounds
(`Computes`). What is known of a result is handed on from each calculation to the next
(`Computes.bind`): it is what the next one needs to stay in range.
-/

namespace BeliefNet

/-- A calculation comes to what one without bounds comes to: unless it overflows it
has the same result or error, and if it is safe it does not overflow, and the result is
as the postcondition says. -/
structure Computes {α : Type} (safe : Prop) (post : α → Prop) (c : Calculation α)
    (found : Except Error α) : Prop where
  agrees : ∀ {r}, c.run = .ok r → r = found
  answers : safe → c.run = .ok found
  holds : safe → ∀ {a}, found = .ok a → post a

namespace Computes

variable {α β : Type} {safe : Prop} {post : α → Prop} {post' : β → Prop} {c : Calculation α}
  {found : Except Error α} {a : α}

theorem pure (h : safe → post a) : Computes safe post (pure a) (.ok a) where
  agrees hrun := (Except.ok.inj hrun).symm
  answers _ := rfl
  holds hsafe := fun heq => Except.ok.inj heq ▸ h hsafe

theorem throw (e : Error) : Computes safe post (throw e) (.error e) where
  agrees hrun := (Except.ok.inj hrun).symm
  answers _ := rfl
  holds _ := nofun

/-- What is read from the network needs no exponents. -/
theorem read : Computes safe (fun _ => True) (ofExcept found) found := by
  cases found with
  | error e => exact .throw e
  | ok a => exact .pure fun _ => trivial

theorem mono {post' : α → Prop} (h : Computes safe post c found) (hpost : ∀ a, post a → post' a) :
    Computes safe post' c found :=
  ⟨h.agrees, h.answers, fun hsafe _ hfound => hpost _ (h.holds hsafe hfound)⟩

/-- One calculation behind another. -/
theorem bind {g : α → Calculation β} {f : α → Except Error β} (h : Computes safe post c found)
    (hg : ∀ a, found = .ok a → (safe → post a) → Computes safe post' (g a) (f a)) :
    Computes safe post' (c >>= g) (found >>= f) := by
  have hnext : ∀ a, found = .ok a → Computes safe post' (g a) (f a) := fun a hfound =>
    hg a hfound fun hsafe => h.holds hsafe hfound
  constructor
  · intro r hrun
    cases hc : c.run with
    | error o =>
      rw [ExceptT.run_bind, hc] at hrun
      exact nomatch hrun
    | ok r' =>
      obtain rfl := h.agrees hc
      cases hfound : r' with
      | error e =>
        rw [ExceptT.run_bind, hc, hfound] at hrun
        exact (Except.ok.inj hrun).symm
      | ok a =>
        rw [ExceptT.run_bind, hc, hfound] at hrun
        exact (hnext a hfound).agrees hrun
  · intro hsafe
    rw [ExceptT.run_bind, h.answers hsafe]
    cases hfound : found with
    | error e => rfl
    | ok a => exact (hnext a hfound).answers hsafe
  · intro hsafe b
    cases hfound : found with
    | error e => exact nofun
    | ok a => exact fun heq => (hnext a hfound).holds hsafe heq

/-- A result is only read. -/
theorem map (h : Computes safe post c found) (f : α → β) :
    Computes safe (fun _ => True) (c >>= fun a => Pure.pure (f a)) (found.map f) := by
  have hmap : found.map f = found >>= fun a => .ok (f a) := by
    cases found with
    | error e => rfl
    | ok a => rfl
  rw [hmap]
  exact h.bind fun a _ _ => .pure fun _ => trivial

/-- The calculations for all members of a list, up to the first that fails. -/
theorem mapM {γ : Type} {g : γ → Calculation α} {f : γ → Except Error α} {l : List γ}
    (h : ∀ x ∈ l, Computes safe (fun _ => True) (g x) (f x)) :
    Computes safe (fun _ => True) (l.mapM g) (l.mapM f) := by
  induction l with
  | nil => exact .pure fun _ => trivial
  | cons x l ih =>
    rw [List.mapM_cons, List.mapM_cons]
    refine (h x List.mem_cons_self).bind fun a _ _ => ?_
    refine (ih fun y hy => h y (List.mem_cons_of_mem x hy)).bind fun as _ _ => ?_
    exact .pure fun _ => trivial

end Computes

/-- The number that is there, or an error. -/
def orError (e : Error) : Option Probability → Except Error Probability
  | some p => .ok p
  | none => .error e

/-- An operation in steps comes to what it comes to without bounds. -/
theorem computes_orThrow {safe : Prop} {post : Probability → Prop} {e : Error}
    {steps : Option (Except Probability.Overflow Probability)} {unbounded : Option Probability}
    (hnone : steps = none ↔ unbounded = none)
    (hsome : ∀ p, steps = some (.ok p) → unbounded = some p)
    (hsafe : safe → ∃ p, steps = some (.ok p) ∧ post p) :
    Computes safe post (Calculation.orThrow e steps) (orError e unbounded) := by
  constructor
  · intro r hrun
    cases hsteps : steps with
    | none =>
      rw [hnone.1 hsteps]
      rw [hsteps] at hrun
      exact (Except.ok.inj hrun).symm
    | some number =>
      rw [hsteps] at hrun
      cases number with
      | error _ => exact nomatch hrun
      | ok p =>
        rw [hsome p hsteps]
        exact (Except.ok.inj hrun).symm
  · intro hsafe'
    obtain ⟨p, hsteps, -⟩ := hsafe hsafe'
    rw [hsome p hsteps, hsteps]
    rfl
  · intro hsafe' p hp
    obtain ⟨q, hsteps, hpost⟩ := hsafe hsafe'
    rw [hsome q hsteps] at hp
    exact Except.ok.inj hp ▸ hpost

end BeliefNet
