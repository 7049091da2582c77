import Mathlib
/-
Transition systems given by a step relation: the states some run reaches, inductive
invariants, and predicates that no step can undo.

A safety property is an inductive invariant: it holds in the initial states and every step
keeps it, so it holds in every reachable state (`System.Inductive.reachable`). A process that
is stuck for good is a stable predicate: once it holds, it holds in every state reachable
from there (`System.Stable.reflTransGen`). A concrete run is built step by step with
`System.Reachable.step`.
-/

set_option autoImplicit false

namespace Transition

/-- A transition system: its initial states and its steps. -/
structure System (σ : Type) where
  init : σ → Prop
  step : σ → σ → Prop

variable {σ : Type} (T : System σ)

/-- The states some run reaches. -/
def System.Reachable (s : σ) : Prop :=
  ∃ s₀, T.init s₀ ∧ Relation.ReflTransGen T.step s₀ s

/-- A predicate that every step keeps. -/
def System.Stable (P : σ → Prop) : Prop :=
  ∀ s t, T.step s t → P s → P t

/-- An inductive invariant: it holds initially and every step keeps it. -/
structure System.Inductive (P : σ → Prop) : Prop where
  init : ∀ s, T.init s → P s
  step : T.Stable P

variable {T}

/-- What a stable predicate says holds along every continuation. -/
theorem System.Stable.reflTransGen {P : σ → Prop} (hP : T.Stable P) {s t : σ}
    (h : Relation.ReflTransGen T.step s t) (hs : P s) : P t := by
  induction h with
  | refl => exact hs
  | tail _ hst ih => exact hP _ _ hst ih

theorem System.Inductive.reachable {P : σ → Prop} (hP : T.Inductive P) {s : σ}
    (hs : T.Reachable s) : P s := by
  obtain ⟨s₀, h₀, hr⟩ := hs
  exact hP.step.reflTransGen hr (hP.init s₀ h₀)

theorem System.Reachable.of_init {s : σ} (h : T.init s) : T.Reachable s :=
  ⟨s, h, Relation.ReflTransGen.refl⟩

theorem System.Reachable.step {s t : σ} (hs : T.Reachable s) (h : T.step s t) : T.Reachable t := by
  obtain ⟨s₀, h₀, hr⟩ := hs
  exact ⟨s₀, h₀, hr.tail h⟩

/-- The states reachable from a reachable state are reachable. -/
theorem System.Reachable.reflTransGen {s t : σ} (hs : T.Reachable s)
    (h : Relation.ReflTransGen T.step s t) : T.Reachable t := by
  obtain ⟨s₀, h₀, hr⟩ := hs
  exact ⟨s₀, h₀, hr.trans h⟩

/-! ## Systems given by a step function -/

section StepFunction

variable {α : Type} (step : σ → α → Option σ)

/-- The state a list of actions reaches from `s`, one call of `step` after the other; `none`
when one of them cannot run. -/
def stepAll (s : σ) : List α → Option σ
  | [] => some s
  | a :: as => (step s a).bind fun t => stepAll t as

variable {step}

/-- A predicate that every step by an action of `Q` keeps holds after every run of such actions.
The induction is on the actions. -/
theorem stepAll_invariant (Q : α → Prop) (P : σ → Prop)
    (hstep : ∀ s a t, Q a → P s → step s a = some t → P t) {s t : σ} (hs : P s) (as : List α)
    (has : ∀ a ∈ as, Q a) (h : stepAll step s as = some t) : P t := by
  induction as generalizing s with
  | nil =>
    rw [stepAll, Option.some.injEq] at h
    rw [← h]
    exact hs
  | cons a as ih =>
    rw [stepAll] at h
    cases ha : step s a with
    | none =>
      rw [ha] at h
      cases h
    | some s₁ =>
      rw [ha] at h
      exact ih (hstep s a s₁ (has a List.mem_cons_self) hs ha)
        (fun b hb => has b (List.mem_cons_of_mem a hb)) h

/-- A run of a step function from a reachable state ends in a reachable state, when every call
of the step function is a step of the system. -/
theorem System.Reachable.of_stepAll (hstep : ∀ s a t, step s a = some t → T.step s t)
    {s t : σ} (hs : T.Reachable s) (as : List α) (h : stepAll step s as = some t) :
    T.Reachable t :=
  -- reachability is an invariant that every action keeps
  stepAll_invariant (fun _ => True) T.Reachable (fun s a t _ hs ha => hs.step (hstep s a t ha))
    hs as (fun _ _ => trivial) h

end StepFunction

end Transition
