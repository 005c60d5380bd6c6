import Mathlib.Tactic.Common

/-!
# Runs of a step function

A system is a state and a step function that takes an action to the next state. `Reaches` relates a
start state to the states of the runs whose every step is allowed where it is taken, and
`Reaches.invariant` is the induction over a run: what holds at the start and is kept by every allowed
step holds in every state reached. `Permitted` is the same for a given list of actions.
-/

set_option autoImplicit false

namespace GameLauncher.Foundation

open List

variable {σ ι : Type}

/-- The states of the runs from `start` in which every step is allowed. -/
inductive Reaches (step : σ → ι → σ) (allowed : σ → ι → Prop) (start : σ) : σ → Prop
  | refl : Reaches step allowed start start
  | step {state : σ} {action : ι} (before : Reaches step allowed start state)
      (permitted : allowed state action) : Reaches step allowed start (step state action)

variable {allowed : σ → ι → Prop} {state : σ} {step : σ → ι → σ}

/-- The induction over a run. -/
theorem Reaches.invariant {start : σ} (invariant : σ → Prop) (hstart : invariant start)
    (hstep : ∀ state action, invariant state → allowed state action →
      invariant (step state action)) (h : Reaches step allowed start state) : invariant state := by
  induction h with
  | refl => exact hstart
  | step before permitted ih => exact hstep _ _ ih permitted

/-- Every step of a list of actions is allowed where it is taken. -/
def Permitted (step : σ → ι → σ) (allowed : σ → ι → Prop) : σ → List ι → Prop
  | _, [] => True
  | state, action :: rest => allowed state action ∧ Permitted step allowed (step state action) rest

instance Permitted.decidable (step : σ → ι → σ) (allowed : σ → ι → Prop)
    [∀ state action, Decidable (allowed state action)] :
    ∀ (state : σ) (actions : List ι), Decidable (Permitted step allowed state actions)
  | _, [] => isTrue trivial
  | state, action :: rest =>
    have := Permitted.decidable step allowed (step state action) rest
    inferInstanceAs (Decidable (allowed state action ∧
      Permitted step allowed (step state action) rest))

theorem permitted_of_forall (hallowed : ∀ state action, allowed state action) (state : σ)
    (actions : List ι) : Permitted step allowed state actions := by
  induction actions generalizing state with
  | nil => trivial
  | cons action rest ih => exact ⟨hallowed state action, ih (step state action)⟩

theorem permitted_append {first second : List ι} :
    Permitted step allowed state (first ++ second) ↔ Permitted step allowed state first ∧
        Permitted step allowed (first.foldl step state) second := by
  induction first generalizing state with
  | nil => exact (and_iff_right trivial).symm
  | cons action rest ih => rw [cons_append, Permitted, ih, ← and_assoc]; rfl

theorem permitted_of_mem {allowed : ι → Prop} {actions : List ι}
    (hallowed : ∀ action ∈ actions, allowed action) (state : σ) :
    Permitted step (fun _ action ↦ allowed action) state actions := by
  induction actions generalizing state with
  | nil => trivial
  | cons action rest ih =>
    exact ⟨hallowed action mem_cons_self,
      ih (fun other hother ↦ hallowed other (mem_cons_of_mem _ hother)) (step state action)⟩

theorem Reaches.foldl {start : σ} {actions : List ι} (h : Reaches step allowed start state)
    (hpermitted : Permitted step allowed state actions) :
    Reaches step allowed start (actions.foldl step state) := by
  induction actions generalizing state with
  | nil => exact h
  | cons action rest ih => exact ih (h.step hpermitted.1) hpermitted.2

theorem foldl_iff (holds : σ → Prop) (adds : ι → Prop) {items : List ι}
    (hstep : ∀ state, ∀ item ∈ items, holds (step state item) ↔ holds state ∨ adds item) (state : σ)
    : holds (items.foldl step state) ↔ holds state ∨ ∃ item ∈ items, adds item := by
  induction items generalizing state with
  | nil => simp
  | cons item rest ih =>
    rw [foldl_cons, ih fun other next hnext ↦ hstep other next (mem_cons_of_mem _ hnext),
      hstep state item mem_cons_self, or_assoc]
    simp only [mem_cons, exists_eq_or_imp]

end GameLauncher.Foundation
