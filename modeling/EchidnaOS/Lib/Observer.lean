import EchidnaOS.Lib.Run
import Mathlib.Tactic.TypeStar

namespace EchidnaOS.Lib.Observer

open EchidnaOS.Lib.Run

variable {σ α τ ι ρ : Type*}

-- What an observer puts into a run and gets out of it. An action that is not the observer's
-- has no input, and an input need not have a result.
structure View (σ α ι ρ : Type*) where
  input : σ → α → Option ι
  output : σ → α → Option ρ

variable (view : View σ α ι ρ) (step : σ → α → Option σ)

def View.inputs : σ → List α → List ι
  | _, [] => []
  | state, action :: rest =>
      (view.input state action).toList ++
        (step state action).elim [] fun next => View.inputs next rest

def View.outputs : σ → List α → List ρ
  | _, [] => []
  | state, action :: rest =>
      (view.output state action).toList ++
        (step state action).elim [] fun next => View.outputs next rest

-- A machine of the observer's own that answers its inputs.
def answers (own : τ → ι → Option ρ × τ) : τ → List ι → List ρ
  | _, [] => []
  | state, input :: rest => (own state input).1.toList ++ answers own (own state input).2 rest

variable {view step} {own : τ → ι → Option ρ × τ} {guard : σ → α → Prop} {shows : σ → τ → Prop}

-- What a step may do to an observer: its own machine takes the input and gives the same
-- result, or there is neither and it sees no change.
def Tracks (view : View σ α ι ρ) (own : τ → ι → Option ρ × τ) (shows : σ → τ → Prop) (state : σ)
    (alone : τ) (action : α) (next : σ) : Prop :=
  match view.input state action with
  | some input =>
      view.output state action = (own alone input).1 ∧ shows next (own alone input).2
  | none => view.output state action = none ∧ shows next alone

-- A machine that tracks every guarded step gives the results of a guarded run from its
-- inputs alone.
theorem answers_eq_outputs
    (hstep : ∀ state alone action next, shows state alone → guard state action →
      step state action = some next → Tracks view own shows state alone action next)
    {state final : σ} {alone : τ} {actions : List α} (hinit : shows state alone)
    (hguard : Guarded step guard state actions) (hrun : run step state actions = some final) :
    answers own alone (view.inputs step state actions) = view.outputs step state actions := by
  induction actions generalizing state alone with
  | nil => rfl
  | cons action rest ih =>
      obtain ⟨next, hnext, htail⟩ := run_cons hrun
      have htracks := hstep state alone action next hinit hguard.1 hnext
      have hrest := hguard.2 next hnext
      unfold Tracks at htracks
      simp only [View.inputs, View.outputs, hnext, Option.elim_some]
      cases hinput : view.input state action with
      | none =>
          rw [hinput] at htracks
          rw [htracks.1]
          exact ih htracks.2 hrest htail
      | some input =>
          rw [hinput] at htracks
          simp only [Option.toList_some, List.singleton_append, answers]
          rw [htracks.1, ih htracks.2 hrest htail]

-- Two guarded runs that get the same inputs give the same results.
theorem outputs_eq
    (hstep : ∀ state alone action next, shows state alone → guard state action →
      step state action = some next → Tracks view own shows state alone action next)
    {state other final otherFinal : σ} {alone : τ} {actions otherActions : List α}
    (hinit : shows state alone) (hother : shows other alone)
    (hguard : Guarded step guard state actions)
    (hotherGuard : Guarded step guard other otherActions)
    (hrun : run step state actions = some final)
    (hotherRun : run step other otherActions = some otherFinal)
    (hsame : view.inputs step state actions = view.inputs step other otherActions) :
    view.outputs step state actions = view.outputs step other otherActions := by
  rw [← answers_eq_outputs hstep hinit hguard hrun, hsame,
    answers_eq_outputs hstep hother hotherGuard hotherRun]

end EchidnaOS.Lib.Observer
