import EchidnaOS.Lib.Run

namespace EchidnaOS.Lib.Simulation

open EchidnaOS.Lib.Run

variable {σ τ α : Type*} {step : σ → α → Option σ} {guard : σ → α → Prop} {spec : τ → α → τ → Prop}

-- The runs of a specification that leaves some choices open.
inductive Follows (spec : τ → α → τ → Prop) : τ → List α → τ → Prop where
  | nil (state : τ) : Follows spec state [] state
  | cons {state next final : τ} {action : α} {rest : List α} (first : spec state action next)
      (later : Follows spec next rest final) : Follows spec state (action :: rest) final

theorem Follows.append {state middle final : τ} {front back : List α}
    (hfront : Follows spec state front middle) (hback : Follows spec middle back final) :
    Follows spec state (front ++ back) final := by
  induction hfront with
  | nil => exact hback
  | cons hfirst _ ih => exact .cons hfirst (ih hback)

-- Where each guarded step is matched by one of the specification, so is each guarded run.
theorem simulation {rel : σ → τ → Prop}
    (hstep : ∀ state action next abstract, rel state abstract → guard state action →
      step state action = some next → ∃ after, spec abstract action after ∧ rel next after)
    {state final : σ} {abstract : τ} {actions : List α} (hinit : rel state abstract)
    (hguard : Guarded step guard state actions) (hrun : run step state actions = some final) :
    ∃ after, Follows spec abstract actions after ∧ rel final after := by
  induction actions generalizing state abstract with
  | nil =>
      cases hrun
      exact ⟨abstract, .nil abstract, hinit⟩
  | cons action rest ih =>
      obtain ⟨next, hnext, htail⟩ := run_cons hrun
      obtain ⟨middle, hfirst, hrel⟩ := hstep state action next abstract hinit hguard.1 hnext
      obtain ⟨after, hlater, hfinal⟩ := ih hrel (hguard.2 next hnext) htail
      exact ⟨after, .cons hfirst hlater, hfinal⟩

end EchidnaOS.Lib.Simulation
