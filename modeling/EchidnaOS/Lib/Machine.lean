import Mathlib.Tactic.TypeStar

namespace EchidnaOS.Lib.Machine

variable {σ τ α ω : Type*}

-- The outputs of a machine, one for each action, and the state they leave.
def trace (step : σ → α → ω × σ) : σ → List α → List ω × σ
  | state, [] => ([], state)
  | state, action :: rest =>
      ((step state action).1 :: (trace step (step state action).2 rest).1,
        (trace step (step state action).2 rest).2)

variable {step : σ → α → ω × σ} {other : τ → α → ω × τ}

-- Two machines whose related states answer alike and stay related have the same runs.
theorem trace_simulates (rel : σ → τ → Prop) {actions : List α}
    (hstep : ∀ state abstract, ∀ action ∈ actions, rel state abstract →
      (step state action).1 = (other abstract action).1 ∧
        rel (step state action).2 (other abstract action).2)
    {state : σ} {abstract : τ} (hinit : rel state abstract) :
    (trace step state actions).1 = (trace other abstract actions).1 ∧
      rel (trace step state actions).2 (trace other abstract actions).2 := by
  induction actions generalizing state abstract with
  | nil => exact ⟨rfl, hinit⟩
  | cons action rest ih =>
      obtain ⟨hout, hnext⟩ := hstep state abstract action List.mem_cons_self hinit
      obtain ⟨houts, hfinal⟩ :=
        ih (fun s t a ha => hstep s t a (List.mem_cons_of_mem action ha)) hnext
      constructor
      · simp only [trace, hout, houts]
      · exact hfinal

end EchidnaOS.Lib.Machine
