import EchidnaOS.Lib.Run

namespace EchidnaOS.Lib.Progress

open EchidnaOS.Lib.Run

variable {σ α : Type*} {step : σ → α → Option σ} {counts : σ → α → Bool}

-- How many steps of a run count.
def counted (step : σ → α → Option σ) (counts : σ → α → Bool) : σ → List α → Nat
  | _, [] => 0
  | state, action :: rest =>
      (counts state action).toNat +
        (step state action).elim 0 fun next => counted step counts next rest

theorem counted_cons {state next : σ} {action : α} (hstep : step state action = some next)
    (rest : List α) : counted step counts state (action :: rest) =
      (counts state action).toNat + counted step counts next rest := by
  rw [counted, hstep, Option.elim_some]

-- A rank that each step keeps, and that each step that counts lowers, is used up before the
-- goal is reached.
theorem reaches {property inv goal : σ → Prop} {rank : σ → Nat}
    (hstep : ∀ state action next, inv state → property next → step state action = some next →
      goal next ∨ inv next ∧ rank next + (counts state action).toNat ≤ rank state)
    {state final : σ} {actions : List α} (hinit : inv state)
    (hall : Throughout step property state actions) (hrun : run step state actions = some final)
    (hlong : rank state < counted step counts state actions) :
    ∃ front back middle, actions = front ++ back ∧ run step state front = some middle ∧
      goal middle ∧ counted step counts state front ≤ rank state + 1 := by
  induction actions generalizing state with
  | nil => exact absurd hlong (Nat.not_lt_zero _)
  | cons action rest ih =>
      obtain ⟨next, hnext, htail⟩ := run_cons hrun
      have hrest := hall.2 next hnext
      rw [counted_cons hnext] at hlong
      rcases hstep state action next hinit hrest.head hnext with hgoal | ⟨hinv, hrank⟩
      · refine ⟨[action], rest, next, rfl, ?_, hgoal, ?_⟩
        · rw [run, hnext, Option.bind_some, run]
        · rw [counted_cons hnext, counted]
          have hone := Bool.toNat_le (counts state action)
          omega
      · obtain ⟨front, back, middle, rfl, hfront, hgoal, hcount⟩ := ih hinv hrest htail (by omega)
        refine ⟨action :: front, back, middle, rfl, ?_, hgoal, ?_⟩
        · rw [run, hnext, Option.bind_some, hfront]
        · rw [counted_cons hnext]
          omega

end EchidnaOS.Lib.Progress
