import Mathlib.Data.List.Basic
import Mathlib.Tactic.TypeStar

namespace EchidnaOS.Lib.Scan

variable {σ ρ ι : Type*}

-- A visit either takes the scan to its result or passes a state on.
inductive Verdict (σ ρ : Type*) where
  | take (result : ρ)
  | pass (state : σ)

def scan (visit : ι → σ → Verdict σ ρ) : List ι → σ → Verdict σ ρ
  | [], state => .pass state
  | i :: rest, state =>
      match visit i state with
      | .take result => .take result
      | .pass next => scan visit rest next

variable {visit : ι → σ → Verdict σ ρ} {state : σ} {order : List ι}

-- A visit that passes keeps `inv`, and what the rest of the scan does from there on carries over.
theorem scan_rule (inv : σ → Prop) (spec : List ι → σ → Verdict σ ρ → Prop)
    (hnil : ∀ state, inv state → spec [] state (.pass state))
    (htake : ∀ i rest state result, inv state → visit i state = .take result →
      spec (i :: rest) state (.take result))
    (hpass : ∀ i rest state next, inv state → visit i state = .pass next →
      inv next ∧ ∀ verdict, spec rest next verdict → spec (i :: rest) state verdict)
    (hinv : inv state) : spec order state (scan visit order state) := by
  induction order generalizing state with
  | nil => exact hnil state hinv
  | cons i rest ih =>
      rw [scan]
      cases hvisit : visit i state with
      | take result => exact htake i rest state result hinv hvisit
      | pass next =>
          obtain ⟨hnext, hcarry⟩ := hpass i rest state next hinv hvisit
          exact hcarry _ (ih hnext)

end EchidnaOS.Lib.Scan
