import EchidnaOS.Lib.Machine
import EchidnaOS.Lib.Run
import Mathlib.Logic.Function.Basic

namespace EchidnaOS.Lib.Cells

open EchidnaOS.Lib.Machine EchidnaOS.Lib.Run

variable {σ τ κ ν α ω : Type*}

-- The replies of a server whose requests may fail to return, and the state they leave.
def replies (step : σ → α → Option (ω × σ)) : σ → List α → Option (List ω × σ)
  | state, [] => some ([], state)
  | state, action :: rest =>
      (step state action).bind fun first =>
        (replies step first.2 rest).map fun later => (first.1 :: later.1, later.2)

-- The state after one request.
def advance (step : σ → α → Option (ω × σ)) (state : σ) (action : α) : Option σ :=
  (step state action).map Prod.snd

-- A server that answers every guarded request as a machine does answers every guarded run so.
theorem replies_refine {step : σ → α → Option (ω × σ)} {spec : τ → α → ω × τ} {guard : σ → α → Prop}
    {rel : σ → τ → Prop}
    (hstep : ∀ state abstract action, rel state abstract → guard state action →
      ∃ next, step state action = some ((spec abstract action).1, next) ∧
        rel next (spec abstract action).2)
    {state : σ} {abstract : τ} {actions : List α} (hinit : rel state abstract)
    (hguard : Guarded (advance step) guard state actions) :
    ∃ final, replies step state actions = some ((trace spec abstract actions).1, final) ∧
      rel final (trace spec abstract actions).2 := by
  induction actions generalizing state abstract with
  | nil => exact ⟨state, rfl, hinit⟩
  | cons action rest ih =>
      obtain ⟨next, hnext, hrel⟩ := hstep state abstract action hinit hguard.1
      have hrest := hguard.2 next (by rw [advance, hnext, Option.map_some])
      obtain ⟨final, hfinal, hlast⟩ := ih hrel hrest
      refine ⟨final, ?_, hlast⟩
      rw [replies, hnext, Option.bind_some, hfinal, Option.map_some]
      rfl

variable [DecidableEq κ] (name : α → κ) (cell : ν → α → ω × ν)

-- A request works on the cell of its name.
def onCell (cells : κ → ν) (action : α) : ω × (κ → ν) :=
  ((cell (cells (name action)) action).1,
    Function.update cells (name action) (cell (cells (name action)) action).2)

-- The replies to the requests on one name.
def repliesOn (key : κ) : List α → List ω → List ω
  | action :: actions, output :: outputs =>
      if name action = key then output :: repliesOn key actions outputs
      else repliesOn key actions outputs
  | _, _ => []

-- However the requests on other names are interleaved, those on one name are answered as if
-- they were made alone.
theorem onCell_alone (key : κ) (cells : κ → ν) (actions : List α) :
    repliesOn name key actions (trace (onCell name cell) cells actions).1 =
        (trace cell (cells key) (actions.filter fun action => name action = key)).1 ∧
      (trace (onCell name cell) cells actions).2 key =
        (trace cell (cells key) (actions.filter fun action => name action = key)).2 := by
  induction actions generalizing cells with
  | nil => exact ⟨rfl, rfl⟩
  | cons action rest ih =>
      obtain ⟨hreplies, hcell⟩ := ih (onCell name cell cells action).2
      by_cases hkey : name action = key
      · subst hkey
        have hself : (onCell name cell cells action).2 (name action) =
            (cell (cells (name action)) action).2 := Function.update_self _ _ _
        rw [hself] at hreplies hcell
        rw [List.filter_cons_of_pos (by simp), trace, trace, repliesOn, if_pos rfl, hreplies]
        exact ⟨rfl, hcell⟩
      · have hother : (onCell name cell cells action).2 key = cells key :=
          Function.update_of_ne (Ne.symm hkey) _ _
        rw [hother] at hreplies hcell
        rw [List.filter_cons_of_neg (by simpa using hkey), trace, repliesOn, if_neg hkey]
        exact ⟨hreplies, hcell⟩

end EchidnaOS.Lib.Cells
