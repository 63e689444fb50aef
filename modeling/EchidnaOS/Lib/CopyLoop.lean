import Mathlib.Data.List.Basic
import Mathlib.Data.List.Nodup

namespace EchidnaOS.Lib.CopyLoop

variable {ι κ α β : Type*} [DecidableEq α] {dst src : ι → α} {order front back rest : List ι} {i j : ι}

-- Move one element after the other, in the given order, each as the memory is by then.
def copyLoop (dst src : ι → α) : List ι → (α → β) → α → β
  | [], mem => mem
  | i :: rest, mem => copyLoop dst src rest (Function.update mem (dst i) (mem (src i)))

-- No element is moved from a place that an earlier one was moved to.
def Fresh (dst src : ι → α) (order : List ι) : Prop := order.Pairwise fun i j => src j ≠ dst i

theorem copyLoop_append (front back : List ι) (mem : α → β) :
    copyLoop dst src (front ++ back) mem = copyLoop dst src back (copyLoop dst src front mem) := by
  induction front generalizing mem with
  | nil => rfl
  | cons i rest ih => exact ih _

theorem copyLoop_map (f : κ → ι) (order : List κ) (mem : α → β) :
    copyLoop dst src (order.map f) mem = copyLoop (fun k => dst (f k)) (fun k => src (f k)) order mem := by
  induction order generalizing mem with
  | nil => rfl
  | cons k rest ih => exact ih _

theorem copyLoop_outside {address : α} (hout : ∀ i ∈ order, dst i ≠ address) (mem : α → β) :
    copyLoop dst src order mem address = mem address := by
  induction order generalizing mem with
  | nil => rfl
  | cons i rest ih =>
      have hrest : ∀ j ∈ rest, dst j ≠ address := fun j hj => hout j (List.mem_cons_of_mem i hj)
      rw [copyLoop, ih hrest, Function.update_of_ne (hout i List.mem_cons_self).symm]

-- What arrives at `dst j` was at `src j` when its turn came.
theorem copyLoop_at (hfront : ∀ i ∈ front, dst i ≠ src j) (hback : ∀ i ∈ back, dst i ≠ dst j)
    (mem : α → β) : copyLoop dst src (front ++ j :: back) mem (dst j) = mem (src j) := by
  rw [copyLoop_append, copyLoop, copyLoop_outside hback, Function.update_self, copyLoop_outside hfront]

theorem copyLoop_inside (hnodup : (order.map dst).Nodup) (hfresh : Fresh dst src order)
    (hmem : j ∈ order) (mem : α → β) : copyLoop dst src order mem (dst j) = mem (src j) := by
  obtain ⟨front, back, rfl⟩ := List.append_of_mem hmem
  rw [List.map_append, List.map_cons, List.nodup_append, List.nodup_cons] at hnodup
  rw [Fresh, List.pairwise_append] at hfresh
  apply copyLoop_at
  · intro i hi
    exact (hfresh.2.2 i hi j List.mem_cons_self).symm
  · intro i hi he
    exact hnodup.2.1.1 (he ▸ List.mem_map_of_mem hi)

-- Where an element is moved from the place the first one was moved to, it gets the first one.
theorem copyLoop_overwritten (hnodup : ((i :: rest).map dst).Nodup) (hmem : j ∈ rest)
    (hsrc : src j = dst i) (mem : α → β) : copyLoop dst src (i :: rest) mem (dst j) = mem (src i) := by
  obtain ⟨front, back, rfl⟩ := List.append_of_mem hmem
  simp only [List.map_cons, List.map_append, List.nodup_cons, List.nodup_append, List.mem_append,
    List.mem_cons, not_or] at hnodup
  obtain ⟨⟨hfirst, -, -⟩, -, ⟨hlast, -⟩, -⟩ := hnodup
  rw [copyLoop, copyLoop_at]
  · rw [hsrc, Function.update_self]
  · intro other hother he
    rw [hsrc] at he
    exact hfirst (he ▸ List.mem_map_of_mem hother)
  · intro other hother he
    exact hlast (he ▸ List.mem_map_of_mem hother)

-- A loop that is not fresh at its first element goes wrong for a memory that tells the two
-- places apart.
theorem exists_wrong {first second : β} (hne : first ≠ second)
    (hnodup : ((i :: rest).map dst).Nodup) (hmem : j ∈ rest) (hsrc : src j = dst i)
    (hplaces : src i ≠ src j) : ∃ mem : α → β, copyLoop dst src (i :: rest) mem (dst j) ≠ mem (src j) := by
  refine ⟨Function.update (fun _ => second) (src i) first, ?_⟩
  rw [copyLoop_overwritten hnodup hmem hsrc, Function.update_self, Function.update_of_ne hplaces.symm]
  exact hne

end EchidnaOS.Lib.CopyLoop
