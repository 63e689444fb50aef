import Mathlib.Data.List.Basic
import Mathlib.Logic.Function.Basic

namespace EchidnaOS.Lib.Roots

variable {ρ α : Type*} [Zero α] {root root' : ρ → α} {held held' live live' : List α} {ptr new : α}
  {name : ρ}

-- Every live object is one that a root points to, or a local variable that is not lost.
def Accounted (held : List α) (root : ρ → α) (live : List α) : Prop :=
  ∀ ptr ∈ live, ptr ≠ 0 ∧ (ptr ∈ held ∨ ∃ name, root name = ptr)

-- Objects may go, and pointers to the ones that are left may move.
theorem Accounted.mono (haccounted : Accounted held root live) (hlive : ∀ ptr ∈ live', ptr ∈ live)
    (hheld : ∀ ptr ∈ held, ptr ∈ held' ∨ ∃ name, root' name = ptr)
    (hroot : ∀ name, root name ≠ 0 → root name ∈ live' → ∃ name', root' name' = root name) :
    Accounted held' root' live' := by
  intro ptr hptr
  obtain ⟨hne, hlocal | ⟨name, rfl⟩⟩ := haccounted ptr (hlive ptr hptr)
  · exact ⟨hne, hheld ptr hlocal⟩
  · exact ⟨hne, Or.inr (hroot name hne hptr)⟩

theorem Accounted.held_mono (haccounted : Accounted held root live)
    (hheld : ∀ ptr ∈ held, ptr ∈ held') : Accounted held' root live :=
  haccounted.mono (fun _ h => h) (fun ptr h => Or.inl (hheld ptr h)) fun name _ _ => ⟨name, rfl⟩

-- A new object is held until a root gets it.
theorem Accounted.alloc (haccounted : Accounted held root live) (hne : new ≠ 0) :
    Accounted (new :: held) root (new :: live) := by
  intro ptr hptr
  rcases List.mem_cons.mp hptr with rfl | hold
  · exact ⟨hne, Or.inl List.mem_cons_self⟩
  · obtain ⟨hne, hheld | hroot⟩ := haccounted ptr hold
    · exact ⟨hne, Or.inl (List.mem_cons_of_mem _ hheld)⟩
    · exact ⟨hne, Or.inr hroot⟩

theorem Accounted.free [DecidableEq α] (haccounted : Accounted (new :: held) root live) :
    Accounted held root (live.filter (· ≠ new)) := by
  intro ptr hptr
  obtain ⟨hlive, hother⟩ := List.mem_filter.mp hptr
  obtain ⟨hne, hheld | hroot⟩ := haccounted ptr hlive
  · rcases List.mem_cons.mp hheld with rfl | hheld
    · simp at hother
    · exact ⟨hne, Or.inl hheld⟩
  · exact ⟨hne, Or.inr hroot⟩

variable [DecidableEq ρ]

-- A root that points to nothing gets an object.
theorem Accounted.store (haccounted : Accounted (new :: held) root live) (hnull : root name = 0) :
    Accounted held (Function.update root name new) live := by
  intro ptr hptr
  obtain ⟨hne, hheld | ⟨other, hother⟩⟩ := haccounted ptr hptr
  · rcases List.mem_cons.mp hheld with rfl | hheld
    · exact ⟨hne, Or.inr ⟨name, Function.update_self _ _ _⟩⟩
    · exact ⟨hne, Or.inl hheld⟩
  · refine ⟨hne, Or.inr ⟨other, ?_⟩⟩
    have hname : other ≠ name := by
      intro heq
      exact hne (by rw [← hother, heq, hnull])
    rw [Function.update_of_ne hname]
    exact hother

-- An object moves, and its root with it.
theorem Accounted.move [DecidableEq α] (haccounted : Accounted held root live) (name : ρ)
    (hnew : new ≠ 0) :
    Accounted held (Function.update root name new) (new :: live.filter (· ≠ root name)) := by
  intro ptr hptr
  rcases List.mem_cons.mp hptr with rfl | hold
  · exact ⟨hnew, Or.inr ⟨name, Function.update_self _ _ _⟩⟩
  · obtain ⟨hlive, hother⟩ := List.mem_filter.mp hold
    obtain ⟨hne, hheld | ⟨other, hroot⟩⟩ := haccounted ptr hlive
    · exact ⟨hne, Or.inl hheld⟩
    · refine ⟨hne, Or.inr ⟨other, ?_⟩⟩
      have hname : other ≠ name := by
        rintro rfl
        simp [hroot] at hother
      rw [Function.update_of_ne hname]
      exact hroot

end EchidnaOS.Lib.Roots
