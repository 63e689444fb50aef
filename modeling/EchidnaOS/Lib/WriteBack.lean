import Mathlib.Logic.Function.Basic
import Mathlib.Tactic.SplitIfs

namespace EchidnaOS.Lib.WriteBack

-- A buffer that holds one block of a memory, between the memory and its users.
inductive Status where
  | notReady
  | ready
  | dirty
  deriving DecidableEq, Repr

-- A status as drivers code it: 0 for no block, 2 for a changed one.
def Status.ofCode (code : Nat) : Status :=
  if code = 0 then .notReady else if code = 2 then .dirty else .ready

@[simp] theorem ofCode_eq_notReady {code : Nat} : Status.ofCode code = .notReady ↔ code = 0 := by
  unfold Status.ofCode
  split_ifs <;> simp_all

@[simp] theorem ofCode_eq_dirty {code : Nat} : Status.ofCode code = .dirty ↔ code = 2 := by
  unfold Status.ofCode
  split_ifs <;> simp_all

-- `data` matters on the block `key` alone.
structure Cache (κ α β : Type*) where
  status : Status
  key : κ
  data : α → β

namespace Cache

variable {κ α β : Type*} [DecidableEq κ] {keyOf : α → κ} {c next : Cache κ α β} {mem : α → β}

def Holds (keyOf : α → κ) (c : Cache κ α β) (a : α) : Prop :=
  c.status ≠ .notReady ∧ keyOf a = c.key

instance decidableHolds (a : α) : Decidable (c.Holds keyOf a) :=
  inferInstanceAs (Decidable (_ ∧ _))

-- The memory as its users see it.
def view (keyOf : α → κ) (c : Cache κ α β) (mem : α → β) : α → β := fun a =>
  if c.Holds keyOf a then c.data a else mem a

-- The memory after a dirty block went back to it.
def flushed (keyOf : α → κ) (c : Cache κ α β) (mem : α → β) : α → β := fun a =>
  if c.status = .dirty ∧ keyOf a = c.key then c.data a else mem a

-- A clean block is a copy.
def Coherent (keyOf : α → κ) (c : Cache κ α β) (mem : α → β) : Prop :=
  c.status = .ready → ∀ a, keyOf a = c.key → c.data a = mem a

omit [DecidableEq κ] in
theorem coherent_of_dirty (hstatus : c.status = .dirty) : c.Coherent keyOf mem := by
  intro hready
  simp [hstatus] at hready

omit [DecidableEq κ] in
theorem coherent_of_notReady (hstatus : c.status = .notReady) : c.Coherent keyOf mem := by
  intro hready
  simp [hstatus] at hready

theorem view_hit {a : α} (hholds : c.Holds keyOf a) : c.view keyOf mem a = c.data a := by
  simp [view, hholds]

theorem view_miss {a : α} (hmiss : ¬ c.Holds keyOf a) : c.view keyOf mem a = mem a := by
  simp [view, hmiss]

theorem flushed_dirty {a : α} (hstatus : c.status = .dirty) (hkey : keyOf a = c.key) :
    c.flushed keyOf mem a = c.data a := by
  simp [flushed, hstatus, hkey]

theorem flushed_other {a : α} (hkey : keyOf a ≠ c.key) : c.flushed keyOf mem a = mem a := by
  simp [flushed, hkey]

theorem view_of_notReady (hstatus : c.status = .notReady) : c.view keyOf mem = mem := by
  funext a
  simp [view, Holds, hstatus]

theorem flushed_of_clean (hstatus : c.status ≠ .dirty) : c.flushed keyOf mem = mem := by
  funext a
  simp [flushed, hstatus]

-- Writing a dirty block back changes nothing for the users.
theorem flushed_eq_view (hcoherent : c.Coherent keyOf mem) :
    c.flushed keyOf mem = c.view keyOf mem := by
  funext a
  by_cases hkey : keyOf a = c.key
  · cases hstatus : c.status with
    | notReady => simp [flushed, view, Holds, hstatus]
    | dirty => simp [flushed, view, Holds, hstatus]
    | ready => simp [flushed, view, Holds, hstatus, hkey, hcoherent hstatus a hkey]
  · simp [flushed, view, Holds, hkey]

-- Nor does fetching a block.
theorem view_of_fetched (hdata : ∀ a, keyOf a = c.key → c.data a = mem a) :
    c.view keyOf mem = mem := by
  funext a
  unfold view
  split
  · next hholds => exact hdata a hholds.2
  · rfl

-- A miss: the old block goes back if it is dirty, and the new one is fetched.
theorem view_of_miss {after : α → β} (hcoherent : c.Coherent keyOf mem)
    (hafter : after = c.flushed keyOf mem)
    (hdata : ∀ a, keyOf a = next.key → next.data a = after a) :
    next.view keyOf after = c.view keyOf mem := by
  rw [view_of_fetched hdata, hafter, flushed_eq_view hcoherent]

-- A write to the block that is held.
theorem view_of_put [DecidableEq α] {a : α} {value : β} (hholds : c.Holds keyOf a)
    (hstatus : next.status = .dirty) (hkey : next.key = c.key)
    (hdata : ∀ b, keyOf b = c.key → next.data b = if b = a then value else c.data b) :
    next.view keyOf mem = Function.update (c.view keyOf mem) a value := by
  funext b
  by_cases hb : keyOf b = c.key
  · have hnext : next.Holds keyOf b := ⟨by simp [hstatus], by rw [hb, hkey]⟩
    have hheld : c.Holds keyOf b := ⟨hholds.1, hb⟩
    rw [view_hit hnext, hdata b hb, Function.update_apply, view_hit hheld]
  · have hne : b ≠ a := by
      intro heq
      exact hb (heq ▸ hholds.2)
    simp [view, Holds, hkey, hb, Function.update_of_ne hne]

end Cache

end EchidnaOS.Lib.WriteBack
