import Mathlib.Data.List.Basic
import Mathlib.Tactic.Common

namespace EchidnaOS.Lib

-- A record of bounded length. What does not fit any more is dropped, and so is all that follows.
structure BoundedLog (α : Type*) (bound : Nat) where
  entries : List α
  fits : entries.length ≤ bound

namespace BoundedLog

variable {α : Type*} {bound : Nat} {log : BoundedLog α bound}

@[ext] theorem ext {log log' : BoundedLog α bound} (h : log.entries = log'.entries) :
    log = log' := by
  cases log
  cases log'
  simpa using h

def empty : BoundedLog α bound := ⟨[], by simp⟩

def append (log : BoundedLog α bound) (s : List α) : BoundedLog α bound :=
  ⟨(log.entries ++ s).take bound, List.length_take_le _ _⟩

@[simp] theorem append_entries (s : List α) :
    (log.append s).entries = (log.entries ++ s).take bound := rfl

@[simp] theorem append_nil : log.append [] = log := by
  ext1
  simp [List.take_of_length_le log.fits]

-- Cutting a string before more is added to it does not show once the whole is cut.
theorem take_take_append (n : Nat) (a b : List α) :
    (a.take n ++ b).take n = (a ++ b).take n := by
  by_cases hlong : n ≤ a.length
  · have hfull : (a.take n).length = n := by
      rw [List.length_take, Nat.min_eq_left hlong]
    rw [List.take_append_of_le_length (by omega), List.take_append_of_le_length hlong,
      List.take_take, Nat.min_self]
  · rw [List.take_of_length_le (by omega : a.length ≤ n)]

@[simp] theorem append_append (s t : List α) : (log.append s).append t = log.append (s ++ t) := by
  ext1
  simp only [append_entries, take_take_append, List.append_assoc]

theorem append_cons (c : α) (s : List α) : log.append (c :: s) = (log.append [c]).append s := by
  simp

@[simp] theorem empty_append (s : List α) :
    ((empty : BoundedLog α bound).append s).entries = s.take bound := by
  simp [empty]

-- A full record keeps its entries.
theorem append_of_full (hfull : log.entries.length = bound) (s : List α) : log.append s = log := by
  ext1
  simp [hfull]

theorem append_singleton (hroom : log.entries.length < bound) (c : α) :
    (log.append [c]).entries = log.entries ++ [c] := by
  rw [append_entries, List.take_of_length_le (by simp; omega)]

-- With room for all of it, the string stands behind the entries.
theorem append_of_room {s : List α} (hroom : log.entries.length + s.length ≤ bound) :
    (log.append s).entries = log.entries ++ s := by
  rw [append_entries, List.take_of_length_le (by simpa using hroom)]

end BoundedLog

end EchidnaOS.Lib
