import Mathlib.Data.List.Basic
import Mathlib.Data.List.Forall2
import Mathlib.Logic.Function.Basic

namespace EchidnaOS.Lib.SlotTable

variable {α : Type*}

-- Put an entry into the first free slot of a table, or after its last slot.
def create (free : α → Bool) (table : List α) (entry : α) : Nat × List α :=
  match table.findIdx? free with
  | some slot => (slot, table.set slot entry)
  | none => (table.length, table ++ [entry])

-- The slot was free or new, it now holds the entry, and no other slot changed.
theorem create_spec (free : α → Bool) (table : List α) (entry : α) :
    (∀ old, table[(create free table entry).1]? = some old → free old = true) ∧
    (create free table entry).2[(create free table entry).1]? = some entry ∧
    ∀ slot, slot ≠ (create free table entry).1 →
      (create free table entry).2[slot]? = table[slot]? := by
  unfold create
  split
  · rename_i found hfound
    obtain ⟨hlt, hfree, -⟩ := List.findIdx?_eq_some_iff_getElem.mp hfound
    refine ⟨?_, List.getElem?_set_self hlt, fun slot hne => List.getElem?_set_ne (Ne.symm hne)⟩
    intro old hold
    rw [List.getElem?_eq_getElem hlt] at hold
    cases hold
    exact hfree
  · refine ⟨?_, by simp, ?_⟩
    · intro old hold
      simp at hold
    · intro slot hne
      simp only [List.getElem?_append, List.getElem?_singleton]
      by_cases hlt : slot < table.length
      · rw [if_pos hlt]
      · rw [if_neg hlt, if_neg (by omega), List.getElem?_eq_none (by omega)]

theorem create_length_le (free : α → Bool) (table : List α) (entry : α) :
    (create free table entry).2.length ≤ table.length + 1 := by
  unfold create
  split <;> simp

-- An entry by a signed index; there is none when the index is out of range.
def entryAt (table : List α) (index : Int) : Option α :=
  if index < 0 then none else table[index.toNat]?

def setAt (table : List α) (index : Int) (entry : α) : List α :=
  if index < 0 then table else table.set index.toNat entry

variable {table : List α} {index other : Int} {entry old : α}

@[simp] theorem entryAt_natCast (table : List α) (slot : Nat) : entryAt table slot = table[slot]? := by
  unfold entryAt
  rw [if_neg (by omega), Int.toNat_natCast]

theorem setAt_natCast (table : List α) (slot : Nat) (entry : α) :
    setAt table slot entry = table.set slot entry := by
  unfold setAt
  rw [if_neg (by omega), Int.toNat_natCast]

theorem entryAt_range (hentry : entryAt table index = some old) :
    0 ≤ index ∧ index.toNat < table.length ∧ table[index.toNat]? = some old := by
  unfold entryAt at hentry
  by_cases hneg : index < 0
  · rw [if_pos hneg] at hentry
    cases hentry
  · rw [if_neg hneg] at hentry
    obtain ⟨hlt, -⟩ := List.getElem?_eq_some_iff.mp hentry
    exact ⟨by omega, hlt, hentry⟩

theorem entryAt_setAt_self (hentry : entryAt table index = some old) (entry : α) :
    entryAt (setAt table index entry) index = some entry := by
  obtain ⟨hpos, hlt, -⟩ := entryAt_range hentry
  unfold entryAt setAt
  rw [if_neg (by omega), if_neg (by omega), List.getElem?_set_self hlt]

theorem entryAt_setAt_ne (hne : other ≠ index) (entry : α) :
    entryAt (setAt table index entry) other = entryAt table other := by
  unfold entryAt setAt
  by_cases hneg : other < 0
  · rw [if_pos hneg, if_pos hneg]
  · rw [if_neg hneg, if_neg hneg]
    by_cases hindex : index < 0
    · rw [if_pos hindex]
    · rw [if_neg hindex, List.getElem?_set_ne (by omega)]

-- The new entry stands where there was none or a free one.
theorem entryAt_create (free : α → Bool) (table : List α) (entry : α) :
    (∀ old, entryAt table (create free table entry).1 = some old → free old = true) ∧
    entryAt (create free table entry).2 (create free table entry).1 = some entry ∧
    ∀ other : Int, other ≠ (create free table entry).1 →
      entryAt (create free table entry).2 other = entryAt table other := by
  obtain ⟨hfree, hself, hothers⟩ := create_spec free table entry
  simp only [entryAt_natCast]
  refine ⟨hfree, hself, fun other hne => ?_⟩
  unfold entryAt
  by_cases hneg : other < 0
  · rw [if_pos hneg, if_pos hneg]
  · rw [if_neg hneg, if_neg hneg]
    exact hothers other.toNat (by omega)

-- Two tables that are related slot by slot.
theorem entryAt_forall₂ {β : Type*} {r : α → β → Prop} {second : List β} {value : β}
    (hall : List.Forall₂ r table second) (hvalue : entryAt second index = some value) :
    ∃ entry, entryAt table index = some entry ∧ r entry value := by
  obtain ⟨hpos, hlt, hat⟩ := entryAt_range hvalue
  obtain ⟨hlength, hget⟩ := List.forall₂_iff_get.mp hall
  have hlt' : index.toNat < table.length := by omega
  refine ⟨table[index.toNat], ?_, ?_⟩
  · rw [entryAt, if_neg (by omega), List.getElem?_eq_getElem hlt']
  · rw [List.getElem?_eq_getElem hlt] at hat
    rw [← Option.some.inj hat]
    exact hget index.toNat hlt' hlt

-- The entry in a slot that is not free.
def inUse (free : α → Bool) (table : List α) (index : Int) : Option α :=
  (entryAt table index).filter fun entry => !free entry

variable {free : α → Bool}

theorem inUse_eq_some : inUse free table index = some entry ↔
    entryAt table index = some entry ∧ free entry = false := by
  simp [inUse, Option.filter_eq_some_iff]

theorem inUse_mem (huse : inUse free table index = some entry) : entry ∈ table ∧ free entry = false := by
  obtain ⟨hat, hlive⟩ := inUse_eq_some.mp huse
  exact ⟨List.mem_of_getElem? (entryAt_range hat).2.2, hlive⟩

theorem mem_inUse (free : α → Bool) (hentry : entry ∈ table) (hlive : free entry = false) :
    ∃ index : Int, inUse free table index = some entry := by
  obtain ⟨slot, hslot⟩ := List.mem_iff_getElem?.mp hentry
  exact ⟨slot, inUse_eq_some.mpr ⟨by rw [entryAt_natCast, hslot], hlive⟩⟩

theorem inUse_pairwise {r : α → α → Prop} (hpairwise : table.Pairwise r)
    (huse : inUse free table index = some entry) (hother : inUse free table other = some old)
    (hne : index ≠ other) : r entry old ∨ r old entry := by
  obtain ⟨hpos, hlt, hat⟩ := entryAt_range (inUse_eq_some.mp huse).1
  obtain ⟨hpos', hlt', hat'⟩ := entryAt_range (inUse_eq_some.mp hother).1
  rw [List.getElem?_eq_getElem hlt] at hat
  rw [List.getElem?_eq_getElem hlt'] at hat'
  cases hat
  cases hat'
  rcases Nat.lt_or_gt_of_ne (show index.toNat ≠ other.toNat by omega) with hless | hless
  · exact Or.inl (List.pairwise_iff_getElem.mp hpairwise _ _ hlt hlt' hless)
  · exact Or.inr (List.pairwise_iff_getElem.mp hpairwise _ _ hlt' hlt hless)

theorem inUse_setAt (hentry : entryAt table index = some old) (new : α) :
    inUse free (setAt table index new) =
      Function.update (inUse free table) index (if free new then none else some new) := by
  funext other
  by_cases heq : other = index
  · rw [heq, Function.update_self, inUse, entryAt_setAt_self hentry]
    cases hfree : free new <;> simp [hfree]
  · rw [Function.update_of_ne heq, inUse, inUse, entryAt_setAt_ne heq]

theorem inUse_create (free : α → Bool) (table : List α) (entry : α) :
    inUse free table (create free table entry).1 = none ∧
    inUse free (create free table entry).2 = Function.update (inUse free table)
      (create free table entry).1 (if free entry then none else some entry) := by
  obtain ⟨hfree, hself, hothers⟩ := entryAt_create free table entry
  constructor
  · cases hentry : entryAt table (create free table entry).1 with
    | none => simp [inUse, hentry]
    | some old => simp [inUse, hentry, hfree old hentry]
  · funext other
    by_cases heq : other = (create free table entry).1
    · rw [heq, Function.update_self, inUse, hself]
      cases hused : free entry <;> simp [hused]
    · rw [Function.update_of_ne heq, inUse, inUse, hothers other heq]

-- Another entry in a slot shows no difference to what only reads the same parts of both.
theorem inUse_setAt_map {β : Type*} (f : α → β) (hentry : entryAt table index = some old) {new : α}
    (hfree : free new = free old) (hsame : f new = f old) (other : Int) :
    (inUse free (setAt table index new) other).map f = (inUse free table other).map f := by
  rw [inUse_setAt hentry]
  by_cases heq : other = index
  · rw [heq, Function.update_self, inUse, hentry, hfree]
    cases hold : free old <;> simp [Option.filter_some, hold, hsame]
  · rw [Function.update_of_ne heq]

end EchidnaOS.Lib.SlotTable
