import EchidnaOS.Segment.Encoding

namespace EchidnaOS.Segment

open EchidnaOS.Klib

def GDT_USER_CODE : Nat := 5
def GDT_USER_DATA : Nat := 6
def GDT_LDT : Nat := 10

-- What load_gdt writes; `tss` and `tssSize` are the words that tss.asm keeps under these names.
def loadGdt (tss tssSize : Nat) : Nat → DtEntry
  | 1 => { limitLow := 0xffff, access := 0b10011010, granularity := 0b11001111 }
  | 2 => { limitLow := 0xffff, access := 0b10010010, granularity := 0b11001111 }
  | 3 => { limitLow := 0xffff, access := 0b10111010, granularity := 0b11001111 }
  | 4 => { limitLow := 0xffff, access := 0b10110010, granularity := 0b11001111 }
  | 5 => { access := 0b11111010, granularity := 0b11000000 }
  | 6 => { access := 0b11110010, granularity := 0b11000000 }
  | 7 => { limitLow := 0xffff, access := 0b10011010, granularity := 0b10001111 }
  | 8 => { limitLow := 0xffff, access := 0b10010010, granularity := 0b10001111 }
  | 9 =>
      { limitLow := tssSize % 2 ^ 16
        baseLow := tss % 2 ^ 16
        baseMid := tss / 2 ^ 16 % 2 ^ 8
        access := 0b10101001
        baseHigh := tss / 2 ^ 24 % 2 ^ 8 }
  | 10 => { access := 0b10100010 }
  | _ => {}

-- The limit of load_ldt, in 32-bit arithmetic.
def ldtLimit (entries : Nat) : Nat :=
  if entries = 0 then 0 else (entries * SIZEOF_DT_ENTRY + (2 ^ 32 - 1)) % 2 ^ 32

def setLdt (entry : DtEntry) (base entries : Nat) : DtEntry :=
  { entry with
    baseLow := base % 2 ^ 16
    baseMid := base / 2 ^ 16 % 2 ^ 8
    baseHigh := base / 2 ^ 24 % 2 ^ 8
    limitLow := ldtLimit entries % 2 ^ 16
    granularity := entry.granularity / 2 ^ 4 * 2 ^ 4 + ldtLimit entries / 2 ^ 16 % 2 ^ 4 }

def loadLdt (gdt : Nat → DtEntry) (base entries : Nat) : Nat → DtEntry :=
  Function.update gdt GDT_LDT (setLdt (gdt GDT_LDT) base entries)

-- The calls of set_segment and load_ldt before a task is run, and at the end of resize_heap.
def reload (gdt : Nat → DtEntry) (layout : Layout) : Nat → DtEntry :=
  let gdt := Function.update gdt GDT_USER_CODE
    (setSegment (gdt GDT_USER_CODE) layout.base layout.pages)
  let gdt := Function.update gdt GDT_USER_DATA
    (setSegment (gdt GDT_USER_DATA) layout.base layout.pages)
  loadLdt gdt layout.ldt layout.ldtEntries

-- A present code or data segment of privilege level 3.
def DtEntry.forUsers (entry : DtEntry) : Bool :=
  entry.access / 2 ^ 7 % 2 = 1 && entry.access / 2 ^ 5 % 2 ^ 2 = 3 && entry.access / 2 ^ 4 % 2 = 1

-- The limit counts pages when the granularity bit is set.
def DtEntry.lastOffset (entry : DtEntry) : Nat :=
  if entry.granularity / 2 ^ 7 % 2 = 1 then entry.limit * PAGE_SIZE + (PAGE_SIZE - 1)
  else entry.limit

-- The linear addresses behind the offsets that pass the limit check.
def DtEntry.Reaches (entry : DtEntry) (linear : Nat) : Prop :=
  ∃ offset, offset ≤ entry.lastOffset ∧ (entry.base + offset) % 2 ^ 32 = linear

variable {gdt : Nat → DtEntry} {layout : Layout} {base pages entries selector linear : Nat}

-- A segment that is set twice is set as the second time says.
@[simp] theorem setSegment_again (entry : DtEntry) (base pages base' pages' : Nat) :
    setSegment (setSegment entry base pages) base' pages' = setSegment entry base' pages' := by
  have hupper : (entry.granularity / 2 ^ 4 * 2 ^ 4 + pages / 2 ^ 16 % 2 ^ 4) / 2 ^ 4 * 2 ^ 4 =
      entry.granularity / 2 ^ 4 * 2 ^ 4 := by
    omega
  unfold setSegment
  rw [hupper]

@[simp] theorem setLdt_again (entry : DtEntry) (base entries base' entries' : Nat) :
    setLdt (setLdt entry base entries) base' entries' = setLdt entry base' entries' := by
  have hupper : (entry.granularity / 2 ^ 4 * 2 ^ 4 + ldtLimit entries / 2 ^ 16 % 2 ^ 4) / 2 ^ 4 *
      2 ^ 4 = entry.granularity / 2 ^ 4 * 2 ^ 4 := by
    omega
  unfold setLdt
  rw [hupper]

theorem reload_code (gdt : Nat → DtEntry) (layout : Layout) : reload gdt layout GDT_USER_CODE =
    setSegment (gdt GDT_USER_CODE) layout.base layout.pages := by
  simp [reload, loadLdt, GDT_USER_CODE, GDT_USER_DATA, GDT_LDT]

theorem reload_data (gdt : Nat → DtEntry) (layout : Layout) : reload gdt layout GDT_USER_DATA =
    setSegment (gdt GDT_USER_DATA) layout.base layout.pages := by
  simp [reload, loadLdt, GDT_USER_CODE, GDT_USER_DATA, GDT_LDT]

theorem reload_ldt (gdt : Nat → DtEntry) (layout : Layout) : reload gdt layout GDT_LDT =
    setLdt (gdt GDT_LDT) layout.ldt layout.ldtEntries := by
  simp [reload, loadLdt, GDT_USER_CODE, GDT_USER_DATA, GDT_LDT]

theorem reload_other (gdt : Nat → DtEntry) (layout : Layout) (hcode : selector ≠ GDT_USER_CODE)
    (hdata : selector ≠ GDT_USER_DATA) (hldt : selector ≠ GDT_LDT) :
    reload gdt layout selector = gdt selector := by
  simp [reload, loadLdt, hcode, hdata, hldt]

-- Nothing of an earlier task is left in the table.
theorem reload_again (gdt : Nat → DtEntry) (layout layout' : Layout) :
    reload (reload gdt layout) layout' = reload gdt layout' := by
  funext selector
  by_cases hcode : selector = GDT_USER_CODE
  · subst hcode
    simp [reload_code]
  by_cases hdata : selector = GDT_USER_DATA
  · subst hdata
    simp [reload_data]
  by_cases hldt : selector = GDT_LDT
  · subst hldt
    simp [reload_ldt]
  · simp [reload_other _ _ hcode hdata hldt]

-- What load_gdt writes is what it would be for one page at address 0.
theorem loadGdt_reload (tss tssSize : Nat) :
    loadGdt tss tssSize = reload (loadGdt tss tssSize) ⟨0, 1, 0, 0⟩ := by
  funext selector
  by_cases hcode : selector = GDT_USER_CODE
  · subst hcode
    rw [reload_code]
    simp [loadGdt, setSegment, GDT_USER_CODE]
  by_cases hdata : selector = GDT_USER_DATA
  · subst hdata
    rw [reload_data]
    simp [loadGdt, setSegment, GDT_USER_DATA]
  by_cases hldt : selector = GDT_LDT
  · subst hldt
    rw [reload_ldt]
    simp [loadGdt, setLdt, ldtLimit, GDT_LDT]
  · rw [reload_other _ _ hcode hdata hldt]

theorem loadLdt_reload (gdt : Nat → DtEntry) (layout : Layout) (base entries : Nat) :
    loadLdt (reload gdt layout) base entries =
      reload gdt ⟨layout.base, layout.pages, base, entries⟩ := by
  simp only [reload, loadLdt, Function.update_self, setLdt_again, Function.update_idem]

-- Of what load_gdt writes, only the two user segments are for users.
theorem loadGdt_forUsers {tss tssSize : Nat} (husers : (loadGdt tss tssSize selector).forUsers) :
    selector = GDT_USER_CODE ∨ selector = GDT_USER_DATA := by
  unfold loadGdt at husers
  split at husers
  case h_5 => exact Or.inl rfl
  case h_6 => exact Or.inr rfl
  all_goals simp [DtEntry.forUsers] at husers

theorem DtEntry.forUsers_congr {entry entry' : DtEntry} (haccess : entry'.access = entry.access) :
    entry'.forUsers = entry.forUsers := by
  rw [DtEntry.forUsers, haccess, DtEntry.forUsers]

theorem setSegment_forUsers (entry : DtEntry) (base pages : Nat) :
    (setSegment entry base pages).forUsers = entry.forUsers := by
  apply DtEntry.forUsers_congr
  unfold setSegment
  generalize (pages + (2 ^ 32 - 1)) % 2 ^ 32 % 2 ^ 16 = limit
  rfl

theorem setLdt_forUsers (entry : DtEntry) (base entries : Nat) :
    (setLdt entry base entries).forUsers = entry.forUsers := by
  apply DtEntry.forUsers_congr
  unfold setLdt
  generalize ldtLimit entries = limit
  rfl

theorem reload_forUsers (gdt : Nat → DtEntry) (layout : Layout) (selector : Nat) :
    (reload gdt layout selector).forUsers = (gdt selector).forUsers := by
  by_cases hcode : selector = GDT_USER_CODE
  · rw [hcode, reload_code, setSegment_forUsers]
  by_cases hdata : selector = GDT_USER_DATA
  · rw [hdata, reload_data, setSegment_forUsers]
  by_cases hldt : selector = GDT_LDT
  · rw [hldt, reload_ldt, setLdt_forUsers]
  · rw [reload_other _ _ hcode hdata hldt]

-- The granularity bit is among the four that set_segment keeps.
theorem setSegment_lastOffset (entry : DtEntry) (hpages : entry.granularity / 2 ^ 7 % 2 = 1)
    (base : Nat) (hcount : pages ≤ 2 ^ 20) (hodd : pages % 2 ^ 16 ≠ 0) :
    (setSegment entry base pages).lastOffset + 1 = pages * PAGE_SIZE := by
  have hbit : (setSegment entry base pages).granularity / 2 ^ 7 % 2 = 1 := by
    simp only [setSegment]
    omega
  have hlimit : (setSegment entry base pages).limit = pages - 1 := by
    simp only [DtEntry.limit, setSegment]
    omega
  rw [DtEntry.lastOffset, if_pos hbit, hlimit]
  simp only [PAGE_SIZE]
  omega

-- A segment reaches the bytes of its pages.
theorem setSegment_reaches_iff (entry : DtEntry) (hpages : entry.granularity / 2 ^ 7 % 2 = 1)
    (hodd : pages % 2 ^ 16 ≠ 0) (hend : base + pages * PAGE_SIZE ≤ 2 ^ 32) :
    (setSegment entry base pages).Reaches linear ↔
      base ≤ linear ∧ linear < base + pages * PAGE_SIZE := by
  have hcount : pages ≤ 2 ^ 20 := by
    simp only [PAGE_SIZE] at hend
    omega
  have hlast := setSegment_lastOffset entry hpages base hcount hodd
  have hpos : 0 < pages := by omega
  have hbase : base < 2 ^ 32 := by
    simp only [PAGE_SIZE] at hend
    omega
  rw [DtEntry.Reaches, setSegment_base entry hbase]
  constructor
  · rintro ⟨offset, hoffset, rfl⟩
    have hlinear : base + offset < 2 ^ 32 := by omega
    rw [Nat.mod_eq_of_lt hlinear]
    omega
  · rintro ⟨hlow, hhigh⟩
    refine ⟨linear - base, by omega, ?_⟩
    rw [Nat.add_sub_cancel' hlow]
    exact Nat.mod_eq_of_lt (by omega)

end EchidnaOS.Segment
