import EchidnaOS.Task.Step

namespace EchidnaOS.Segment

open EchidnaOS.Lib EchidnaOS.Klib

def SIZEOF_DT_ENTRY : Nat := 8

-- `struct dt_entry`
structure DtEntry where
  limitLow : Nat := 0
  baseLow : Nat := 0
  baseMid : Nat := 0
  access : Nat := 0
  granularity : Nat := 0
  baseHigh : Nat := 0
  deriving DecidableEq, Repr

-- The address the processor takes from a descriptor.
def DtEntry.base (entry : DtEntry) : Nat :=
  entry.baseLow + entry.baseMid * 2 ^ 16 + entry.baseHigh * 2 ^ 24

def setSegment (entry : DtEntry) (base pageCount : Nat) : DtEntry :=
  { entry with
    baseLow := base % 2 ^ 16
    baseMid := base / 2 ^ 16 % 2 ^ 8
    baseHigh := base / 2 ^ 24 % 2 ^ 8
    limitLow := (pageCount + (2 ^ 32 - 1)) % 2 ^ 32 % 2 ^ 16
    granularity := entry.granularity / 2 ^ 4 * 2 ^ 4 + pageCount / 2 ^ 16 % 2 ^ 4 }

-- The kernel with the arrays of descriptors, by address and index.
structure State where
  kernel : Kernel
  array : Nat → Nat → DtEntry

-- The check of the request, in 32-bit arithmetic.
def requestFits (task : Task) (base pageCount : Nat) : Bool :=
  (base + pageCount * PAGE_SIZE) % 2 ^ 32 < task.pages * PAGE_SIZE % 2 ^ 32

-- krealloc copies the entries that both sizes hold to a zeroed block, unless it leaves the
-- array where it is.
def moveArray (array : Nat → Nat → DtEntry) (old new count : Nat) : Nat → Nat → DtEntry :=
  if new = old then array
  else Function.update array new fun index => if index < count then array old index else {}

-- `entry_count+1 * sizeof(struct dt_entry)` is the entry count plus eight bytes.
def ldtSize (entryCount : Nat) : Nat := (entryCount + 1 * SIZEOF_DT_ENTRY) % 2 ^ 32

def setAttributes (entry : DtEntry) (code : Bool) : DtEntry :=
  { entry with
    access := if code then 0b11111010 else 0b11110010
    granularity := 0b11000000 }

-- The index of `set_segment` is of 16 bits; the attributes are set at the entry count itself.
def addEntry (table : Nat → DtEntry) (entryCount base pageCount : Nat) (code : Bool) :
    Nat → DtEntry :=
  let slot := entryCount % 2 ^ 16
  let table := Function.update table slot (setSegment (table slot) base pageCount)
  Function.update table entryCount (setAttributes (table entryCount) code)

-- A refused request returns `(uint16_t)-1`.
def syscallNewSegment (s : State) (current : Nat) (base pageCount : UInt32) (code : Bool) :
    Nat × State :=
  match s.kernel.taskTable current with
  | .task address task =>
      if requestFits task base.toNat pageCount.toNat then
        let entryCount := task.ldtEntries
        let oldSize := if task.ldt = 0 then 0 else (s.kernel.heap.metadata task.ldt).size
        let ldt := krealloc s.kernel.heap task.ldt (ldtSize entryCount)
        let k := { s.kernel with heap := ldt.2 }
        if ldt.1 = 0 then (2 ^ 16 - 1, { s with kernel := k })
        else
          let array := moveArray s.array task.ldt ldt.1
            (min oldSize (ldtSize entryCount) / SIZEOF_DT_ENTRY)
          let table := addEntry (array ldt.1) entryCount ((base.toNat + task.base) % 2 ^ 32)
            pageCount.toNat code
          ((entryCount * SIZEOF_DT_ENTRY % 2 ^ 16) ||| 4 ||| 3,
            { kernel := k.setTask current address
                { task with ldt := ldt.1, ldtEntries := entryCount + 1 }
              array := Function.update array ldt.1 table })
      else (2 ^ 16 - 1, s)
  | _ => (2 ^ 16 - 1, s)

inductive Call where
  | other (action : Action)
  | newSegment (current : Nat) (base pageCount : UInt32) (code : Bool)

-- The other calls leave the arrays alone; the memcpy of task_fork copies one onto itself.
def step (s : State) : Call → Option State
  | .other action => (EchidnaOS.step s.kernel action).map fun k => { s with kernel := k }
  | .newSegment current base pageCount code =>
      if s.kernel.isActive current then some (syscallNewSegment s current base pageCount code).2
      else none

end EchidnaOS.Segment
