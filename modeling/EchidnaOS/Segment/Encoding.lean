import EchidnaOS.Segment.Ldt

namespace EchidnaOS.Segment

open EchidnaOS.Lib EchidnaOS.Klib

-- The limit that the processor takes from a descriptor.
def DtEntry.limit (entry : DtEntry) : Nat := entry.limitLow + entry.granularity % 2 ^ 4 * 2 ^ 16

-- What `set_segment` is asked for.
def SegmentEncoded (entry : DtEntry) (base pageCount : Nat) : Prop :=
  (setSegment entry base pageCount).base = base ∧
    (setSegment entry base pageCount).limit = pageCount - 1 ∧
    (setSegment entry base pageCount).granularity / 2 ^ 4 = entry.granularity / 2 ^ 4

-- What a caller of `syscall_new_segment` asks for, about the descriptor that it gets.
def RequestEncoded (task : Task) (descriptor : DtEntry) (base pageCount : Nat) : Prop :=
  descriptor.base = (base + task.base) % 2 ^ 32 ∧ descriptor.limit = pageCount - 1

-- The array of a task as the call finds it, once krealloc has made room.
def roomFor (s : State) (task : Task) : Nat × Heap :=
  krealloc s.kernel.heap task.ldt (ldtSize task.ldtEntries)

def oldTable (s : State) (task : Task) : Nat → DtEntry :=
  moveArray s.array task.ldt (roomFor s task).1
    (min (if task.ldt = 0 then 0 else (s.kernel.heap.metadata task.ldt).size)
      (ldtSize task.ldtEntries) / SIZEOF_DT_ENTRY) (roomFor s task).1

-- The request is accepted and the heap has room.
structure Succeeds (s : State) (current base pageCount address : Nat) (task : Task) : Prop where
  slot : s.kernel.taskTable current = .task address task
  fits : requestFits task base pageCount = true
  room : (roomFor s task).1 ≠ 0

variable {s : State} {current address : Nat} {task : Task} {base pageCount : UInt32}

-- What a successful call does: the array gets one more entry, at its new place.
theorem syscallNewSegment_eq (h : Succeeds s current base.toNat pageCount.toNat address task)
    (code : Bool) :
    (syscallNewSegment s current base pageCount code).2 =
      { kernel := Kernel.setTask { s.kernel with heap := (roomFor s task).2 } current address
          { task with ldt := (roomFor s task).1, ldtEntries := task.ldtEntries + 1 }
        array := Function.update
          (moveArray s.array task.ldt (roomFor s task).1
            (min (if task.ldt = 0 then 0 else (s.kernel.heap.metadata task.ldt).size)
              (ldtSize task.ldtEntries) / SIZEOF_DT_ENTRY))
          (roomFor s task).1
          (addEntry (oldTable s task) task.ldtEntries ((base.toNat + task.base) % 2 ^ 32)
            pageCount.toNat code) } := by
  have hroom := h.room
  simp only [roomFor] at hroom
  simp only [syscallNewSegment, h.slot, h.fits, if_true, hroom, if_false, roomFor, oldTable]

theorem segment_encoded_iff (entry : DtEntry) {base pageCount : Nat} (hbase : base < 2 ^ 32)
    (hpos : 1 ≤ pageCount) (hmax : pageCount ≤ 2 ^ 20) :
    SegmentEncoded entry base pageCount ↔ pageCount % 2 ^ 16 ≠ 0 := by
  rw [SegmentEncoded, setSegment_base entry hbase pageCount]
  simp only [true_and, DtEntry.limit, setSegment]
  omega

-- The descriptor of a successful call.
def descriptorOf (s : State) (current : Nat) (base pageCount : UInt32) (code : Bool) (task : Task) :
    DtEntry :=
  (syscallNewSegment s current base pageCount code).2.array (roomFor s task).1 task.ldtEntries

theorem descriptorOf_eq (h : Succeeds s current base.toNat pageCount.toNat address task)
    (code : Bool) :
    descriptorOf s current base pageCount code task =
      addEntry (oldTable s task) task.ldtEntries ((base.toNat + task.base) % 2 ^ 32)
        pageCount.toNat code task.ldtEntries := by
  rw [descriptorOf, syscallNewSegment_eq h]
  simp only [Function.update_self]

theorem addEntry_far (table : Nat → DtEntry) {entryCount : Nat} (hcount : 2 ^ 16 ≤ entryCount)
    (base pageCount : Nat) (code : Bool) :
    addEntry table entryCount base pageCount code entryCount =
      setAttributes (table entryCount) code := by
  have hne : entryCount ≠ entryCount % 2 ^ 16 := by
    have := Nat.mod_lt entryCount (show 0 < 2 ^ 16 by omega)
    omega
  simp only [addEntry, Function.update_self, Function.update_of_ne hne]

theorem setAttributes_base (entry : DtEntry) (code : Bool) :
    (setAttributes entry code).base = entry.base := rfl

-- The attributes replace the upper part of the limit.
theorem setAttributes_limit (entry : DtEntry) (code : Bool) :
    (setAttributes entry code).limit = entry.limitLow := by
  simp [setAttributes, DtEntry.limit]

theorem request_encoded_iff (h : Succeeds s current base.toNat pageCount.toNat address task)
    (code : Bool) (hpos : 1 ≤ pageCount.toNat) (hmax : pageCount.toNat ≤ 2 ^ 20) :
    RequestEncoded task (descriptorOf s current base pageCount code task) base.toNat
        pageCount.toNat ↔
      task.ldtEntries < 2 ^ 16 ∧ pageCount.toNat ≤ 2 ^ 16 ∨
        2 ^ 16 ≤ task.ldtEntries ∧
          (oldTable s task task.ldtEntries).base = (base.toNat + task.base) % 2 ^ 32 ∧
          (oldTable s task task.ldtEntries).limitLow = pageCount.toNat - 1 := by
  rw [descriptorOf_eq h]
  by_cases hcount : task.ldtEntries < 2 ^ 16
  · rw [addEntry_same _ hcount, RequestEncoded, setAttributes_base, setAttributes_limit,
      setSegment_base _ (Nat.mod_lt _ (by omega))]
    simp only [setSegment, true_and]
    omega
  · have hfar : 2 ^ 16 ≤ task.ldtEntries := Nat.le_of_not_lt hcount
    rw [addEntry_far _ hfar, RequestEncoded, setAttributes_base, setAttributes_limit]
    exact ⟨fun h => .inr ⟨hfar, h⟩, fun h => h.elim (fun h => absurd h.1 hcount) (·.2)⟩

-- When the descriptors encode what was asked: `set_segment` takes the upper part of the limit from
-- the page count itself, and the system call drops it; beyond the range of a 16-bit index it leaves
-- the entry as it was.
theorem descriptors_encode_iff (entry : DtEntry) (base pageCount : UInt32)
    (hpos : 1 ≤ pageCount.toNat) (hmax : pageCount.toNat ≤ 2 ^ 20) :
    (SegmentEncoded entry base.toNat pageCount.toNat ↔ pageCount.toNat % 2 ^ 16 ≠ 0) ∧
    ∀ (s : State) (current address : Nat) (task : Task) (code : Bool),
      Succeeds s current base.toNat pageCount.toNat address task →
      (RequestEncoded task (descriptorOf s current base pageCount code task) base.toNat
          pageCount.toNat ↔
        task.ldtEntries < 2 ^ 16 ∧ pageCount.toNat ≤ 2 ^ 16 ∨
          2 ^ 16 ≤ task.ldtEntries ∧
            (oldTable s task task.ldtEntries).base = (base.toNat + task.base) % 2 ^ 32 ∧
            (oldTable s task task.ldtEntries).limitLow = pageCount.toNat - 1) :=
  ⟨segment_encoded_iff entry base.toNat_lt hpos hmax,
    fun _ _ _ _ code h => request_encoded_iff h code hpos hmax⟩

-- One task without descriptors.
def oneTask : State where
  kernel :=
    { heap := emptyHeap
      taskTable := Function.update (fun _ => .null) 1 (.task PAGE_SIZE { pages := 33 })
      others := fun _ => 0 }
  array := fun _ _ => {}

theorem oneTask_succeeds : Succeeds oneTask 1 0 1 PAGE_SIZE { pages := 33 } :=
  ⟨rfl, by decide, by decide⟩

-- A task of 64 pages at 4 MiB.
def highTask : Task := { base := 0x400000, pages := 64 }

def oneHighTask : State where
  kernel :=
    { heap := emptyHeap
      taskTable := Function.update (fun _ => .null) 1 (.task PAGE_SIZE highTask)
      others := fun _ => 0 }
  array := fun _ _ => {}

theorem oneHighTask_succeeds : Succeeds oneHighTask 1 0x3000 16 PAGE_SIZE highTask :=
  ⟨rfl, by decide, by decide⟩

-- A segment of 65537 pages at 4 MiB, and a request for 16 pages from the fourth.
theorem small_segment_encoded :
    SegmentEncoded { granularity := 0xc0 } 0x400000 0x10001 ∧
      RequestEncoded highTask (descriptorOf oneHighTask 1 0x3000 16 true highTask) 0x3000 16 := by
  have hlarge := descriptors_encode_iff { granularity := 0xc0 } 0x400000 0x10001 (by decide) (by decide)
  have hrequest := descriptors_encode_iff {} 0x3000 16 (by decide) (by decide)
  refine ⟨hlarge.1.mpr (by decide), ?_⟩
  exact (hrequest.2 oneHighTask 1 PAGE_SIZE highTask true oneHighTask_succeeds).mpr
    (.inl ⟨by decide, by decide⟩)

-- A segment of 65536 pages gets twice its limit.
theorem large_segment_not_encoded : ¬ SegmentEncoded {} 0 0x10000 := by
  intro h
  exact absurd h.2.1 (by decide)

end EchidnaOS.Segment
