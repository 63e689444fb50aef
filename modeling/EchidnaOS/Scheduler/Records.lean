import EchidnaOS.Scheduler.Memory
import EchidnaOS.Vdev.Ipcwait

namespace EchidnaOS.Scheduler

open EchidnaOS.Lib.ByteStore EchidnaOS.Lib.Run EchidnaOS.Klib EchidnaOS.Ipc EchidnaOS.Vdev

variable {k : Kernel} {ldts : Nat → Prop} {pid current address callerAddress : Nat}
  {task caller : Task} {payload : UInt32}

-- Where a read that is inside copies to.
theorem readRange (hok : MemoryOk ldts k) (hinside : ReadsInside k current payload)
    (hcurrent : current ≠ 0) (hcaller : k.taskTable current = .task callerAddress caller)
    (hqueue : caller.ipcQueuePtr ≠ 0)
    (haccepts : withinLimit caller payload.toNat (caller.ipcQueue 0).length = true) :
    caller.base ≤ userAddress caller payload.toNat ∧
      userAddress caller payload.toNat + (caller.ipcQueue 0).length ≤
        caller.base + caller.pages * PAGE_SIZE := by
  obtain ⟨owner, howned⟩ := hok.owned
  have hlt := howned.block_lt hcurrent hcaller
  have hrange := hinside callerAddress caller hcaller hqueue haccepts
  rw [Nat.mod_eq_of_lt (by omega)] at hrange
  rw [userAddress, Nat.mod_eq_of_lt (by omega)]
  omega

-- The record of a task is not where another task's block is, nor its own.
theorem record_apart (hok : MemoryOk ldts k) (hcurrent : current ≠ 0)
    (hcaller : k.taskTable current = .task callerAddress caller)
    (hslot : k.taskTable pid = .task address task) {linear : Nat} (hlow : caller.base ≤ linear)
    (hhigh : linear < caller.base + caller.pages * PAGE_SIZE) (hrecord : address ≤ linear) :
    address + PAGE_SIZE ≤ linear := by
  obtain ⟨owner, howned⟩ := hok.owned
  have htag := (howned.tasks pid address task hslot).entry
  have hheap : HeapOk k.heap fun ptr => owner ptr ≠ none := howned.tagged
  have hlive : owner address ≠ none := by
    rw [htag]
    exact Option.some_ne_none _
  have haligned := hheap.aligned address hlive
  have hpages := hheap.pages_eq address hlive
  rw [(howned.tasks pid address task hslot).record] at hpages
  have hapart := howned.apart hcurrent hcaller hlow hhigh (.entry hslot) (hheap.ne_zero hlive)
  simp only [pageStart, Heap.pageEnd, divRoundup, SIZEOF_TASK, PAGE_SIZE] at *
  omega

-- A read that is inside leaves the statuses in memory.
theorem statusBehind_inside (hok : MemoryOk ldts k) (hinside : ReadsInside k current payload)
    (hcurrent : current ≠ 0) (hcaller : k.taskTable current = .task callerAddress caller)
    (hqueue : caller.ipcQueuePtr ≠ 0)
    (haccepts : withinLimit caller payload.toNat (caller.ipcQueue 0).length = true)
    (hslot : k.taskTable pid = .task address task) :
    statusBehind k current payload pid = some (statusCode task.status) := by
  obtain ⟨hlow, hhigh⟩ := readRange hok hinside hcurrent hcaller hqueue haccepts
  have hcopied : read (copyPacket (layStatus k.heap.mem address task.status) caller payload) address 4 =
      read (layStatus k.heap.mem address task.status) address 4 := by
    apply read_congr
    intro linear hfrom hto
    apply write_outside
    by_contra hnot
    rw [List.length_take] at hnot
    have hcopies : caller.base ≤ linear ∧ linear < caller.base + caller.pages * PAGE_SIZE := by
      omega
    have hbehind := record_apart hok hcurrent hcaller hslot hcopies.1 hcopies.2 hfrom
    simp only [PAGE_SIZE] at hbehind
    omega
  have hcode : statusCode task.status < 256 ^ 4 := by
    cases task.status <;> decide
  unfold statusBehind
  rw [hcaller, hslot]
  dsimp only
  rw [hcopied, layStatus, read_write_same _ _ _ _ (leBytes_length _ _).symm, leValue_leBytes,
    Nat.mod_eq_of_lt hcode]

-- In a run from boot that writes over no record, a read that gets its packet leaves every status
-- as it is, in memory too.
theorem reads_keep_statuses {heap : Heap} {others : Nat → Nat} {calls : List Vdev.Call}
    {final after : Machine} (hheap : HeapOk heap fun ptr => ptr ≠ 0 ∧ ∃ name, others name = ptr)
    (hdistinct : ∀ first second, others first = others second → others first ≠ 0 →
      first = second)
    (hboot : taskInit heap others = some k)
    (hrun : GuardedRun Vdev.step WritesInside { kernel := k } calls final)
    (hinside : WritesInside final (.read current payload))
    (hstep : Vdev.step final (.read current payload) = some after)
    (hcaller : final.kernel.taskTable current = .task callerAddress caller)
    (hqueue : caller.ipcQueuePtr ≠ 0)
    (haccepts : withinLimit caller payload.toNat (caller.ipcQueue 0).length = true)
    (hslot : final.kernel.taskTable pid = .task address task) :
    statusBehind final.kernel current payload pid = some (statusCode task.status) := by
  have hkeep : ∀ m call next, (∃ ldts, Owning ldts m) → WritesInside m call →
      Vdev.step m call = some next → ∃ ldts, Owning ldts next := by
    rintro m call next ⟨ldts, hok⟩ hinside hstep
    exact hok.call hinside hstep
  obtain ⟨ldts, hok⟩ := run_invariant hkeep ⟨_, bootOwning hheap hdistinct hboot⟩ hrun.guarded hrun.run
  exact statusBehind_inside hok.memory hinside.2 (hok.memory.ne_zero (step_active hstep rfl)) hcaller
    hqueue haccepts hslot

end EchidnaOS.Scheduler
