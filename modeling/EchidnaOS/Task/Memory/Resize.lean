import EchidnaOS.Klib.Heap.Objects
import EchidnaOS.Klib.Pmm.Search
import EchidnaOS.Task.Memory.Run

namespace EchidnaOS

open EchidnaOS.Lib EchidnaOS.Lib.Run EchidnaOS.Klib

-- What resize_heap returns: krealloc decides.
def resizeHeapCode (k : Kernel) (current : Nat) (heapSize : UInt32) : Int :=
  match k.taskTable current with
  | .task _ task =>
      if (krealloc k.heap task.base
        ((task.heapBase + heapPages heapSize * PAGE_SIZE) % 2 ^ 32)).1 = 0 then -1 else 0
  | _ => -1

-- A task with a block of its own that covers its pages.
structure TaskBlock (heap : Heap) (live : Nat → Prop) (task : Task) : Prop where
  heap_ok : HeapOk heap live
  live : live task.base
  sized : ImageSized heap task
  heapBase_lt : task.heapBase < 2 ^ 32

-- The block of the task after a resize against what the task records, with no wrapping.
structure Granted (k next : Kernel) (task task' : Task) (heapSize : UInt32) : Prop where
  block : task'.pages * PAGE_SIZE ≤ (next.heap.metadata task'.base).size
  pages : task'.pages = task.heapBase / PAGE_SIZE + (heapSize.toNat + (PAGE_SIZE - 1)) / PAGE_SIZE
  covers : task.heapBase + heapSize.toNat ≤ task'.pages * PAGE_SIZE
  bytes : ∀ offset, offset < min (task.pages * PAGE_SIZE) (task'.pages * PAGE_SIZE) →
    next.heap.mem (task'.base + offset) = k.heap.mem (task.base + offset)

-- A resize that succeeds grants what it records, and one that fails changes nothing.
def ResizesExactly (k : Kernel) (pid address : Nat) (task : Task) (heapSize : UInt32) : Prop :=
  (resizeHeapCode k pid heapSize = 0 → ∃ task',
    (resizeHeap k pid heapSize).taskTable pid = .task address task' ∧
    task'.heapSize = heapSize.toNat ∧
    Granted k (resizeHeap k pid heapSize) task task' heapSize) ∧
  (resizeHeapCode k pid heapSize = -1 →
    (resizeHeap k pid heapSize).taskTable pid = .task address task ∧
    (resizeHeap k pid heapSize).heap.mem = k.heap.mem ∧
    (resizeHeap k pid heapSize).heap.metadata = k.heap.metadata)

-- The allocator has no room for a block of `size` bytes.
def NoRoom (heap : Heap) (size : Nat) : Prop :=
  ∀ page, Reachable heap.pmm page (divRoundup size PAGE_SIZE + 1) →
    ¬FreeRun heap.pmm.bitmap page (divRoundup size PAGE_SIZE + 1)

section Klib

variable {heap : Heap} {live : Nat → Prop} {ptr : Nat}

theorem kalloc_null_iff (hok : HeapOk heap live) (size : Nat) :
    (kalloc heap size).1 = 0 ↔ NoRoom heap size := by
  unfold NoRoom
  rw [← pmmAlloc_null_iff (Nat.succ_pos _) hok.zero_used hok.last_le]
  unfold kalloc pmmAllocz
  rcases pmmAlloc heap.pmm (divRoundup size PAGE_SIZE + 1) with ⟨ptr, pmm⟩
  cases ptr with
  | zero => simp
  | succ ptr => simp

theorem krealloc_null_iff (hok : HeapOk heap live) (hptr : live ptr) (newSize : Nat) :
    (krealloc heap ptr newSize).1 = 0 ↔
      divRoundup (heap.metadata ptr).size PAGE_SIZE ≠ divRoundup newSize PAGE_SIZE ∧
        NoRoom heap newSize := by
  have hne := hok.ne_zero hptr
  rw [← kalloc_null_iff hok]
  unfold krealloc
  rw [if_neg hne]
  split
  · rename_i hpages
    simp [hpages, hne]
  · rename_i hpages
    split
    · rename_i hnull
      simp [hpages, hnull]
    · rename_i hnull
      simp [hnull]

end Klib

variable {k : Kernel} {live : Nat → Prop} {pid address : Nat} {task : Task} {heapSize : UInt32}

-- The size that resize_heap asks krealloc for, before it wraps.
abbrev resizeBytes (task : Task) (heapSize : UInt32) : Nat :=
  task.heapBase + heapPages heapSize * PAGE_SIZE

theorem heapPages_eq (heapSize : UInt32) :
    heapPages heapSize = (heapSize.toNat + (PAGE_SIZE - 1)) / PAGE_SIZE := by
  unfold heapPages
  by_cases hmod : heapSize.toNat % PAGE_SIZE = 0
  · rw [if_pos hmod]
    simp only [PAGE_SIZE] at hmod ⊢
    omega
  · rw [if_neg hmod]
    simp only [PAGE_SIZE] at hmod ⊢
    omega

theorem heapPages_le (heapSize : UInt32) : heapPages heapSize ≤ 2 ^ 20 := by
  have hlt := heapSize.toNat_lt
  rw [heapPages_eq]
  simp only [PAGE_SIZE]
  omega

theorem heapSize_le (heapSize : UInt32) : heapSize.toNat ≤ heapPages heapSize * PAGE_SIZE := by
  rw [heapPages_eq]
  simp only [PAGE_SIZE]
  omega

-- The task after a resize that succeeds.
def resizedTask (task : Task) (base : Nat) (heapSize : UInt32) : Task :=
  { task with
    base := base
    pages := (task.heapBase / PAGE_SIZE + heapPages heapSize) % 2 ^ 32
    heapSize := heapSize.toNat }

theorem resizeHeap_null (hslot : k.taskTable pid = .task address task)
    (hnull : (krealloc k.heap task.base (resizeBytes task heapSize % 2 ^ 32)).1 = 0) :
    resizeHeapCode k pid heapSize = -1 ∧ resizeHeap k pid heapSize =
      { k with heap := (krealloc k.heap task.base (resizeBytes task heapSize % 2 ^ 32)).2 } := by
  unfold resizeHeapCode resizeHeap
  rw [hslot]
  exact ⟨if_pos hnull, if_pos hnull⟩

theorem resizeHeap_done (hslot : k.taskTable pid = .task address task)
    (hne : (krealloc k.heap task.base (resizeBytes task heapSize % 2 ^ 32)).1 ≠ 0) :
    resizeHeapCode k pid heapSize = 0 ∧ resizeHeap k pid heapSize =
      { k with heap := (krealloc k.heap task.base (resizeBytes task heapSize % 2 ^ 32)).2 }.setTask
        pid address (resizedTask task
          (krealloc k.heap task.base (resizeBytes task heapSize % 2 ^ 32)).1 heapSize) := by
  unfold resizeHeapCode resizeHeap
  rw [hslot]
  exact ⟨if_neg hne, if_neg hne⟩

theorem resizedTask_pages (hbase : task.heapBase < 2 ^ 32) (base : Nat) :
    (resizedTask task base heapSize).pages = task.heapBase / PAGE_SIZE + heapPages heapSize := by
  have hpages := heapPages_le heapSize
  unfold resizedTask
  simp only [PAGE_SIZE]
  omega

-- The pages that are recorded hold exactly the bytes that were meant to be asked for.
theorem resizedTask_bytes (hbase : task.heapBase < 2 ^ 32) (hmod : task.heapBase % PAGE_SIZE = 0)
    (base : Nat) :
    (resizedTask task base heapSize).pages * PAGE_SIZE = resizeBytes task heapSize := by
  rw [resizedTask_pages hbase, resizeBytes]
  simp only [PAGE_SIZE] at hmod ⊢
  omega

-- A block gets the bytes that its task records exactly when the request does not wrap.
theorem TaskBlock.granted_iff (hblock : TaskBlock k.heap live task) {next : Kernel}
    {result : Nat × Heap}
    (hresult : krealloc k.heap task.base (resizeBytes task heapSize % 2 ^ 32) = result)
    (hne : result.1 ≠ 0) (hnext : next.heap = result.2) :
    Granted k next task (resizedTask task result.1 heapSize) heapSize ↔
      resizeBytes task heapSize < 2 ^ 32 := by
  obtain ⟨hheap, hlive, hsized, hlt⟩ := hblock
  have hpages := @resizedTask_pages task heapSize hlt result.1
  have hbytes := @resizedTask_bytes task heapSize hlt hsized.heapBase_mod result.1
  have hsize : (next.heap.metadata result.1).size = resizeBytes task heapSize % 2 ^ 32 := by
    rcases krealloc_ok hheap task.base (resizeBytes task heapSize % 2 ^ 32) hlive with
      ⟨hnull, -⟩ | ⟨-, -, -, hsize, -⟩
    · rw [hresult] at hnull
      exact absurd hnull hne
    · rw [hnext, ← hresult, hsize]
  constructor
  · intro hgranted
    have hle := hgranted.block
    rw [hbytes, show (resizedTask task result.1 heapSize).base = result.1 from rfl, hsize] at hle
    omega
  · intro hfits
    rw [Nat.mod_eq_of_lt hfits] at hresult hsize
    constructor
    · exact (hbytes.trans hsize.symm).le
    · rw [hpages, heapPages_eq]
    · rw [hbytes]
      exact Nat.add_le_add_left (heapSize_le heapSize) task.heapBase
    · intro offset hoffset
      rw [hbytes] at hoffset
      have hold : (k.heap.metadata task.base).size ≤ MAX_SIZE := by
        have hmod := hsized.size_mod
        have hsmall := hsized.size_lt
        simp only [MAX_SIZE, PAGE_SIZE] at hmod ⊢
        omega
      have hcopied := krealloc_bytes hheap hlive hold (resizeBytes task heapSize)
        (by rw [hresult]; exact hne)
      rw [hresult, ← hnext] at hcopied
      have hin : offset < min (k.heap.metadata task.base).size (resizeBytes task heapSize) := by
        have hpages := hsized.pages_le
        omega
      have hbyte := congrArg (fun bytes => bytes.getD offset 0) hcopied
      simp only [ByteStore.read_getD _ _ _ _ hin] at hbyte
      exact hbyte

-- resize_heap keeps its promises unless the sum of the heap's base and pages wraps around
-- and krealloc still grants what is left of it.
theorem resize_heap_exact_iff (hblock : TaskBlock k.heap live task)
    (hslot : k.taskTable pid = .task address task) :
    ResizesExactly k pid address task heapSize ↔
      resizeBytes task heapSize < 2 ^ 32 ∨
      divRoundup (k.heap.metadata task.base).size PAGE_SIZE ≠
          divRoundup (resizeBytes task heapSize % 2 ^ 32) PAGE_SIZE ∧
        NoRoom k.heap (resizeBytes task heapSize % 2 ^ 32) := by
  have hrefused := krealloc_null_iff hblock.heap_ok hblock.live (resizeBytes task heapSize % 2 ^ 32)
  rw [← hrefused]
  by_cases hnull : (krealloc k.heap task.base (resizeBytes task heapSize % 2 ^ 32)).1 = 0
  · obtain ⟨hcode, hresize⟩ := resizeHeap_null hslot hnull
    refine iff_of_true ⟨?_, ?_⟩ (Or.inr hnull)
    · intro hzero
      rw [hcode] at hzero
      cases hzero
    · intro _
      rw [hresize]
      refine ⟨hslot, ?_, ?_⟩
      · rcases krealloc_cases hblock.heap_ok hblock.live (resizeBytes task heapSize % 2 ^ 32) with
          ⟨-, hmem⟩ | ⟨-, hmem⟩ | ⟨hnew, hne, -⟩
        · exact hmem
        · exact hmem
        · exact absurd (hnew.symm.trans hnull) hne
      · rcases krealloc_ok hblock.heap_ok task.base (resizeBytes task heapSize % 2 ^ 32)
          hblock.live with ⟨-, -, hmeta⟩ | ⟨hne, -⟩
        · exact hmeta
        · exact absurd hnull hne
  · obtain ⟨hcode, hresize⟩ := resizeHeap_done hslot hnull
    have hgranted := hblock.granted_iff rfl hnull
      (show (resizeHeap k pid heapSize).heap = _ by rw [hresize]; rfl)
    have htask : (resizeHeap k pid heapSize).taskTable pid = .task address (resizedTask task
        (krealloc k.heap task.base (resizeBytes task heapSize % 2 ^ 32)).1 heapSize) := by
      rw [hresize]
      exact Function.update_self _ _ _
    rw [or_iff_left hnull, ← hgranted]
    constructor
    · rintro ⟨hdone, -⟩
      obtain ⟨task', hslot', -, hall⟩ := hdone hcode
      rw [htask] at hslot'
      cases hslot'
      exact hall
    · intro hall
      refine ⟨fun _ => ⟨_, htask, rfl, hall⟩, ?_⟩
      intro hfailed
      rw [hcode] at hfailed
      cases hfailed

def heapBaseOf (pid : Nat) (k : Kernel) : Option Nat :=
  match k.taskTable pid with
  | .task _ task => some task.heapBase
  | _ => none

-- The machine after the launch of one program, whose task has a block of 32 pages.
theorem launched_block : ∃ k address task, bootRun [plainLaunch 0] = some k ∧
    k.taskTable 1 = .task address task ∧ task.heapBase = 32 * PAGE_SIZE ∧
    ∃ live, TaskBlock k.heap live task := by
  have hsome : (bootRun [plainLaunch 0]).isSome = true := by decide +kernel
  obtain ⟨k, hk⟩ := Option.isSome_iff_exists.mp hsome
  obtain ⟨boot, hinit, hrun⟩ := bootRun_split hk
  have hheap : HeapOk emptyHeap fun ptr => ptr ≠ 0 ∧ ∃ name : Nat, (fun _ => 0) name = ptr := by
    apply emptyHeap_ok
    rintro ptr ⟨hne, name, rfl⟩
    exact hne rfl
  have hboot := taskInit_memoryOk hheap (fun _ _ _ hne => absurd rfl hne) hinit
  have hpages : programPages 0 < 2 ^ 20 := by decide
  have hguard : Guarded step KeepsSegments boot [plainLaunch 0] := ⟨hpages, fun _ _ => trivial⟩
  obtain ⟨-, owner, howned⟩ := run_invariant (fun _ _ _ hok => step_memoryOk hok) hboot hguard hrun
  have hbase : (bootRun [plainLaunch 0]).bind (heapBaseOf 1) = some (32 * PAGE_SIZE) := by
    decide +kernel
  rw [hk, Option.bind_some, heapBaseOf] at hbase
  cases hslot : k.taskTable 1 with
  | null =>
      rw [hslot] at hbase
      cases hbase
  | empty =>
      rw [hslot] at hbase
      cases hbase
  | task address task =>
      rw [hslot] at hbase
      have htask := howned.tasks 1 address task hslot
      have himage := htask.image Nat.one_ne_zero
      refine ⟨k, address, task, hk, hslot, Option.some.inj hbase, _, howned.tagged, ?_,
        htask.sized Nat.one_ne_zero, ?_⟩
      · rw [himage]
        exact Option.some_ne_none _
      · rw [Option.some.inj hbase]
        decide

theorem resize_heap_one_page : ∃ k address task, bootRun [plainLaunch 0] = some k ∧
    k.taskTable 1 = .task address task ∧ ResizesExactly k 1 address task 4096 := by
  obtain ⟨k, address, task, hk, hslot, hbase, live, hblock⟩ := launched_block
  refine ⟨k, address, task, hk, hslot, (resize_heap_exact_iff hblock hslot).mpr (Or.inl ?_)⟩
  rw [resizeBytes, hbase]
  decide

-- The heap of 2 ^ 32 - 1 bytes is granted on the block of 32 pages that is there.
theorem resize_heap_grants_nothing : ∃ k address task live, bootRun [plainLaunch 0] = some k ∧
    k.taskTable 1 = .task address task ∧ TaskBlock k.heap live task ∧
    resizeHeapCode k 1 0xFFFFFFFF = 0 ∧
    segmentAndBlock 1 (resizeHeap k 1 0xFFFFFFFF) =
      some ((32 + 2 ^ 20) * PAGE_SIZE, 32 * PAGE_SIZE) ∧
    ¬ResizesExactly k 1 address task 0xFFFFFFFF := by
  obtain ⟨k, address, task, hk, hslot, hbase, live, hblock⟩ := launched_block
  have hcode : (bootRun [plainLaunch 0]).map (resizeHeapCode · 1 0xFFFFFFFF) = some 0 := by
    decide +kernel
  have hsizes : (bootRun [plainLaunch 0]).bind (fun k =>
      segmentAndBlock 1 (resizeHeap k 1 0xFFFFFFFF)) =
        some ((32 + 2 ^ 20) * PAGE_SIZE, 32 * PAGE_SIZE) := by
    decide +kernel
  rw [hk] at hcode hsizes
  replace hcode := Option.some.inj hcode
  refine ⟨k, address, task, live, hk, hslot, hblock, hcode, hsizes, ?_⟩
  rintro ⟨hdone, -⟩
  obtain ⟨task', hslot', -, hgranted⟩ := hdone hcode
  rw [Option.bind_some, segmentAndBlock, hslot'] at hsizes
  simp only [Option.some.injEq, Prod.mk.injEq] at hsizes
  have hle := hgranted.block
  rw [hsizes.1, hsizes.2] at hle
  exact absurd hle (by decide)

end EchidnaOS
