import EchidnaOS.Vfs.CacheMemory

namespace EchidnaOS.Vfs

open EchidnaOS.Lib EchidnaOS.Lib.SlotTable EchidnaOS.Lib.ByteStore EchidnaOS.Klib EchidnaOS.Devfs
  EchidnaOS.Echfs

-- What points to an object of the heap.
inductive Part where
  | table
  | map (slot : Nat)
  | devfs
  | echfs
  | descriptors
  | other
  deriving DecidableEq

variable {s next : State} {owner owner' : Nat → Option Part} {tag : Part}

-- Two tables of this many slots do not fit the memory at once.
def MAX_CACHED : Nat := 60357

-- The table of cached files and the descriptors of the kernel's task are objects of the heap.
structure Housed (s : State) (owner : Nat → Option Part) : Prop where
  tagged : Tagged s.kernel.heap owner
  table : s.cachedFiles = 0 ∧ s.cachedFilesPtr = 0 ∨
    owner s.cachedFiles = some .table ∧
      (s.kernel.heap.metadata s.cachedFiles).size = s.cachedFilesPtr * SIZEOF_CACHED_FILE
  count_le : s.cachedFilesPtr ≤ MAX_CACHED
  descriptors : Memory.descriptors s ≠ 0 → owner (Memory.descriptors s) = some .descriptors

theorem Housed.of_state (hin : Housed s owner) (hkernel : next.kernel = s.kernel)
    (hfiles : next.cachedFiles = s.cachedFiles) (hcount : next.cachedFilesPtr = s.cachedFilesPtr) :
    Housed next owner := by
  obtain ⟨htagged, htable, hle, hdescriptors⟩ := hin
  refine ⟨?_, ?_, ?_, ?_⟩
  · rw [hkernel]
    exact htagged
  · rw [hkernel, hfiles, hcount]
    exact htable
  · rw [hcount]
    exact hle
  · unfold Memory.descriptors at hdescriptors ⊢
    rw [hkernel]
    exact hdescriptors

-- Before there is a table, every object belongs to the rest of the kernel, the descriptors of
-- its task among them.
theorem Housed.start {live : Nat → Prop} (hheap : HeapOk s.kernel.heap live)
    (htable : s.cachedFiles = 0 ∧ s.cachedFilesPtr = 0)
    (hdescriptors : Memory.descriptors s ≠ 0 → live (Memory.descriptors s)) :
    ∃ owner, Housed s owner ∧ ∀ ptr, live ptr ↔ owner ptr ≠ none := by
  classical
  let owner : Nat → Option Part := fun ptr =>
    if live ptr then if ptr = Memory.descriptors s then some .descriptors else some .other else none
  have hlive : ∀ ptr, live ptr ↔ owner ptr ≠ none := by
    intro ptr
    by_cases hptr : live ptr
    · simp only [owner, if_pos hptr]
      split <;> simp [hptr]
    · simp [owner, hptr]
  refine ⟨owner, ⟨HeapOk.congr hheap fun ptr hptr => (hlive ptr).mpr hptr, Or.inl htable, ?_, ?_⟩, hlive⟩
  · rw [htable.2]
    exact Nat.zero_le _
  · intro hne
    dsimp only [owner]
    rw [if_pos (hdescriptors hne), if_pos rfl]

-- One object is moved by krealloc.
theorem Housed.move (hin : Housed s owner) (htagged : Tagged next.kernel.heap owner')
    (hkept : Kept (· ≠ tag) s.kernel.heap next.kernel.heap owner owner')
    (htable : (next.cachedFiles = s.cachedFiles ∧ next.cachedFilesPtr = s.cachedFilesPtr) ∧
        tag ≠ .table ∨
      owner' next.cachedFiles = some .table ∧
        (next.kernel.heap.metadata next.cachedFiles).size = next.cachedFilesPtr * SIZEOF_CACHED_FILE ∧
        next.cachedFilesPtr ≤ MAX_CACHED)
    (hdescriptors : Memory.descriptors next = Memory.descriptors s ∧ tag ≠ .descriptors ∨
      (Memory.descriptors next ≠ 0 → owner' (Memory.descriptors next) = some .descriptors)) :
    Housed next owner' where
  tagged := htagged
  table := by
    rcases htable with ⟨⟨hfiles, hcount⟩, htag⟩ | ⟨howner', hsize, -⟩
    · rw [hfiles, hcount]
      rcases hin.table with hnull | ⟨howner, hsize⟩
      · exact Or.inl hnull
      · obtain ⟨howner', hmeta⟩ := hkept _ _ (Ne.symm htag) howner
        exact Or.inr ⟨howner', by rw [hmeta]; exact hsize⟩
    · exact Or.inr ⟨howner', hsize⟩
  count_le := by
    rcases htable with ⟨⟨-, hcount⟩, -⟩ | ⟨-, -, hle⟩
    · rw [hcount]
      exact hin.count_le
    · exact hle
  descriptors hne := by
    rcases hdescriptors with ⟨heq, htag⟩ | hmoved
    · rw [heq] at hne ⊢
      exact (hkept _ _ (Ne.symm htag) (hin.descriptors hne)).1
    · exact hmoved hne

theorem divRoundup_cached {count : Nat} (hcount : count ≤ MAX_CACHED + 1) :
    divRoundup (count * SIZEOF_CACHED_FILE) PAGE_SIZE = (count * SIZEOF_CACHED_FILE + 4095) / 4096 := by
  unfold divRoundup
  simp only [MAX_CACHED, SIZEOF_CACHED_FILE, PAGE_SIZE] at hcount ⊢
  rw [Nat.mod_eq_of_lt (by omega)]

-- The block of the table with one slot more.
def State.grownTable (s : State) : Nat × Heap :=
  krealloc s.kernel.heap s.cachedFiles (SIZEOF_CACHED_FILE * (s.cachedFilesPtr + 1) % 2 ^ 32)

theorem addCached_grown (s : State) (file : CachedFile) (reset : Bool) :
    (s.addCached file reset).2.cachedFiles = s.grownTable.1 ∧
      (s.addCached file reset).2.kernel = { s.kernel with heap := s.grownTable.2 } ∧
      (s.addCached file reset).2.cachedFilesPtr = s.cachedFilesPtr + 1 :=
  ⟨rfl, rfl, rfl⟩

theorem Housed.grownTable (hin : Housed s owner) : s.grownTable =
    krealloc s.kernel.heap s.cachedFiles ((s.cachedFilesPtr + 1) * SIZEOF_CACHED_FILE) := by
  have hcount := hin.count_le
  have hsize : SIZEOF_CACHED_FILE * (s.cachedFilesPtr + 1) % 2 ^ 32 =
      (s.cachedFilesPtr + 1) * SIZEOF_CACHED_FILE := by
    simp only [MAX_CACHED, SIZEOF_CACHED_FILE] at hcount ⊢
    omega
  unfold State.grownTable
  rw [hsize]

-- A slot has more than a page, so the table with one more needs more pages.
theorem Housed.more_pages (hin : Housed s owner)
    (hsize : (s.kernel.heap.metadata s.cachedFiles).size = s.cachedFilesPtr * SIZEOF_CACHED_FILE) :
    divRoundup (s.kernel.heap.metadata s.cachedFiles).size PAGE_SIZE ≠
      divRoundup ((s.cachedFilesPtr + 1) * SIZEOF_CACHED_FILE) PAGE_SIZE := by
  have hcount := hin.count_le
  rw [hsize, divRoundup_cached (by omega), divRoundup_cached (by omega)]
  simp only [SIZEOF_CACHED_FILE]
  omega

theorem Housed.live_table (howner : owner s.cachedFiles = some .table) : owner s.cachedFiles ≠ none := by
  rw [howner]
  exact Option.some_ne_none _

theorem Housed.room (hin : Housed s owner) (hne : s.grownTable.1 ≠ 0) :
    s.cachedFilesPtr + 1 ≤ MAX_CACHED := by
  have hcount := hin.count_le
  rcases hin.table with ⟨-, hzero⟩ | ⟨howner, hsize⟩
  · rw [hzero]
    decide
  · have hlive := live_table howner
    have hpages := HeapOk.pages_eq hin.tagged _ hlive
    rw [hin.grownTable] at hne
    have hboth := krealloc_room hin.tagged hlive (hin.more_pages hsize) hne
    rw [hpages, hsize, divRoundup_cached (by omega), divRoundup_cached (by omega)] at hboth
    simp only [MAX_CACHED, SIZEOF_CACHED_FILE] at hboth ⊢
    omega

-- The table gets a slot.
theorem Housed.addCached (hin : Housed s owner) (file : CachedFile) (reset : Bool)
    (hne : s.grownTable.1 ≠ 0) :
    Housed (s.addCached file reset).2 (moved owner s.cachedFiles s.grownTable.1 .table) ∧
      Kept (· ≠ .table) s.kernel.heap s.grownTable.2 owner
        (moved owner s.cachedFiles s.grownTable.1 .table) := by
  have howner : s.cachedFiles ≠ 0 → owner s.cachedFiles = some .table := by
    intro hnull
    rcases hin.table with hnone | hsome
    · exact absurd hnone.1 hnull
    · exact hsome.1
  have hroom := hin.room hne
  obtain ⟨hfiles, hkernel, hcount⟩ := addCached_grown s file reset
  rw [hin.grownTable] at hne hfiles hkernel ⊢
  obtain ⟨htagged, hsize, hkept⟩ := hin.tagged.moved howner _ hne
  refine ⟨?_, hkept⟩
  have hsame : Memory.descriptors (s.addCached file reset).2 = Memory.descriptors s := by
    unfold Memory.descriptors
    rw [hkernel]
  rw [show (krealloc s.kernel.heap s.cachedFiles ((s.cachedFilesPtr + 1) * SIZEOF_CACHED_FILE)).2 =
    (s.addCached file reset).2.kernel.heap by rw [hkernel]] at htagged hkept hsize
  refine hin.move htagged hkept (Or.inr ?_) (Or.inl ⟨hsame, by simp⟩)
  rw [hfiles, hcount]
  exact ⟨Function.update_self _ _ _, hsize, hroom⟩

-- The descriptors of the kernel's task are in an array of their own.
theorem vfsKopen_descriptors (s : State) (device : Nat) :
    ((s.table 0).any (·.free) = true ∧ (vfsKopen s device).2.kernel.heap = s.kernel.heap ∧
      Memory.descriptors (vfsKopen s device).2 = Memory.descriptors s) ∨
    ((s.table 0).any (·.free) = false ∧ (vfsKopen s device).2.kernel = s.kernel ∧
      Memory.descriptors (vfsKopen s device).2 = 0) ∨
    ((s.table 0).any (·.free) = false ∧ ∃ size,
      (vfsKopen s device).2.kernel.heap = (krealloc s.kernel.heap (Memory.descriptors s) size).2 ∧
      Memory.descriptors (vfsKopen s device).2 = (krealloc s.kernel.heap (Memory.descriptors s) size).1) := by
  unfold vfsKopen State.createDescriptor devfsCreateHandle createFileHandleV2 State.table Memory.descriptors
  cases hslot : s.kernel.taskTable 0 with
  | null => exact Or.inr (Or.inl ⟨rfl, by simp [hslot], by simp [hslot]⟩)
  | empty => exact Or.inr (Or.inl ⟨rfl, by simp [hslot], by simp [hslot]⟩)
  | task address task =>
      dsimp only [Slot.handlesV2]
      rw [hslot]
      dsimp only
      by_cases hfree : task.handlesV2.any (·.free) = true
      · left
        rw [if_pos hfree]
        refine ⟨hfree, rfl, ?_⟩
        simp [Kernel.setTask]
      · right
        right
        rw [if_neg hfree]
        refine ⟨Bool.not_eq_true _ ▸ hfree, _, rfl, ?_⟩
        simp [Kernel.setTask]

theorem vfsKopen_table (s : State) (device : Nat) :
    (vfsKopen s device).2.cachedFiles = s.cachedFiles ∧
      (vfsKopen s device).2.cachedFilesPtr = s.cachedFilesPtr :=
  ⟨rfl, rfl⟩

-- The device is opened for the kernel, whether its descriptors have room or not.
theorem Housed.kopen (hin : Housed s owner) (device : Nat) :
    ∃ owner', Housed (vfsKopen s device).2 owner' := by
  have hsame := vfsKopen_table s device
  rcases vfsKopen_descriptors s device with ⟨-, hheap, hdescriptors⟩ | ⟨-, hkernel, -⟩ |
    ⟨-, size, hheap, hdescriptors⟩
  · refine ⟨owner, ?_, ?_, ?_, ?_⟩
    · rw [hheap]
      exact hin.tagged
    · rw [hheap, hsame.1, hsame.2]
      exact hin.table
    · rw [hsame.2]
      exact hin.count_le
    · rw [hdescriptors]
      exact hin.descriptors
  · exact ⟨owner, hin.of_state hkernel hsame.1 hsame.2⟩
  · obtain ⟨owner', htagged, hkept, hnew⟩ := hin.tagged.realloc_field hin.descriptors size
    rw [← hheap] at htagged hkept
    rw [← hdescriptors] at hnew
    exact ⟨owner', hin.move htagged hkept (Or.inl ⟨hsame, by simp⟩) (Or.inr hnew)⟩

end EchidnaOS.Vfs
