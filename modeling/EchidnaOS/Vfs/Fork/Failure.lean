import EchidnaOS.Klib.Heap.Borrowed
import EchidnaOS.Vfs.Fork

namespace EchidnaOS.Vfs

open EchidnaOS.Lib EchidnaOS.Lib.Run EchidnaOS.Lib.SlotTable EchidnaOS.Klib EchidnaOS.Devfs EchidnaOS.Echfs

variable {mem later copied : Memory} {pid address : Nat} {task : Task} {copies : Copies} {cpu : GprState}

-- What is left of an entry of the table without the registers and the array of descriptors.
def Slot.record : Slot → Slot
  | .task address task => .task address { task with cpu := {}, fileHandlesV2 := 0, handlesV2 := [] }
  | slot => slot

-- The three arrays of handles that a fork makes larger, and their pages.
def Memory.arrays (mem : Memory) : List Nat :=
  [mem.root .devfsHandles, mem.root .echfsHandles, mem.root (.task 0 .descriptors)]

def Memory.inArray (mem : Memory) (index : Nat) : Prop :=
  ∃ array ∈ mem.arrays, array ≠ 0 ∧ mem.s.kernel.heap.pageOf array index

-- Only the registers of the task that called are not as before, and the arrays may be larger.
structure NoTrace (mem later : Memory) (pid : Nat) : Prop where
  others : ∀ other, other ≠ pid → other ≠ 0 →
    later.s.kernel.taskTable other = mem.s.kernel.taskTable other
  record : ∀ other,
    Slot.record (later.s.kernel.taskTable other) = Slot.record (mem.s.kernel.taskTable other)
  descriptors : ∀ other handle,
    inUse (·.free) (later.s.table other) handle = inUse (·.free) (mem.s.table other) handle
  devfs : ∀ handle, inUse (·.free) later.s.devfsHandles handle = inUse (·.free) mem.s.devfsHandles handle
  echfs : ∀ handle, inUse (·.free) later.s.echfsHandles handle = inUse (·.free) mem.s.echfsHandles handle
  pages : ∀ index, ¬mem.inArray index → ¬later.inArray index →
    later.s.kernel.heap.pmm.bitmap index = mem.s.kernel.heap.pmm.bitmap index

-- There is memory for the image and for the two tables of the new task.
def Memory.HasRoom (mem : Memory) (task : Task) : Prop :=
  let base := mem.alloc (task.pages * PAGE_SIZE % 2 ^ 32)
  let handles := base.2.alloc (task.fileHandlesPtr * SIZEOF_FILE_HANDLE % 2 ^ 32)
  let handlesV2 := handles.2.alloc (task.handlesV2.length * SIZEOF_FILE_HANDLE_V2 % 2 ^ 32)
  base.1 ≠ 0 ∧ handles.1 ≠ 0 ∧ handlesV2.1 ≠ 0

instance (mem : Memory) (task : Task) : Decidable (mem.HasRoom task) :=
  inferInstanceAs (Decidable (_ ∧ _ ∧ _))

-- The fork stops at one of its own allocations, or there is nothing open to copy and the number
-- that task_create would take was in use before.
def Traceless (mem : Memory) (task : Task) : Prop :=
  mem.HasRoom task →
    (∀ handle ∈ task.handlesV2, handle.free = true) ∧
      ∀ child, freePid mem.s.kernel.taskTable KRNL_MAX_TASKS 0 = some child →
        mem.s.kernel.taskTable child = .empty

section Copies

variable {live : Nat → Prop} {before : Heap} {size : Nat}

-- Nothing but the heap is different.
def SameButHeap (mem later : Memory) : Prop :=
  later.s = { mem.s with kernel.heap := later.s.kernel.heap }

theorem SameButHeap.trans {middle : Memory} (hfirst : SameButHeap mem middle)
    (hsecond : SameButHeap middle later) : SameButHeap mem later := by
  unfold SameButHeap at hfirst hsecond ⊢
  rw [hsecond, hfirst]

theorem SameButHeap.free (hsame : SameButHeap mem later) (ptr : Nat) : SameButHeap mem (later.free ptr) := by
  unfold SameButHeap at hsame ⊢
  rw [Memory.free, hsame]

theorem SameButHeap.quiet (hsame : SameButHeap mem later) : Quiet mem.s later.s := by
  rw [hsame]
  exact setHeap_quiet mem later.s.kernel.heap later.live

theorem alloc_sameButHeap (mem : Memory) (size : Nat) : SameButHeap mem (mem.alloc size).2 := by
  unfold SameButHeap Memory.alloc
  dsimp only
  split <;> rfl

theorem alloc_heap (mem : Memory) (size : Nat) :
    (mem.alloc size).1 = (kalloc mem.s.kernel.heap size).1 ∧
      (mem.alloc size).2.s.kernel.heap = (kalloc mem.s.kernel.heap size).2 := by
  unfold Memory.alloc
  dsimp only
  split
  · rename_i hnull
    exact ⟨hnull.symm, rfl⟩
  · exact ⟨rfl, rfl⟩

-- An allocation that fails leaves what was borrowed, and one that succeeds adds to it.
theorem alloc_borrows (size : Nat) (hborrowed : Borrowed before mem.s.kernel.heap live) :
    SameButHeap mem (mem.alloc size).2 ∧
    ((mem.alloc size).1 = 0 → Borrowed before (mem.alloc size).2.s.kernel.heap live) ∧
    ((mem.alloc size).1 ≠ 0 → ¬live (mem.alloc size).1 ∧
      Borrowed before (mem.alloc size).2.s.kernel.heap (fun ptr => live ptr ∨ ptr = (mem.alloc size).1)) := by
  obtain ⟨hptr, hheap⟩ := alloc_heap mem size
  rw [hptr, hheap]
  exact ⟨alloc_sameButHeap mem size, fun hnull => hborrowed.refused hnull,
    fun hsome => ⟨hborrowed.fresh hsome, hborrowed.alloc hsome⟩⟩

-- What the three pointers stand for, until they are given back.
structure ThreeBlocks (before heap : Heap) (copies : Copies) : Prop where
  handles_ne : copies.handles ≠ copies.base
  handlesV2_ne : copies.handlesV2 ≠ copies.base ∧ copies.handlesV2 ≠ copies.handles
  borrowed : Borrowed before heap fun ptr =>
    ptr = copies.base ∨ ptr = copies.handles ∨ ptr = copies.handlesV2

theorem ThreeBlocks.freed {heap : Heap} (hblocks : ThreeBlocks before heap copies) :
    (kfree (kfree (kfree heap copies.base) copies.handles) copies.handlesV2).pmm.bitmap =
      before.pmm.bitmap := by
  have hbase := hblocks.borrowed.free (Or.inl rfl)
  have hhandles := hbase.free ⟨Or.inr (Or.inl rfl), hblocks.handles_ne⟩
  have hhandlesV2 := hhandles.free ⟨⟨Or.inr (Or.inr rfl), hblocks.handlesV2_ne.1⟩, hblocks.handlesV2_ne.2⟩
  refine hhandlesV2.restored fun ptr => ?_
  rintro ⟨⟨⟨rfl | rfl | rfl, hbase⟩, hhandles⟩, hhandlesV2⟩
  · exact hbase rfl
  · exact hhandles rfl
  · exact hhandlesV2 rfl

-- The first three steps give back what they have taken, or have it all.
theorem forkCopies_spec {result : Option Copies} (hheap : HeapOk mem.s.kernel.heap fun _ => False)
    (hcopies : mem.forkCopies task = some (result, copied)) :
    (result = none ∧ ¬mem.HasRoom task ∧ SameButHeap mem copied ∧
      copied.s.kernel.heap.pmm.bitmap = mem.s.kernel.heap.pmm.bitmap) ∨
    ∃ copies start, result = some copies ∧ mem.HasRoom task ∧ SameButHeap mem start ∧
      ThreeBlocks mem.s.kernel.heap start.s.kernel.heap copies ∧
      start.cloneDescriptors task.handlesV2 = some (copies.descriptors, copied) := by
  unfold Memory.forkCopies at hcopies
  unfold Memory.HasRoom
  dsimp only at hcopies ⊢
  have hstart := Borrowed.start hheap fun _ => not_false
  obtain ⟨hsame, hnull, hsome⟩ := alloc_borrows (task.pages * PAGE_SIZE % 2 ^ 32) hstart
  generalize mem.alloc (task.pages * PAGE_SIZE % 2 ^ 32) = base at *
  split at hcopies
  · rename_i hbase
    cases hcopies
    exact Or.inl ⟨rfl, by simp [hbase], hsame, (hnull hbase).restored fun _ => not_false⟩
  rename_i hbase
  obtain ⟨-, hstart⟩ := hsome hbase
  obtain ⟨hhandles, hnull, hsome⟩ :=
    alloc_borrows (task.fileHandlesPtr * SIZEOF_FILE_HANDLE % 2 ^ 32) hstart
  have hsame := hsame.trans hhandles
  generalize base.2.alloc (task.fileHandlesPtr * SIZEOF_FILE_HANDLE % 2 ^ 32) = handles at *
  split at hcopies
  · rename_i hhandles
    cases hcopies
    refine Or.inl ⟨rfl, by simp [hhandles], hsame.free _, ?_⟩
    exact ((hnull hhandles).free (Or.inr rfl)).restored (by simp)
  rename_i hhandles
  obtain ⟨hne, hstart⟩ := hsome hhandles
  obtain ⟨hhandlesV2, hnull, hsome⟩ :=
    alloc_borrows (task.handlesV2.length * SIZEOF_FILE_HANDLE_V2 % 2 ^ 32) hstart
  have hsame := hsame.trans hhandlesV2
  generalize handles.2.alloc (task.handlesV2.length * SIZEOF_FILE_HANDLE_V2 % 2 ^ 32) = handlesV2 at *
  split at hcopies
  · rename_i hhandlesV2
    cases hcopies
    refine Or.inl ⟨rfl, by simp [hhandlesV2], (hsame.free _).free _, ?_⟩
    have hfreed := (hnull hhandlesV2).free (Or.inl (Or.inr rfl))
    refine (hfreed.free ⟨Or.inr rfl, fun heq => hne (Or.inr heq)⟩).restored ?_
    simp only [false_or]
    rintro ptr ⟨⟨rfl | rfl, hother⟩, hother'⟩
    · exact hother rfl
    · exact hother' rfl
  rename_i hhandlesV2
  obtain ⟨hneV2, hstart⟩ := hsome hhandlesV2
  obtain ⟨cloned, hclone, hequal⟩ := Option.map_eq_some_iff.mp hcopies
  cases hequal
  refine Or.inr ⟨_, handlesV2.2, rfl, ⟨hbase, hhandles, hhandlesV2⟩, hsame, ⟨?_, ?_, ?_⟩, hclone⟩
  · exact fun heq => hne (Or.inr heq)
  · exact ⟨fun heq => hneV2 (Or.inl (Or.inr heq)), fun heq => hneV2 (Or.inr heq)⟩
  · simpa only [false_or, or_assoc] using hstart

theorem ThreeBlocks.setMem {heap : Heap} (hblocks : ThreeBlocks before heap copies) (contents : ByteStore.Store) :
    ThreeBlocks before { heap with mem := contents } copies :=
  ⟨hblocks.handles_ne, hblocks.handlesV2_ne, hblocks.borrowed.setMem contents⟩

theorem ThreeBlocks.refused {heap : Heap} (hblocks : ThreeBlocks before heap copies)
    (hnull : (kalloc heap size).1 = 0) : ThreeBlocks before (kalloc heap size).2 copies :=
  ⟨hblocks.handles_ne, hblocks.handlesV2_ne, hblocks.borrowed.refused hnull⟩

theorem free_heap (mem : Memory) (ptr : Nat) :
    (mem.free ptr).s.kernel.heap = kfree mem.s.kernel.heap ptr := rfl

theorem forkFail_drivers (mem : Memory) : SameDrivers mem.s (mem.forkFail pid address task).s :=
  ⟨rfl, rfl, rfl, rfl⟩

theorem forkFail_heap (mem : Memory) : (mem.forkFail pid address task).s.kernel.heap = mem.s.kernel.heap := rfl

-- The entry that a failed task_create has found free is marked.
def Searched (table later : Nat → Slot) : Prop :=
  freePid table KRNL_MAX_TASKS 0 = none ∧ later = table ∨
    ∃ child, freePid table KRNL_MAX_TASKS 0 = some child ∧ later = Function.update table child .empty

theorem taskCreate_child (mem : Memory) (new : Task) {child : Nat} (hchild : (mem.taskCreate new).1 = some child) :
    child ≠ EchidnaOS.FAILURE ∧ (mem.s.kernel.taskTable child).status = none := by
  unfold Memory.taskCreate EchidnaOS.taskCreate at hchild
  split at hchild
  · cases hchild
  rename_i found hfound
  obtain ⟨hlt, hfree⟩ := freePid_free hfound
  split at hchild
  · cases hchild
  · cases hchild
    refine ⟨?_, hfree⟩
    simp only [KRNL_MAX_TASKS] at hlt
    simp only [EchidnaOS.FAILURE]
    omega

theorem taskCreate_none (mem : Memory) (new : Task) (hnone : (mem.taskCreate new).1 = none) :
    SameDrivers mem.s (mem.taskCreate new).2.s ∧
      Searched mem.s.kernel.taskTable (mem.taskCreate new).2.s.kernel.taskTable ∧
      ∀ before copies, ThreeBlocks before mem.s.kernel.heap copies →
        ThreeBlocks before (mem.taskCreate new).2.s.kernel.heap copies := by
  unfold Memory.taskCreate EchidnaOS.taskCreate at hnone ⊢
  split
  · rename_i hfull
    exact ⟨⟨rfl, rfl, rfl, rfl⟩, Or.inl ⟨hfull, rfl⟩, fun _ _ hblocks => hblocks⟩
  rename_i child hfound
  simp only [hfound] at hnone
  split
  · rename_i hnull
    exact ⟨⟨rfl, rfl, rfl, rfl⟩, Or.inr ⟨child, hfound, rfl⟩, fun _ _ hblocks => hblocks.refused hnull⟩
  · rename_i hsome
    simp only [if_neg hsome] at hnone
    cases hnone

-- A fork behind a task_create that fails.
structure Refused (copied later : Memory) (pid address : Nat) (task : Task) (copies : Copies) : Prop where
  drivers : SameDrivers copied.s later.s
  taskTable : ∃ table, Searched copied.s.kernel.taskTable table ∧ later.s.kernel.taskTable =
    Function.update table pid (.task address (task.withEax EchidnaOS.FAILURE))
  freed : ∀ before, ThreeBlocks before copied.s.kernel.heap copies →
    later.s.kernel.heap.pmm.bitmap = before.pmm.bitmap

theorem forkTask_refused (hslot : (copied.s.kernel.taskTable pid).status ≠ none)
    (hfail : Slot.eax ((copied.forkTask pid address task copies).s.kernel.taskTable pid) =
      EchidnaOS.FAILURE) :
    Refused copied (copied.forkTask pid address task copies) pid address task copies := by
  unfold Memory.forkTask at hfail ⊢
  dsimp only at hfail ⊢
  generalize ByteStore.write copied.s.kernel.heap.mem copies.base _ = contents at hfail ⊢
  generalize forkedTask task pid copies.base copies.handles copies.handlesV2 copies.descriptors = new at *
  have hnone := taskCreate_none { copied with s.kernel.heap.mem := contents } new
  have hchild := fun child => @taskCreate_child { copied with s.kernel.heap.mem := contents } new child
  dsimp only at hnone hchild
  generalize Memory.taskCreate _ new = created at *
  obtain ⟨number, created⟩ := created
  cases number with
  | none =>
      obtain ⟨hdrivers, htable, hblocks⟩ := hnone rfl
      have hfreed := ((free_quiet created copies.base).trans (free_quiet _ copies.handles)).trans
        (free_quiet _ copies.handlesV2)
      have hstart : SameDrivers copied.s created.s :=
        ⟨hdrivers.mountpoint, hdrivers.devMountpoint, hdrivers.devfsHandles, hdrivers.echfsHandles⟩
      refine ⟨(hstart.trans hfreed.drivers).trans (forkFail_drivers _), ⟨_, htable, ?_⟩, ?_⟩
      · dsimp only [Memory.forkFail, Memory.setSlot, Kernel.setTask]
        rw [hfreed.taskTable]
      · intro before hcopied
        dsimp only
        rw [forkFail_heap, free_heap, free_heap, free_heap]
        exact (hblocks _ _ (hcopied.setMem contents)).freed
  | some child =>
      obtain ⟨hnumber, hfree⟩ := hchild child rfl
      -- the number of the new task is what the caller got
      have hne : pid ≠ child := fun heq => hslot (heq ▸ hfree)
      simp [Memory.setSlot, Kernel.setTask, Slot.eax, Task.withEax, Function.update_of_ne hne] at hfail
      exact absurd hfail hnumber

end Copies

-- A caller with other registers, and everything else as it was.
theorem NoTrace.of_state (hslot : mem.s.kernel.taskTable pid = .task address task)
    (htable : later.s.kernel.taskTable =
      Function.update mem.s.kernel.taskTable pid (.task address { task with cpu := cpu }))
    (hdrivers : SameDrivers mem.s later.s)
    (hbitmap : later.s.kernel.heap.pmm.bitmap = mem.s.kernel.heap.pmm.bitmap) : NoTrace mem later pid := by
  have hslots : ∀ other, other ≠ pid → later.s.kernel.taskTable other = mem.s.kernel.taskTable other := by
    intro other hother
    rw [htable, Function.update_of_ne hother]
  have hself : later.s.kernel.taskTable pid = .task address { task with cpu := cpu } := by
    rw [htable, Function.update_self]
  refine ⟨fun other hother _ => hslots other hother, ?_, ?_, ?_, ?_, ?_⟩
  · intro other
    by_cases heq : other = pid
    · simp [heq, hslot, hself, Slot.record]
    · rw [hslots other heq]
  · intro other handle
    by_cases heq : other = pid
    · simp [heq, State.table, hslot, hself, Slot.handlesV2]
    · rw [State.table, State.table, hslots other heq]
  · simp [hdrivers.devfsHandles]
  · simp [hdrivers.echfsHandles]
  · simp [hbitmap]

theorem cloneDescriptors_closed {table : List FileHandleV2} (hclosed : ∀ entry ∈ table, entry.free = true)
    {cloned : List FileHandleV2 × Memory} (hclone : mem.cloneDescriptors table = some cloned) :
    cloned.2 = mem := by
  induction table generalizing cloned with
  | nil =>
      cases hclone
      rfl
  | cons entry rest ih =>
      rw [Memory.cloneDescriptors, if_pos (hclosed entry List.mem_cons_self)] at hclone
      obtain ⟨tail, htail, rfl⟩ := Option.map_eq_some_iff.mp hclone
      have hrest := ih (fun other hother => hclosed other (List.mem_cons_of_mem _ hother)) htail
      exact hrest

-- A copy of a handle is a trace.
theorem NoTrace.not_copied (hnone : NoTrace mem later pid) {s : State} (hquiet : Quiet mem.s s)
    (hdrivers : SameDrivers copied.s later.s) {old new : FileHandleV2}
    (hcopy : HandleCopy s copied.s old new) : False := by
  obtain ⟨node, hinternal, habsent, hpresent⟩ := hcopy.created
  obtain ⟨mountpoint, -, rfl⟩ := Option.map_eq_some_iff.mp hinternal
  cases mountpoint with
  | devfs =>
      simp only [Mountpoint.node, State.refers, ne_eq, Option.map_eq_none_iff, hquiet.devfsHandles] at *
      rw [← hdrivers.devfsHandles, hnone.devfs] at hpresent
      exact hpresent habsent
  | echfs m device =>
      simp only [Mountpoint.node, State.refers, ne_eq, Option.map_eq_none_iff, hquiet.echfsHandles] at *
      rw [← hdrivers.echfsHandles, hnone.echfs] at hpresent
      exact hpresent habsent

-- A fork that goes as far as task_create.
theorem Refused.noTrace_iff {start : Memory}
    (hrefused : Refused copied later pid address { task with cpu := cpu } copies)
    (hslot : mem.s.kernel.taskTable pid = .task address task)
    (halive : ∀ entry ∈ task.handlesV2, entry.free = false → Alive mem.s entry)
    (hquiet : Quiet mem.s start.s) (hblocks : ThreeBlocks mem.s.kernel.heap start.s.kernel.heap copies)
    (hclone : start.cloneDescriptors task.handlesV2 = some (copies.descriptors, copied)) :
    NoTrace mem later pid ↔ (∀ handle ∈ task.handlesV2, handle.free = true) ∧
      ∀ child, freePid mem.s.kernel.taskTable KRNL_MAX_TASKS 0 = some child →
        mem.s.kernel.taskTable child = .empty := by
  obtain ⟨table, hsearched, htable⟩ := hrefused.taskTable
  -- without an open descriptor the copies change nothing
  have hstart : (∀ handle ∈ task.handlesV2, handle.free = true) → copied = start :=
    fun hclosed => cloneDescriptors_closed hclosed hclone
  constructor
  · intro hnone
    have hclosed : ∀ handle ∈ task.handlesV2, handle.free = true := by
      intro handle hhandle
      by_contra hopen
      have hlive := Bool.eq_false_iff.mpr hopen
      obtain ⟨-, hentries, -⟩ := cloneDescriptors_copies (Quiet.refl start.s).kept
        (fun entry hentry hlive => (halive entry hentry hlive).mono hquiet.kept) hclone
      obtain ⟨slot, hslot⟩ := List.mem_iff_getElem?.mp hhandle
      obtain ⟨hlt, hget⟩ := List.getElem?_eq_some_iff.mp hslot
      have hcopy := (hentries.get hlt (hentries.length_eq ▸ hlt)).copy
      rw [List.get_eq_getElem, hget] at hcopy
      exact hnone.not_copied hquiet hrefused.drivers (hcopy hlive)
    refine ⟨hclosed, fun child hchild => ?_⟩
    rw [hstart hclosed, hquiet.taskTable] at hsearched
    have hfree := (freePid_free hchild).2
    rcases hsearched with ⟨hfull, -⟩ | ⟨other, hother, rfl⟩
    · rw [hfull] at hchild
      cases hchild
    · rw [hother] at hchild
      cases hchild
      have hne : child ≠ pid := by
        rintro rfl
        simp [hslot, Slot.status] at hfree
      have hrecord := hnone.record child
      rw [htable, Function.update_of_ne hne, Function.update_self] at hrecord
      cases hthere : mem.s.kernel.taskTable child with
      | empty => rfl
      | null => simp [hthere, Slot.record] at hrecord
      | task address task => simp [hthere, Slot.status] at hfree
  · rintro ⟨hclosed, hempty⟩
    have hdrivers := hrefused.drivers
    have hfreed := hrefused.freed
    rw [hstart hclosed] at hsearched hdrivers hfreed
    rw [hquiet.taskTable] at hsearched
    have hsame := hquiet.drivers.trans hdrivers
    have hbitmap := hfreed _ hblocks
    refine @NoTrace.of_state mem later pid address task { cpu with eax := EchidnaOS.FAILURE } hslot ?_ hsame hbitmap
    rcases hsearched with ⟨-, rfl⟩ | ⟨child, hchild, rfl⟩
    · exact htable
    · rw [← hempty child hchild, Function.update_eq_self] at htable
      exact htable

theorem hasRoom_setCpu (mem : Memory) (task : Task) (cpu : GprState) :
    mem.HasRoom { task with cpu := cpu } ↔ mem.HasRoom task := by
  unfold Memory.HasRoom
  exact Iff.rfl

theorem fork_leaves_no_trace_iff (hpid : pid ≠ 0) (hheap : HeapOk mem.s.kernel.heap fun _ => False)
    (hslot : mem.s.kernel.taskTable pid = .task address task)
    (halive : ∀ entry ∈ task.handlesV2, entry.free = false → Alive mem.s entry)
    (hfork : mem.taskFork pid cpu = some later)
    (hfail : Slot.eax (later.s.kernel.taskTable pid) = EchidnaOS.FAILURE) :
    NoTrace mem later pid ↔ Traceless mem task := by
  unfold Memory.taskFork at hfork
  rw [hslot] at hfork
  obtain ⟨⟨result, copied⟩, hcopies, hlater⟩ := Option.map_eq_some_iff.mp hfork
  dsimp only at hlater
  rcases forkCopies_spec hheap hcopies with
    ⟨rfl, hroom, hsame, hbitmap⟩ | ⟨copies, start, rfl, hroom, hsame, hblocks, hclone⟩
  · rw [hasRoom_setCpu] at hroom
    have hquiet := hsame.quiet
    dsimp only at hlater
    have hdrivers : SameDrivers mem.s later.s := by
      rw [← hlater]
      exact hquiet.drivers.trans (forkFail_drivers copied)
    refine iff_of_true ?_ fun h => absurd h hroom
    refine @NoTrace.of_state mem later pid address task { cpu with eax := EchidnaOS.FAILURE } hslot ?_ hdrivers ?_
    · rw [← hlater, Memory.forkFail, Memory.setSlot, Kernel.setTask]
      dsimp only
      rw [hquiet.taskTable]
      rfl
    · rw [← hlater, forkFail_heap, hbitmap]
  · rw [hasRoom_setCpu] at hroom
    dsimp only at hlater
    have hslot' : copied.s.kernel.taskTable pid = .task address task := by
      rw [(cloneDescriptors_tasks hpid hclone).1, hsame.quiet.taskTable, hslot]
    rw [← hlater] at hfail
    have hrefused := forkTask_refused (by simp [hslot', Slot.status]) hfail
    rw [hlater] at hrefused
    rw [Traceless, imp_iff_right hroom]
    exact hrefused.noTrace_iff hslot halive hsame.quiet hblocks hclone

-- A machine with less memory.
def crowded (pages : Nat) : Option Memory :=
  booted.map fun start => { start with s.kernel.heap.pmm.highestPage := pages * PAGE_SIZE }

def Memory.isDevice (mem : Memory) (entry : FileHandleV2) : Bool :=
  match mem.s.mountpoint entry.mountpoint with
  | some .devfs => (inUse (·.free) mem.s.devfsHandles entry.internalHandle).isSome
  | _ => false

theorem alive_of_device {entry : FileHandleV2} (hdevice : mem.isDevice entry = true) : Alive mem.s entry := by
  unfold Memory.isDevice at hdevice
  unfold Alive
  split at hdevice
  · rename_i hmount
    rw [hmount]
    exact Option.isSome_iff_exists.mp hdevice
  · cases hdevice

-- A task that has only devices open, and no room for another one.
def Memory.cramped (mem : Memory) (pid : Nat) : Bool :=
  match mem.s.kernel.taskTable pid with
  | .task _ task => (∀ entry ∈ task.handlesV2, mem.isDevice entry = true) ∧ ¬mem.HasRoom task
  | _ => false

theorem failed_fork_without_trace : ∃ start middle later, crowded 140 = some start ∧
    start.taskStep startA = some middle ∧ middle.taskFork 1 {} = some later ∧
    Slot.eax (later.s.kernel.taskTable 1) = EchidnaOS.FAILURE ∧ NoTrace middle later 1 := by
  have hrun : (crowded 140).any (fun start => (start.taskStep startA).any (fun middle =>
      (middle.s.kernel.heap.pmm.bitmap 0 = true ∧
        middle.s.kernel.heap.pmm.lastUsedIndex ≤ middle.s.kernel.heap.pmm.pageLimit ∧
        middle.s.kernel.heap.pmm.pageLimit < 2 ^ 20) ∧ middle.cramped 1 = true ∧
      (middle.taskFork 1 {}).any (fun later =>
        Slot.eax (later.s.kernel.taskTable 1) = EchidnaOS.FAILURE) = true)) = true := by
    decide +kernel
  obtain ⟨start, hstart, hruns⟩ := (Option.any_eq_true _ _).mp hrun
  obtain ⟨middle, hmiddle, hruns⟩ := (Option.any_eq_true _ _).mp hruns
  obtain ⟨⟨hzero, hlast, hlimit⟩, hcramped, hforks⟩ := of_decide_eq_true hruns
  obtain ⟨later, hlater, hfails⟩ := (Option.any_eq_true _ _).mp hforks
  have hheap : HeapOk middle.s.kernel.heap fun _ => False :=
    ⟨hzero, hlast, hlimit, by simp, by simp, by simp, by simp, by simp, by simp⟩
  refine ⟨start, middle, later, hstart, hmiddle, hlater, of_decide_eq_true hfails, ?_⟩
  unfold Memory.cramped at hcramped
  split at hcramped
  · rename_i address task hslot
    obtain ⟨hdevices, hroom⟩ := of_decide_eq_true hcramped
    exact (fork_leaves_no_trace_iff (by decide) hheap hslot
      (fun entry hentry _ => alive_of_device (hdevices entry hentry)) hlater (of_decide_eq_true hfails)).mpr
      fun h => absurd h hroom
  · cases hcramped

theorem failed_fork_leaks_handles : ∃ start middle later, crowded 170 = some start ∧
    start.taskStep startA = some middle ∧ middle.taskFork 1 {} = some later ∧
    Slot.eax (later.s.kernel.taskTable 1) = EchidnaOS.FAILURE ∧ ¬NoTrace middle later 1 := by
  have hrun : (crowded 170).any (fun start => (start.taskStep startA).any (fun middle =>
      (inUse (·.free) middle.s.devfsHandles 3).isSome = false ∧
        (middle.taskFork 1 {}).any (fun later =>
          Slot.eax (later.s.kernel.taskTable 1) = EchidnaOS.FAILURE ∧
            (inUse (·.free) later.s.devfsHandles 3).isSome = true) = true)) = true := by
    decide +kernel
  obtain ⟨start, hstart, hruns⟩ := (Option.any_eq_true _ _).mp hrun
  obtain ⟨middle, hmiddle, hruns⟩ := (Option.any_eq_true _ _).mp hruns
  obtain ⟨habsent, hforks⟩ := of_decide_eq_true hruns
  obtain ⟨later, hlater, hfails⟩ := (Option.any_eq_true _ _).mp hforks
  obtain ⟨hfail, hpresent⟩ := of_decide_eq_true hfails
  refine ⟨start, middle, later, hstart, hmiddle, hlater, hfail, fun hnone => ?_⟩
  rw [hnone.devfs, habsent] at hpresent
  cases hpresent

end EchidnaOS.Vfs
