import EchidnaOS.Klib.Heap.Objects
import EchidnaOS.Lib.PointerArray
import EchidnaOS.Task.Execve
import EchidnaOS.Task.Memory.Run

namespace EchidnaOS

open EchidnaOS.Lib EchidnaOS.Lib.ByteStore EchidnaOS.Lib.PointerArray EchidnaOS.Klib

def Request.size : Request → Nat
  | .alloc _ size => size
  | .resize _ size => size
  | .free _ => 0

def Activity.requests (vfs : Activity) : List Request :=
  vfs.load ++ vfs.stdin.requests ++ vfs.stdout.requests ++ vfs.stderr.requests

-- The pointers that the rest of the kernel keeps are those of live objects of its own.
structure KernelObjects (heap : Heap) (others : Nat → Nat) (owner : Nat → Option Owner) : Prop where
  tagged : Tagged heap owner
  others : ∀ name, others name ≠ 0 → owner (others name) = some (.other name)

-- The bytes that kalloc is asked for, in the 32-bit arithmetic of `size_t`.
def imageBytes (size : Nat) : Nat := programPages size * PAGE_SIZE % 2 ^ 32

-- The bytes of the program that vfs_kuread delivers.
def loadedBytes (size : Nat) : Nat := if size % 2 ^ 32 < 2 ^ 31 then size % 2 ^ 32 else 0

-- Where the arguments end in the image: their pointers, and their strings if there are any.
def argumentsEnd (argv : List CString) : Nat :=
  max (0x1010 + 4 * (argv.length + 1)) (if argv = [] then 0 else 0x4000 + stringBytes argv)

def argvPointer (mem : Store) (base index : Nat) : Nat := word mem (base + 0x1010 + 4 * index)

-- The image of a new task, a block of that size.
structure HoldsArguments (mem : Store) (base size : Nat) (argv : List CString) (file : ProgramFile) :
    Prop where
  argc : word mem (base + 0x1000) = argv.length
  room : 0x1010 + 4 * (argv.length + 1) ≤ size
  copies : ∀ index (hindex : index < argv.length),
    StringAt mem (base + argvPointer mem base index) argv[index] ∧
      argvPointer mem base index + argv[index].length + 1 ≤ size
  null : argvPointer mem base argv.length = 0
  apart : ∀ index second (hsecond : second < argv.length) (hindex : index < second),
    argvPointer mem base index + argv[index].length + 1 ≤ argvPointer mem base second
  program : ∀ offset, TASK_RESERVED_SPACE ≤ offset → offset < size →
    mem (base + offset) =
      if offset - TASK_RESERVED_SPACE < loadedBytes file.size
      then file.bytes (offset - TASK_RESERVED_SPACE) else 0

def LaunchedWith (k : Kernel) (pid : Nat) (argv : List CString) (file : ProgramFile) : Prop :=
  ∃ address task, k.taskTable pid = .task address task ∧
    HoldsArguments k.heap.mem task.base (k.heap.metadata task.base).size argv file

-- A block that only a local variable refers to, and that nothing has changed since `before`.
structure LeftAlone (before heap : Heap) (others : Nat → Nat) (owner : Nat → Option Owner)
    (base : Nat) : Prop where
  objects : KernelObjects heap others owner
  loose : owner base = some .loose
  metadata : heap.metadata base = before.metadata base
  mem : ∀ address, before.inObject base address → heap.mem address = before.mem address

variable {k : Kernel} {before heap : Heap} {others : Nat → Nat} {owner : Nat → Option Owner}
  {current base child old size : Nat} {tag : Owner}

theorem Owned.kernelObjects {ldts : Nat → Prop} (howned : Owned ldts k owner) :
    KernelObjects k.heap k.others owner :=
  ⟨howned.tagged, howned.others⟩

theorem KernelObjects.owned (hobjects : KernelObjects heap others owner) :
    Owned (fun _ => False) ⟨heap, fun _ => .null, others⟩ owner where
  tagged := hobjects.tagged
  others := hobjects.others
  tasks _ _ _ hslot := by cases hslot
  arrays _ harray := harray.elim

-- A request is the same whatever the task table.
theorem request_table (k : Kernel) (table : Nat → Slot) (req : Request) :
    ({ k with taskTable := table } : Kernel).request req = { k.request req with taskTable := table } := by
  cases req with
  | alloc name size =>
      simp only [Kernel.request]
      split <;> rfl
  | resize name size =>
      simp only [Kernel.request]
      split
      · rfl
      · split <;> rfl
  | free name =>
      simp only [Kernel.request]
      split <;> rfl

theorem request_mem (hobjects : KernelObjects k.heap k.others owner) {req : Request}
    (hsize : req.size ≤ MAX_SIZE) (hlive : owner base ≠ none) {address : Nat}
    (hin : k.heap.inObject base address) : (k.request req).heap.mem address = k.heap.mem address := by
  cases req with
  | alloc name size =>
      simp only [Kernel.request]
      split
      · exact kalloc_mem hobjects.tagged size hlive hin
      · rfl
  | resize name size =>
      simp only [Kernel.request]
      split
      · rfl
      · rename_i hname
        have hother : owner (k.others name) ≠ none := by
          rw [hobjects.others name hname]
          exact Option.some_ne_none _
        have hmem := krealloc_mem hobjects.tagged hother hsize hlive hin
        split
        · exact hmem
        · exact hmem
  | free name =>
      simp only [Kernel.request]
      split
      · rfl
      · rw [kfree_mem]

theorem LeftAlone.inObject (halone : LeftAlone before heap others owner base) {address : Nat}
    (hin : before.inObject base address) : heap.inObject base address := by
  unfold Heap.inObject Heap.pageEnd at *
  rw [halone.metadata]
  exact hin

theorem LeftAlone.live (halone : LeftAlone before heap others owner base) : owner base ≠ none := by
  rw [halone.loose]
  exact Option.some_ne_none _

theorem LeftAlone.request (halone : LeftAlone before k.heap k.others owner base) {req : Request}
    (hsize : req.size ≤ MAX_SIZE) :
    ∃ owner', LeftAlone before (k.request req).heap (k.request req).others owner' base ∧
      Kept (fun tag => tag.named = false) k.heap (k.request req).heap owner owner' := by
  obtain ⟨owner', howned, hkept⟩ := halone.objects.owned.request req
  have hsame := request_table k (fun _ => .null) req
  rw [show (⟨k.heap, fun _ => .null, k.others⟩ : Kernel) = { k with taskTable := fun _ => .null } from rfl,
    hsame] at howned hkept
  obtain ⟨hloose, hmeta⟩ := hkept base .loose rfl halone.loose
  refine ⟨owner', ⟨howned.kernelObjects, hloose, hmeta.trans halone.metadata, ?_⟩, hkept⟩
  intro address hin
  rw [request_mem halone.objects hsize halone.live (halone.inObject hin)]
  exact halone.mem address hin

theorem LeftAlone.requests (halone : LeftAlone before k.heap k.others owner base)
    {reqs : List Request} (hsizes : ∀ req ∈ reqs, req.size ≤ MAX_SIZE) :
    ∃ owner', LeftAlone before (k.requests reqs).heap (k.requests reqs).others owner' base ∧
      Kept (fun tag => tag.named = false) k.heap (k.requests reqs).heap owner owner' := by
  induction reqs generalizing k owner with
  | nil => exact ⟨owner, halone, .refl _ _ _⟩
  | cons req rest ih =>
      obtain ⟨hsize, hrest⟩ := List.forall_mem_cons.mp hsizes
      obtain ⟨middle, hmiddle, hkept⟩ := halone.request hsize
      obtain ⟨last, hlast, hkept'⟩ := ih hmiddle hrest
      exact ⟨last, hlast, hkept.trans hkept'⟩

-- What the heap does for a task keeps the block, unless it is what the tag is about.
theorem LeftAlone.of_kept (halone : LeftAlone before heap others owner base) {next : Heap}
    {owner' : Nat → Option Owner} (htagged : Tagged next owner')
    (hkept : Kept (· ≠ tag) heap next owner owner') (hloose : tag ≠ .loose)
    (hnamed : tag.named = false)
    (hmem : ∀ address, heap.inObject base address → next.mem address = heap.mem address) :
    LeftAlone before next others owner' base := by
  obtain ⟨hbase, hmeta⟩ := hkept base .loose hloose.symm halone.loose
  refine ⟨⟨htagged, ?_⟩, hbase, hmeta.trans halone.metadata, ?_⟩
  · intro name hname
    refine (hkept _ _ ?_ (halone.objects.others name hname)).1
    rintro rfl
    cases hnamed
  · intro address hin
    rw [hmem address (halone.inObject hin)]
    exact halone.mem address hin

theorem realloc_field_mem (htagged : Tagged heap owner) (hold : old ≠ 0 → owner old = some tag)
    (hsize : size ≤ MAX_SIZE) (hlive : owner base ≠ none) (address : Nat)
    (hin : heap.inObject base address) : (krealloc heap old size).2.mem address = heap.mem address := by
  by_cases hnull : old = 0
  · rw [krealloc, if_pos hnull]
    exact kalloc_mem htagged size hlive hin
  · have hother : owner old ≠ none := by
      rw [hold hnull]
      exact Option.some_ne_none _
    exact krealloc_mem htagged hother hsize hlive hin

-- The task of a launch, while its descriptors are made. The counts keep the arrays small.
structure ChildTask (k : Kernel) (owner : Nat → Option Owner) (child base count countV2 : Nat)
    (address : Nat) (task : Task) : Prop where
  slot : k.taskTable child = .task address task
  base : task.base = base
  handles : task.fileHandles ≠ 0 → owner task.fileHandles = some (.handles child)
  handlesV2 : task.fileHandlesV2 ≠ 0 → owner task.fileHandlesV2 = some (.handlesV2 child)
  count : task.fileHandlesPtr ≤ count
  countV2 : task.handlesV2.length ≤ countV2

structure Launching (before : Heap) (k : Kernel) (child base count countV2 : Nat)
    (owner : Nat → Option Owner) : Prop where
  alone : LeftAlone before k.heap k.others owner base
  task : ∃ address task, ChildTask k owner child base count countV2 address task

variable {count countV2 : Nat}

theorem Launching.createFileHandle (hlaunching : Launching before k child base count countV2 owner)
    (hcount : count < 4) : ∃ owner',
      Launching before (createFileHandle k child) child base (count + 1) countV2 owner' := by
  obtain ⟨halone, address, task, htask⟩ := hlaunching
  have hsmall := htask.count
  have hsize : (task.fileHandlesPtr + 1) * SIZEOF_FILE_HANDLE % 2 ^ 32 ≤ MAX_SIZE := by
    refine (Nat.mod_le _ _).trans ?_
    simp only [SIZEOF_FILE_HANDLE, MAX_SIZE, PAGE_SIZE]
    omega
  obtain ⟨owner', htagged, hkept, hnew⟩ := halone.objects.tagged.realloc_field htask.handles
    ((task.fileHandlesPtr + 1) * SIZEOF_FILE_HANDLE % 2 ^ 32)
  have halone' := halone.of_kept htagged hkept (by simp) rfl
    (realloc_field_mem halone.objects.tagged htask.handles hsize halone.live)
  unfold EchidnaOS.createFileHandle
  rw [htask.slot]
  exact ⟨owner', halone', address, _, setTask_same _ _ _ _, htask.base, hnew,
    fun h => (hkept _ _ (by simp) (htask.handlesV2 h)).1, Nat.succ_le_succ hsmall, htask.countV2⟩

theorem Launching.createFileHandleV2 (hlaunching : Launching before k child base count countV2 owner)
    (hcount : countV2 < 4) (handle : FileHandleV2) : ∃ owner',
      Launching before (createFileHandleV2 k child handle) child base count (countV2 + 1) owner' := by
  obtain ⟨halone, address, task, htask⟩ := hlaunching
  have hsmall := htask.countV2
  have hlength : (SlotTable.create (·.free) task.handlesV2 handle).2.length ≤ countV2 + 1 := by
    have hcreate := SlotTable.create_length_le (·.free) task.handlesV2 handle
    omega
  unfold EchidnaOS.createFileHandleV2
  rw [htask.slot]
  dsimp only
  split
  · exact ⟨owner, halone, address, _, setTask_same _ _ _ _, htask.base, htask.handles, htask.handlesV2,
      htask.count, hlength⟩
  · have hsize : (task.handlesV2.length + 1) * SIZEOF_FILE_HANDLE_V2 % 2 ^ 32 ≤ MAX_SIZE := by
      refine (Nat.mod_le _ _).trans ?_
      simp only [SIZEOF_FILE_HANDLE_V2, MAX_SIZE, PAGE_SIZE]
      omega
    obtain ⟨owner', htagged, hkept, hnew⟩ := halone.objects.tagged.realloc_field htask.handlesV2
      ((task.handlesV2.length + 1) * SIZEOF_FILE_HANDLE_V2 % 2 ^ 32)
    have halone' := halone.of_kept htagged hkept (by simp) rfl
      (realloc_field_mem halone.objects.tagged htask.handlesV2 hsize halone.live)
    exact ⟨owner', halone', address, _, setTask_same _ _ _ _, htask.base,
      fun h => (hkept _ _ (by simp) (htask.handles h)).1, hnew, htask.count, hlength⟩

theorem Launching.openStream (hlaunching : Launching before k child base count countV2 owner)
    (hcount : countV2 < 4) {stream : Stream} (hsizes : ∀ req ∈ stream.requests, req.size ≤ MAX_SIZE) :
    ∃ owner', Launching before (openStream k child stream) child base count (countV2 + 1) owner' := by
  obtain ⟨halone, address, task, htask⟩ := hlaunching
  obtain ⟨owner', halone', hkept⟩ := halone.requests hsizes
  have hrequested : Launching before (k.requests stream.requests) child base count countV2 owner' :=
    ⟨halone', address, task, by rw [requests_taskTable]; exact htask.slot, htask.base,
      fun h => (hkept _ _ rfl (htask.handles h)).1, fun h => (hkept _ _ rfl (htask.handlesV2 h)).1,
      htask.count, htask.countV2⟩
  exact hrequested.createFileHandleV2 hcount stream.handle

theorem Launching.openStreams (hlaunching : Launching before k child base 0 0 owner) {vfs : Activity}
    (hsizes : ∀ req ∈ vfs.requests, req.size ≤ MAX_SIZE) :
    ∃ owner', Launching before (openStreams k child vfs) child base 3 3 owner' := by
  simp only [Activity.requests, List.forall_mem_append] at hsizes
  obtain ⟨⟨⟨-, hstdin⟩, hstdout⟩, hstderr⟩ := hsizes
  obtain ⟨owner₁, hlaunching₁⟩ := hlaunching.createFileHandle (by decide)
  obtain ⟨owner₂, hlaunching₂⟩ := hlaunching₁.createFileHandle (by decide)
  obtain ⟨owner₃, hlaunching₃⟩ := hlaunching₂.createFileHandle (by decide)
  obtain ⟨owner₄, hlaunching₄⟩ := hlaunching₃.openStream (by decide) hstdin
  obtain ⟨owner₅, hlaunching₅⟩ := hlaunching₄.openStream (by decide) hstdout
  exact hlaunching₅.openStream (by decide) hstderr

theorem LeftAlone.create (halone : LeftAlone before k.heap k.others owner base) {new : Task}
    (hcreate : (taskCreate k new).1 = some child) :
    ∃ owner' address, LeftAlone before (taskCreate k new).2.heap (taskCreate k new).2.others owner' base ∧
      (taskCreate k new).2.taskTable child = .task address new := by
  unfold taskCreate at hcreate ⊢
  cases hfree : freePid k.taskTable KRNL_MAX_TASKS 0 with
  | none => simp [hfree] at hcreate
  | some newPid =>
      simp only [hfree] at hcreate ⊢
      rcases halone.objects.tagged.alloc SIZEOF_TASK (.entry newPid) with
        ⟨hnull, -⟩ | ⟨hne, -, htagged, -, hkept⟩
      · rw [if_pos hnull] at hcreate
        cases hcreate
      · rw [if_neg hne] at hcreate ⊢
        obtain rfl := Option.some.inj hcreate
        exact ⟨_, _, halone.of_kept htagged (hkept.mono fun _ _ => trivial)
          (by simp : Owner.entry newPid ≠ .loose) rfl
          (fun _ => kalloc_mem halone.objects.tagged SIZEOF_TASK halone.live),
          Function.update_self _ _ _⟩

theorem loadProgram_congr {mem other : Store} {address : Nat} (hsame : mem address = other address)
    (base : Nat) (file : ProgramFile) : loadProgram mem base file address = loadProgram other base file address := by
  simp only [loadProgram, write, hsame]

-- What the launch leaves in the block: the program, and then the arguments.
theorem launch_image (halone : LeftAlone before k.heap k.others owner base) {info : TaskInfo}
    {file : ProgramFile} {vfs : Activity} (hsizes : ∀ req ∈ vfs.requests, req.size ≤ MAX_SIZE)
    (hlaunch : (launch k current base info file vfs).1 = some child) :
    ∃ address task final, (launch k current base info file vfs).2.taskTable child = .task address task ∧
      task.base = base ∧
      (launch k current base info file vfs).2.heap.metadata base = before.metadata base ∧
      (launch k current base info file vfs).2.heap.mem = marshalArgv final base info.argv ∧
      ∀ address, before.inObject base address →
        final address = loadProgram before.mem base file address := by
  have hload : ∀ req ∈ vfs.load, req.size ≤ MAX_SIZE := by
    intro req hreq
    exact hsizes req (by simp [Activity.requests, hreq])
  obtain ⟨owner₁, halone₁, -⟩ := halone.requests hload
  unfold launch at hlaunch ⊢
  dsimp only at hlaunch ⊢
  generalize hloaded : ({ k.requests vfs.load with
    heap.mem := loadProgram (k.requests vfs.load).heap.mem base file } : Kernel) = loaded at hlaunch ⊢
  have halone₂ : LeftAlone loaded.heap loaded.heap loaded.others owner₁ base := by
    rw [← hloaded]
    exact ⟨⟨halone₁.objects.tagged.setMem _, halone₁.objects.others⟩, halone₁.loose, rfl, fun _ _ => rfl⟩
  have hcreated := @LeftAlone.create loaded loaded.heap owner₁ base child halone₂
    (newTask current base file)
  rcases htask : taskCreate loaded (newTask current base file) with ⟨result, created⟩
  rw [htask] at hcreated hlaunch
  cases result with
  | none => cases hlaunch
  | some newPid =>
      dsimp only at hlaunch hcreated
      obtain rfl : newPid = child := by
        split at hlaunch <;> exact Option.some.inj hlaunch
      obtain ⟨owner₃, address, halone₃, hslot⟩ := hcreated rfl
      dsimp only
      rw [hslot]
      dsimp only
      have hlaunching : Launching loaded.heap
          (created.setTask newPid address (setupTask (newTask current base file) file info)) newPid base 0 0
          owner₃ :=
        ⟨halone₃, address, _, setTask_same _ _ _ _, rfl, fun h => absurd rfl h, fun h => absurd rfl h,
          Nat.le_refl _, Nat.le_refl _⟩
      obtain ⟨owner₄, halone₄, address₄, task, hchild⟩ := hlaunching.openStreams hsizes
      refine ⟨address₄, task, _, hchild.slot, hchild.base, ?_, rfl, ?_⟩
      · rw [halone₄.metadata, ← hloaded]
        exact halone₁.metadata
      · intro place hin
        rw [halone₄.mem place, ← hloaded]
        · exact loadProgram_congr (halone₁.mem place hin) base file
        · rw [← hloaded]
          exact halone₁.inObject hin

theorem imageBytes_le (size : Nat) : imageBytes size ≤ MAX_SIZE := by
  simp only [imageBytes, MAX_SIZE, PAGE_SIZE]
  omega

-- A fresh block is cleared.
theorem kalloc_zero (htagged : Tagged heap owner) (hsize : size ≤ MAX_SIZE)
    (hne : (kalloc heap size).1 ≠ 0) {offset : Nat} (hoffset : offset < size) :
    (kalloc heap size).2.mem ((kalloc heap size).1 + offset) = 0 := by
  obtain ⟨-, -, ⟨hnull, -⟩ | ⟨page, -, hptr, -, -, -, -, hmem⟩⟩ := kalloc_taken htagged size
  · exact absurd hnull hne
  · have hfits := le_divRoundup_mul hsize
    rw [hmem, hptr, show (page + 1) * PAGE_SIZE + offset = page * PAGE_SIZE + (PAGE_SIZE + offset) by ring,
      write_inside]
    · simp
    · rw [List.length_replicate, Nat.add_mul, Nat.one_mul]
      omega

theorem loadProgram_byte {mem : Store} {offset : Nat} (hzero : mem (base + offset) = 0)
    (hoffset : TASK_RESERVED_SPACE ≤ offset) (file : ProgramFile) :
    loadProgram mem base file (base + offset) =
      if offset - TASK_RESERVED_SPACE < loadedBytes file.size
      then file.bytes (offset - TASK_RESERVED_SPACE) else 0 := by
  unfold loadProgram
  rw [← loadedBytes]
  have hplace : base + offset = base + TASK_RESERVED_SPACE + (offset - TASK_RESERVED_SPACE) := by omega
  by_cases hloaded : offset - TASK_RESERVED_SPACE < loadedBytes file.size
  · rw [if_pos hloaded, hplace, write_inside _ _ _ _ (by simpa using hloaded)]
    simp [List.getD, List.getElem?_range hloaded]
  · rw [if_neg hloaded, write_outside, hzero]
    simp only [List.length_map, List.length_range]
    omega

-- A launch that succeeds has a block of its own for the image, with the program in it when the
-- arguments are written.
theorem generalExecute_image (hobjects : KernelObjects k.heap k.others owner) {info : TaskInfo}
    {file : ProgramFile} {vfs : Activity} (hsizes : ∀ req ∈ vfs.requests, req.size ≤ MAX_SIZE)
    (hexecute : (generalExecute k current info (some file) vfs).1 = some child) :
    ∃ address task final,
      (generalExecute k current info (some file) vfs).2.taskTable child = .task address task ∧
      ((generalExecute k current info (some file) vfs).2.heap.metadata task.base).size =
        imageBytes file.size ∧
      (generalExecute k current info (some file) vfs).2.heap.mem =
        marshalArgv final task.base info.argv ∧
      ∀ offset, TASK_RESERVED_SPACE ≤ offset → offset < imageBytes file.size →
        final (task.base + offset) = if offset - TASK_RESERVED_SPACE < loadedBytes file.size
          then file.bytes (offset - TASK_RESERVED_SPACE) else 0 := by
  unfold generalExecute at hexecute ⊢
  dsimp only at hexecute ⊢
  rw [← imageBytes] at hexecute ⊢
  have hzero := fun hne offset => @kalloc_zero k.heap owner (imageBytes file.size) hobjects.tagged
    (imageBytes_le file.size) hne offset
  rcases hobjects.tagged.alloc (imageBytes file.size) .loose with
    ⟨hnull, -⟩ | ⟨hne, -, htagged, hsize, hkept⟩
  · rw [if_pos hnull] at hexecute
    cases hexecute
  · specialize hzero hne
    rw [if_neg hne] at hexecute ⊢
    generalize kalloc k.heap (imageBytes file.size) = result at *
    obtain ⟨block, fresh⟩ := result
    dsimp only at *
    have halone : LeftAlone fresh fresh k.others (Function.update owner block (some .loose)) block :=
      ⟨⟨htagged, fun name hname => (hkept _ _ trivial (hobjects.others name hname)).1⟩,
        Function.update_self _ _ _, rfl, fun _ _ => rfl⟩
    obtain ⟨address, task, final, hslot, rfl, hmeta, hmem, hfinal⟩ :=
      @launch_image { k with heap := fresh } _ _ current _ child halone info file vfs hsizes hexecute
    refine ⟨address, task, final, hslot, by rw [hmeta, hsize], hmem, ?_⟩
    intro offset hlow hhigh
    rw [hfinal]
    · exact loadProgram_byte (hzero offset hhigh) hlow file
    · refine HeapOk.data_in htagged halone.live ?_ (Nat.le_add_right _ _) ?_
      · rw [hsize]
        exact imageBytes_le _
      · rw [hsize]
        omega

theorem marshalArgv_eq (mem : Store) (base : Nat) (argv : List CString) :
    marshalArgv mem base argv = marshal base (base + 0x1010) 0x4000 argv
      (write mem (base + 0x1000) (leBytes 4 argv.length)) := by
  rw [marshalArgv, copyArgv_eq]

-- The arguments are where they belong whatever the size of the block; it decides whether they are
-- still inside it.
theorem holdsArguments_iff {argv : List CString} {file : ProgramFile} {final : Store}
    (hends : ∀ arg ∈ argv, 0 ∉ arg) (hpointers : 0x1010 + 4 * (argv.length + 1) ≤ 0x4000)
    (hstrings : 0x4000 + stringBytes argv ≤ TASK_RESERVED_SPACE)
    (hfinal : ∀ offset, TASK_RESERVED_SPACE ≤ offset → offset < size → final (base + offset) =
      if offset - TASK_RESERVED_SPACE < loadedBytes file.size
      then file.bytes (offset - TASK_RESERVED_SPACE) else 0) :
    HoldsArguments (marshalArgv final base argv) base size argv file ↔ argumentsEnd argv ≤ size := by
  rw [marshalArgv_eq]
  have hreserved : TASK_RESERVED_SPACE = 0x10000 := rfl
  generalize hfirst : write final (base + 0x1000) (leBytes 4 argv.length) = first
  obtain ⟨hlaid, hnull⟩ := @marshal_laid first base (base + 0x1010) 0x4000 argv hends (by omega)
    (by omega)
  have hkept : ∀ address, address < base + 0x1010 ∨ base + 0x10000 ≤ address →
      marshal base (base + 0x1010) 0x4000 argv first address = first address := by
    intro address hplace
    exact marshal_outside (by omega) (by omega)
  generalize marshal base (base + 0x1010) 0x4000 argv first = mem at *
  have hargv := fun index hindex => @Laid.getElem mem base (base + 0x1010) 0x4000 argv hlaid index hindex
  have hinside : ∀ index (hindex : index < argv.length),
      stringBytes (argv.take index) + argv[index].length + 1 ≤ stringBytes argv := by
    intro index hindex
    rw [← stringBytes_take_succ argv hindex]
    exact stringBytes_take_le argv _
  constructor
  · intro hholds
    rw [argumentsEnd, max_le_iff]
    refine ⟨hholds.room, ?_⟩
    cases hlast : argv.length with
    | zero => simp [List.length_eq_zero_iff.mp hlast]
    | succ last =>
        have hlt : last < argv.length := by omega
        have hend := (hholds.copies last hlt).2
        have hall := stringBytes_take_succ argv hlt
        rw [argvPointer, (hargv last hlt).1] at hend
        rw [← hlast, List.take_length] at hall
        split
        · exact Nat.zero_le _
        · omega
  · intro hfits
    obtain ⟨hroom, hbytes⟩ := max_le_iff.mp hfits
    refine ⟨?_, hroom, ?_, hnull, ?_, ?_⟩
    · have hcount : word mem (base + 0x1000) = word first (base + 0x1000) :=
        word_congr fun address _ hhigh => hkept address (by omega)
      rw [hcount, ← hfirst]
      exact word_write_self (by omega)
    · intro index hindex
      obtain ⟨hword, hat⟩ := hargv index hindex
      have hend := hinside index hindex
      rw [if_neg (List.ne_nil_of_length_pos (by omega))] at hbytes
      rw [argvPointer, hword]
      exact ⟨hat, by omega⟩
    · intro index second hsecond hindex
      have hprefix := stringBytes_take_le (argv.take second) (index + 1)
      rw [List.take_take, min_eq_left (by omega), stringBytes_take_succ argv (by omega)] at hprefix
      rw [argvPointer, argvPointer, (hargv index (by omega)).1, (hargv second hsecond).1]
      omega
    · intro offset hlow hhigh
      rw [hkept _ (by omega), ← hfirst, write_outside _ _ _ _ (by rw [leBytes_length]; omega)]
      exact hfinal offset hlow hhigh

-- A launch that succeeds passes the arguments on exactly when the image has room for them. It has
-- not where the size of the program makes the bytes of the image pass 32 bits.
theorem generalExecute_passes_iff (hobjects : KernelObjects k.heap k.others owner) {info : TaskInfo}
    {file : ProgramFile} {vfs : Activity} (hsizes : ∀ req ∈ vfs.requests, req.size ≤ MAX_SIZE)
    (hends : ∀ arg ∈ info.argv, 0 ∉ arg)
    (hpointers : 0x1010 + 4 * (info.argv.length + 1) ≤ 0x4000)
    (hstrings : 0x4000 + stringBytes info.argv ≤ TASK_RESERVED_SPACE)
    (hexecute : (generalExecute k current info (some file) vfs).1 = some child) :
    LaunchedWith (generalExecute k current info (some file) vfs).2 child info.argv file ↔
      argumentsEnd info.argv ≤ imageBytes file.size := by
  obtain ⟨address, task, final, hslot, hsize, hmem, hfinal⟩ :=
    generalExecute_image hobjects hsizes hexecute
  have hholds := holdsArguments_iff hends hpointers hstrings hfinal
  constructor
  · rintro ⟨address', task', hslot', hlaunched⟩
    rw [hslot] at hslot'
    cases hslot'
    rw [hsize, hmem] at hlaunched
    exact hholds.mp hlaunched
  · intro hfits
    refine ⟨address, task, hslot, ?_⟩
    rw [hsize, hmem]
    exact hholds.mpr hfits

-- The kernel task launches programs with the argument "a".
def launcher : Kernel where
  heap := emptyHeap
  taskTable := Function.update (fun _ => .null) 0 (.task PAGE_SIZE { status := .res })
  others := fun _ => 0

def letterInfo : TaskInfo := { plainInfo with argv := [[97]], argv_fit := by decide }

-- With the reserved space and the stack it has exactly four gigabytes.
def hugeProgram : ProgramFile := ⟨2 ^ 32 - 0x20000, fun _ => 0⟩

theorem launcher_objects : KernelObjects launcher.heap launcher.others fun _ => none where
  tagged := emptyHeap_ok fun _ hlive => hlive rfl
  others _ hname := absurd rfl hname

theorem generalExecute_passes_letter :
    LaunchedWith (generalExecute launcher 0 letterInfo (some emptyProgram) {}).2 1 letterInfo.argv
      emptyProgram :=
  (generalExecute_passes_iff launcher_objects (by simp [Activity.requests]) (by decide) (by decide)
    (by decide) (by decide +kernel)).mpr (by decide)

-- The image is a block without a byte, and the launch succeeds.
theorem generalExecute_overruns :
    (generalExecute launcher 0 letterInfo (some hugeProgram) {}).1 = some 1 ∧
      0x1010 + 4 * (letterInfo.argv.length + 1) ≤ 0x4000 ∧
      0x4000 + stringBytes letterInfo.argv ≤ TASK_RESERVED_SPACE ∧
      ¬ LaunchedWith (generalExecute launcher 0 letterInfo (some hugeProgram) {}).2 1 letterInfo.argv
        hugeProgram := by
  have hexecute : (generalExecute launcher 0 letterInfo (some hugeProgram) {}).1 = some 1 := by
    decide +kernel
  refine ⟨hexecute, by decide, by decide, ?_⟩
  obtain ⟨address, task, final, hslot, hsize, -⟩ :=
    generalExecute_image launcher_objects (by simp [Activity.requests]) hexecute
  rintro ⟨address', task', hslot', hlaunched⟩
  rw [hslot] at hslot'
  cases hslot'
  have hroom := hlaunched.room
  rw [hsize] at hroom
  exact absurd hroom (by decide)

end EchidnaOS
