import EchidnaOS.Task.Step
import EchidnaOS.Vfs.CacheMemory.Live
import EchidnaOS.Vfs.Handles

namespace EchidnaOS.Vfs

open EchidnaOS.Lib EchidnaOS.Lib.SlotTable EchidnaOS.Lib.ByteStore EchidnaOS.Klib EchidnaOS.Devfs EchidnaOS.Echfs

def O_RDONLY : Nat := 2
def O_WRONLY : Nat := 5

-- The pointers to heap objects that an entry of `task_table` stands for.
inductive Field where
  | entry | image | handles | descriptors | ldt
  deriving DecidableEq

def Slot.field : Slot → Field → Nat
  | .task address _, .entry => address
  | .task _ task, .image => task.base
  | .task _ task, .handles => task.fileHandles
  | .task _ task, .descriptors => task.fileHandlesV2
  | .task _ task, .ldt => task.ldt
  | _, _ => 0

-- The pointers that the kernel keeps: those of its tasks, the tables of the file systems, the
-- `alloc_map` of each cached file, and the other globals.
inductive Root where
  | task (pid : Nat) (field : Field)
  | cachedFiles
  | allocMap (slot : Nat)
  | devfsHandles
  | echfsHandles
  | other (name : Nat)
  deriving DecidableEq

-- What task_fork has allocated for the new task, and the copy of the descriptors.
structure Copies where
  base : Nat
  handles : Nat
  handlesV2 : Nat
  descriptors : List FileHandleV2

-- What vfs_translate_mnt makes of a path.
structure Target where
  mountpoint : Int
  path : Path

structure Streams where
  stdin : Target
  stdout : Target
  stderr : Target

namespace Memory

def root (mem : Memory) : Root → Nat
  | .task pid field => Slot.field (mem.s.kernel.taskTable pid) field
  | .cachedFiles => mem.s.cachedFiles
  | .allocMap slot => if slot < mem.s.cachedFilesPtr then mem.maps slot else 0
  | .devfsHandles => mem.devfsArray
  | .echfsHandles => mem.echfsArray
  | .other name => mem.s.kernel.others name

def alloc (mem : Memory) (size : Nat) : Nat × Memory :=
  let block := kalloc mem.s.kernel.heap size
  if block.1 = 0 then (0, { mem with s.kernel.heap := block.2 })
  else (block.1, { mem with s.kernel.heap := block.2, live := block.1 :: mem.live })

-- create_file_handle, and create_file_handle_v2 with the number that it returns. The tables are
-- written without a look at what krealloc returned; `none` is NULL.
def createHandle (mem : Memory) (pid : Nat) : Option Memory :=
  let created := createFileHandle mem.s.kernel pid
  if Slot.field (created.taskTable pid) .handles = 0 then none
  else
    some { mem with
      s.kernel := created
      live := Slot.field (created.taskTable pid) .handles ::
        mem.live.filter (· ≠ mem.root (.task pid .handles)) }

def createDescriptor (mem : Memory) (pid : Nat) (entry : FileHandleV2) : Option (Int × Memory) :=
  let created := mem.s.createDescriptor pid entry
  if (mem.s.table pid).any (·.free) then some (created.1, { mem with s := created.2 })
  else if Slot.field (created.2.kernel.taskTable pid) .descriptors = 0 then none
  else
    some (created.1, { mem with
      s := created.2
      live := Slot.field (created.2.kernel.taskTable pid) .descriptors ::
        mem.live.filter (· ≠ mem.root (.task pid .descriptors)) })

def devfsOpen (mem : Memory) (path : Path) (flags : Nat) : Option (Int × Memory) :=
  if (Vfs.devfsOpen mem.s path flags).1 = -1 then some (-1, mem)
  else
    mem.growDevfs.map fun grown =>
      let opened := Vfs.devfsOpen grown.s path flags
      (opened.1, { grown with s := opened.2 })

def internalOpen (mem : Memory) (mountpoint : Int) (path : Path) (flags : Nat) :
    Option (Int × Memory) :=
  match mem.s.mountpoint mountpoint with
  | none => some (-1, mem)
  | some .devfs => mem.devfsOpen path flags
  | some (.echfs m device) => mem.openFile m device path flags

-- vfs_open, which for the kernel's own task is vfs_kopen. vfs_close and vfs_kclose likewise.
def vfsOpen (mem : Memory) (pid : Nat) (mountpoint : Int) (path : Path) (flags : Nat) :
    Option (Int × Memory) :=
  (mem.internalOpen mountpoint path flags).bind fun opened =>
    if opened.1 = -1 then some opened
    else opened.2.createDescriptor pid { mountpoint := mountpoint, internalHandle := opened.1 }

def vfsClose (mem : Memory) (pid : Nat) (handle : Int) : Option (Int × Memory) :=
  (Vfs.vfsClose mem.s pid handle).map fun closed => (closed.1, { mem with s := closed.2 })

-- The entry is copied before the array is grown.
def devfsFork (mem : Memory) (handle : Int) : Option (Int × Memory) :=
  (entryAt mem.s.devfsHandles handle).bind fun entry =>
    mem.growDevfs.map fun grown =>
      let created := devfsCreateHandle grown.s entry
      (created.1, { grown with s := created.2 })

def vfsKfork (mem : Memory) (handle : Int) : Option (Int × Memory) :=
  let descriptor := mem.s.descriptor 0 handle
  match mem.s.mountpoint descriptor.mountpoint with
  | none => some (Echfs.FAILURE, mem)
  | some .devfs =>
      (mem.devfsFork descriptor.internalHandle).bind fun forked =>
        forked.2.createDescriptor 0
          { mountpoint := descriptor.mountpoint, internalHandle := forked.1 }
  | some (.echfs _ _) => none

def echfsFork (mem : Memory) (handle : Int) : Option (Int × Memory) :=
  (entryAt mem.s.echfsHandles handle).bind fun entry =>
    (mem.vfsKfork entry.devHandle).bind fun forked =>
      forked.2.growEchfs.map fun grown =>
        let created := echfsCreateHandle grown.s { entry with devHandle := forked.1 }
        (created.1, { grown with s := created.2 })

def internalFork (mem : Memory) (descriptor : FileHandleV2) : Option (Int × Memory) :=
  match mem.s.mountpoint descriptor.mountpoint with
  | none => none
  | some .devfs => mem.devfsFork descriptor.internalHandle
  | some (.echfs _ _) => mem.echfsFork descriptor.internalHandle

-- The new table of a fork, in zeroed memory.
def cloneDescriptors (mem : Memory) : List FileHandleV2 → Option (List FileHandleV2 × Memory)
  | [] => some ([], mem)
  | handle :: rest =>
      if handle.free then
        (cloneDescriptors mem rest).map fun cloned => ({ free := true } :: cloned.1, cloned.2)
      else
        (mem.internalFork handle).bind fun forked =>
          (cloneDescriptors forked.2 rest).map fun cloned =>
            ({ mountpoint := handle.mountpoint, internalHandle := forked.1 } :: cloned.1, cloned.2)

-- `none` is FAILURE.
def taskCreate (mem : Memory) (newTask : Task) : Option Nat × Memory :=
  let created := EchidnaOS.taskCreate mem.s.kernel newTask
  match created.1 with
  | none => (none, { mem with s.kernel := created.2 })
  | some newPid =>
      (some newPid, { mem with
        s.kernel := created.2
        live := Slot.field (created.2.taskTable newPid) .entry :: mem.live })

-- task_fork up to the copy of the descriptors, and back to nothing when there is no room.
def forkCopies (mem : Memory) (task : Task) : Option (Option Copies × Memory) :=
  let base := mem.alloc (task.pages * PAGE_SIZE % 2 ^ 32)
  if base.1 = 0 then some (none, base.2)
  else
    let handles := base.2.alloc (task.fileHandlesPtr * SIZEOF_FILE_HANDLE % 2 ^ 32)
    if handles.1 = 0 then some (none, handles.2.free base.1)
    else
      let handlesV2 := handles.2.alloc (task.handlesV2.length * SIZEOF_FILE_HANDLE_V2 % 2 ^ 32)
      if handlesV2.1 = 0 then some (none, (handlesV2.2.free base.1).free handles.1)
      else
        (handlesV2.2.cloneDescriptors task.handlesV2).map fun cloned =>
          (some ⟨base.1, handles.1, handlesV2.1, cloned.1⟩, cloned.2)

def setSlot (mem : Memory) (pid address : Nat) (task : Task) : Memory :=
  { mem with s.kernel := mem.s.kernel.setTask pid address task }

def forkFail (mem : Memory) (pid address : Nat) (task : Task) : Memory :=
  mem.setSlot pid address (task.withEax EchidnaOS.FAILURE)

-- task_fork from the copy of the memory on.
def forkTask (mem : Memory) (pid address : Nat) (task : Task) (copies : Copies) : Memory :=
  let child := forkedTask task pid copies.base copies.handles copies.handlesV2 copies.descriptors
  let image := ByteStore.read mem.s.kernel.heap.mem task.base (task.pages * PAGE_SIZE % 2 ^ 32)
  let mem := { mem with
    s.kernel.heap.mem := ByteStore.write mem.s.kernel.heap.mem copies.base image }
  let created := mem.taskCreate child
  match created.1 with
  | none =>
      (((created.2.free copies.base).free copies.handles).free copies.handlesV2).forkFail
        pid address task
  | some newPid =>
      (created.2.setSlot pid address (task.withEax newPid)).setSlot newPid
        (created.2.root (.task newPid .entry)) (child.withEax 0)

def taskFork (mem : Memory) (pid : Nat) (cpu : GprState) : Option Memory :=
  match mem.s.kernel.taskTable pid with
  | .task address task =>
      let task := { task with cpu := cpu }
      (mem.forkCopies task).map fun copied =>
        match copied.1 with
        | none => copied.2.forkFail pid address task
        | some copies => copied.2.forkTask pid address task copies
  | _ => none

-- vfs_kget_metadata of a program; a devfs has no files.
def programSize (mem : Memory) (program : Target) : Option Nat :=
  match mem.s.mountpoint program.mountpoint with
  | some (.echfs m device) => mem.s.fileSize m device program.path
  | _ => none

def vfsKuread (mem : Memory) (handle : Int) (ptr len : Nat) : Option (List UInt8 × Memory) :=
  let descriptor := mem.s.descriptor 0 handle
  match mem.s.mountpoint descriptor.mountpoint with
  | some (.echfs _ _) =>
      (Vfs.echfsUread mem.s descriptor.internalHandle len).map fun result =>
        (result.1, { mem with s :=
          { result.2 with kernel.heap.mem := ByteStore.write result.2.kernel.heap.mem ptr result.1 } })
  | _ => none

-- The program is read into the memory of the new task through a descriptor of the kernel. The
-- number -1 is no index of the table, here and below.
def loadProgram (mem : Memory) (base size : Nat) (program : Target) : Option (ProgramFile × Memory) :=
  (mem.vfsOpen 0 program.mountpoint program.path O_RDWR).bind fun opened =>
    if opened.1 = -1 then none
    else
      (opened.2.vfsKuread opened.1 (base + TASK_RESERVED_SPACE) (toInt size).toNat).bind fun loaded =>
        (loaded.2.vfsClose 0 opened.1).map fun closed => (⟨size, bytesAt loaded.1⟩, closed.2)

def freeDescriptor (mem : Memory) (handle : Int) : Memory :=
  { mem with s := mem.s.setTable 0 (setAt (mem.s.table 0) handle
      { mem.s.descriptor 0 handle with free := true }) }

-- A standard stream is opened for the kernel, whose descriptor then goes to the new task.
def openStream (mem : Memory) (newPid : Nat) (stream : Target) (flags : Nat) : Option Memory :=
  (mem.vfsOpen 0 stream.mountpoint stream.path flags).bind fun opened =>
    if opened.1 = -1 then none
    else
      (opened.2.createDescriptor newPid (opened.2.s.descriptor 0 opened.1)).map fun created =>
        created.2.freeDescriptor opened.1

def openStreams (mem : Memory) (newPid : Nat) (streams : Streams) : Option Memory :=
  (mem.createHandle newPid).bind fun mem => (mem.createHandle newPid).bind fun mem =>
    (mem.createHandle newPid).bind fun mem =>
      (mem.openStream newPid streams.stdin O_RDONLY).bind fun mem =>
        (mem.openStream newPid streams.stdout O_WRONLY).bind fun mem =>
          mem.openStream newPid streams.stderr O_WRONLY

-- general_execute once the program is loaded.
def launch (mem : Memory) (pid base : Nat) (info : TaskInfo) (file : ProgramFile)
    (streams : Streams) : Option Memory :=
  let created := mem.taskCreate (newTask pid base file)
  match created.1 with
  | none => some (created.2.free base)
  | some newPid =>
      ((created.2.setSlot newPid (created.2.root (.task newPid .entry))
        (setupTask (newTask pid base file) file info)).openStreams newPid streams).map fun mem =>
          { mem with s.kernel.heap.mem := marshalArgv mem.s.kernel.heap.mem base info.argv }

def generalExecute (mem : Memory) (pid : Nat) (info : TaskInfo) (program : Target)
    (streams : Streams) : Option Memory :=
  match mem.programSize program with
  | none => some mem
  | some size =>
      let base := mem.alloc (programPages size * PAGE_SIZE % 2 ^ 32)
      if base.1 = 0 then some base.2
      else
        (base.2.loadProgram base.1 size program).bind fun loaded =>
          loaded.2.launch pid base.1 info loaded.1 streams

-- What task_quit gives back.
def quitPtrs (mem : Memory) (pid : Nat) : List Nat :=
  [mem.root (.task pid .handles), mem.root (.task pid .descriptors), mem.root (.task pid .image),
    mem.root (.task pid .entry)]

def taskQuit (mem : Memory) (pid : Nat) (value : Int) : Option Memory :=
  (EchidnaOS.taskQuit mem.s.kernel pid value).map fun kernel =>
    { mem with s.kernel := kernel, live := mem.live.filter (· ∉ mem.quitPtrs pid) }

end Memory

inductive TaskCall where
  | openPath (pid : Nat) (mountpoint : Int) (path : Path) (flags : Nat)
  | close (pid : Nat) (handle : Int)
  | fork (pid : Nat) (cpu : GprState)
  | execute (pid : Nat) (info : TaskInfo) (program : Target) (streams : Streams)
  | quit (pid : Nat) (value : Int)

namespace Memory

-- A task closes what it has open.
def isOpen (mem : Memory) (pid : Nat) (handle : Int) : Bool :=
  (inUse (·.free) (mem.s.table pid) handle).isSome

def taskStep (mem : Memory) : TaskCall → Option Memory
  | .openPath pid mountpoint path flags =>
      if mem.s.kernel.isActive pid then (mem.vfsOpen pid mountpoint path flags).map (·.2) else none
  | .close pid handle =>
      if mem.s.kernel.isActive pid && mem.isOpen pid handle then
        (mem.vfsClose pid handle).map (·.2)
      else none
  | .fork pid cpu => if mem.s.kernel.isActive pid then mem.taskFork pid cpu else none
  | .execute pid info program streams =>
      if mem.s.kernel.canLaunch pid then mem.generalExecute pid info program streams else none
  | .quit pid value => if mem.s.kernel.isActive pid then mem.taskQuit pid value else none

end Memory

def Node.isHandle : Node → Prop
  | .descriptor _ _ => False
  | _ => True

-- Every handle of a file system that is in use is that of an open descriptor or of a partition,
-- and every object that is not freed is one that the kernel still has a pointer to.
structure Released (partitions : List Int) (mem : Memory) : Prop where
  handles : ∀ node : Node, node.isHandle → mem.s.refers node ≠ none →
    (∃ pid handle, mem.s.refers (.descriptor pid handle) = some (some node)) ∨
      ∃ fd ∈ partitions, node = .devfs fd
  objects : ∀ ptr ∈ mem.live, ∃ root, mem.root root = ptr

-- An open that takes no file out of the cache.
def OpenKeeps (mem : Memory) (mountpoint : Int) (path : Path) (flags : Nat) : Prop :=
  ∀ m device, mem.s.mountpoint mountpoint = some (.echfs m device) →
    ¬ RemovesCached mem ⟨m, device, .open path flags⟩

-- What a call must not do to release everything: take a file out of the cache, quit with an open
-- descriptor or a table of its own that nobody else has, or fork open descriptors for a task
-- that there is no number or no room for.
def Releases (mem : Memory) : TaskCall → Prop
  | .openPath _ mountpoint path flags => OpenKeeps mem mountpoint path flags
  | .fork pid cpu => ∀ address task copies copied,
      mem.s.kernel.taskTable pid = .task address task →
      mem.forkCopies { task with cpu := cpu } = some (some copies, copied) →
      (∀ handle ∈ task.handlesV2, handle.free = true) ∨
        freePid copied.s.kernel.taskTable KRNL_MAX_TASKS 0 ≠ none ∧
          (kalloc copied.s.kernel.heap SIZEOF_TASK).1 ≠ 0
  | .quit pid _ =>
      (∀ handle ∈ mem.s.table pid, handle.free = true) ∧
        (mem.root (.task pid .ldt) = 0 ∨
          ∃ other, other ≠ pid ∧ mem.root (.task other .ldt) = mem.root (.task pid .ldt))
  | _ => True

end EchidnaOS.Vfs
