import EchidnaOS.Klib.Heap
import EchidnaOS.Lib.SlotTable

namespace EchidnaOS

open EchidnaOS.Lib EchidnaOS.Lib.ByteStore EchidnaOS.Klib

def KRNL_MAX_TASKS : Nat := 65536
def TASK_RESERVED_SPACE : Nat := 0x10000
def DEFAULT_STACK : Nat := 0x10000

-- The i386 sizes of `task_t`, `file_handle_t` and `file_handle_v2_t`.
def SIZEOF_TASK : Nat := 10672
def SIZEOF_FILE_HANDLE : Nat := 1052
def SIZEOF_FILE_HANDLE_V2 : Nat := 12

inductive Status where
  | active | res | iowait | ipcwait | procwait | vdevwait
  deriving DecidableEq, Repr

structure GprState where
  eax : Nat := 0
  ebx : Nat := 0
  ecx : Nat := 0
  edx : Nat := 0
  esi : Nat := 0
  edi : Nat := 0
  ebp : Nat := 0
  ds : Nat := 0
  es : Nat := 0
  fs : Nat := 0
  gs : Nat := 0
  eip : Nat := 0
  cs : Nat := 0
  eflags : Nat := 0
  esp : Nat := 0
  ss : Nat := 0

def defaultCpuStatus : GprState :=
  { ds := 0x33, es := 0x33, fs := 0x33, gs := 0x33, cs := 0x2b, eflags := 0x1202, ss := 0x33 }

-- The payload block of a packet is modelled by the bytes copied into it.
structure IpcPacket where
  sender : Nat := 0
  length : Nat := 0
  payload : List UInt8 := []

structure FileHandleV2 where
  free : Bool := false
  mountpoint : Int := 0
  internalHandle : Int := 0
  deriving DecidableEq, Repr

-- `file_handles` and `file_handles_v2` are heap pointers. Entries of the first are only
-- ever appended, so its length is enough; `handlesV2` are the entries of the second.
-- `ipc_queue` is the memory behind the pointer, at every index.
structure Task where
  status : Status := .active
  parent : Nat := 0
  base : Nat := 0
  pages : Nat := 0
  cpu : GprState := {}
  pwd : CString := []
  name : CString := []
  serverName : CString := []
  stdin : CString := []
  stdout : CString := []
  stderr : CString := []
  ipcQueue : Nat → IpcPacket := fun _ => {}
  ipcQueuePtr : Nat := 0
  heapBase : Nat := 0
  heapSize : Nat := 0
  ldt : Nat := 0
  ldtEntries : Nat := 0
  fileHandles : Nat := 0
  fileHandlesPtr : Nat := 0
  fileHandlesV2 : Nat := 0
  handlesV2 : List FileHandleV2 := []
  iowaitDev : CString := []
  iowaitLoc : Nat := 0
  iowaitPayload : UInt8 := 0
  iowaitType : Nat := 0
  iowaitHandle : Int := 0
  iowaitPtr : Nat := 0
  iowaitLen : Int := 0
  iowaitDone : Int := 0

-- An entry of `task_table`: NULL, EMPTY_PID, or the address of a `task_t` and what it holds.
inductive Slot where
  | null
  | empty
  | task (address : Nat) (task : Task)

-- `others` are the heap pointers held by the rest of the kernel, by a name for each.
structure Kernel where
  heap : Heap
  taskTable : Nat → Slot
  others : Nat → Nat

-- What other kernel code asks of the heap for objects of its own.
inductive Request where
  | alloc (name size : Nat)
  | resize (name size : Nat)
  | free (name : Nat)

def Kernel.request (k : Kernel) : Request → Kernel
  | .alloc name size =>
      if k.others name = 0 then
        { k with
          heap := (kalloc k.heap size).2
          others := Function.update k.others name (kalloc k.heap size).1 }
      else k
  | .resize name size =>
      if k.others name = 0 then k
      else if (krealloc k.heap (k.others name) size).1 = 0 then
        { k with heap := (krealloc k.heap (k.others name) size).2 }
      else
        { k with
          heap := (krealloc k.heap (k.others name) size).2
          others := Function.update k.others name (krealloc k.heap (k.others name) size).1 }
  | .free name =>
      if k.others name = 0 then k
      else
        { k with
          heap := kfree k.heap (k.others name)
          others := Function.update k.others name 0 }

def Kernel.requests (k : Kernel) (reqs : List Request) : Kernel := reqs.foldl Kernel.request k

def Kernel.setTask (k : Kernel) (pid address : Nat) (task : Task) : Kernel :=
  { k with taskTable := Function.update k.taskTable pid (.task address task) }

-- `others` are the objects that exist already, and `none` is one of the two panics.
-- The block of the task table itself is never given back.
def taskInit (heap : Heap) (others : Nat → Nat) : Option Kernel :=
  let table := kalloc heap (KRNL_MAX_TASKS * 4)
  if table.1 = 0 then none
  else
    let task := kalloc table.2 SIZEOF_TASK
    if task.1 = 0 then none
    else
      some {
        heap := task.2
        taskTable := Function.update (fun _ => .null) 0
          (.task task.1 { status := .res, pwd := [47], name := [107, 101, 114, 110, 101, 108] })
        others := others }

-- The first pid whose entry is NULL or EMPTY_PID.
def freePid (table : Nat → Slot) : Nat → Nat → Option Nat
  | 0, _ => none
  | fuel + 1, pid =>
      match table pid with
      | .task _ _ => freePid table fuel (pid + 1)
      | _ => some pid

-- FAILURE is `none`.
def taskCreate (k : Kernel) (newTask : Task) : Option Nat × Kernel :=
  match freePid k.taskTable KRNL_MAX_TASKS 0 with
  | none => (none, k)
  | some newPid =>
      if (kalloc k.heap SIZEOF_TASK).1 = 0 then
        (none, { k with
          heap := (kalloc k.heap SIZEOF_TASK).2
          taskTable := Function.update k.taskTable newPid .empty })
      else
        (some newPid, { k with
          heap := (kalloc k.heap SIZEOF_TASK).2
          taskTable := Function.update k.taskTable newPid
            (.task (kalloc k.heap SIZEOF_TASK).1 newTask) })

-- `create_file_handle` for a table without a free entry.
def createFileHandle (k : Kernel) (pid : Nat) : Kernel :=
  match k.taskTable pid with
  | .task address task =>
      let result := krealloc k.heap task.fileHandles
        ((task.fileHandlesPtr + 1) * SIZEOF_FILE_HANDLE % 2 ^ 32)
      { k with heap := result.2 }.setTask pid address
        { task with fileHandles := result.1, fileHandlesPtr := task.fileHandlesPtr + 1 }
  | _ => k

def createFileHandleV2 (k : Kernel) (pid : Nat) (handle : FileHandleV2) : Kernel :=
  match k.taskTable pid with
  | .task address task =>
      let handles := (SlotTable.create (·.free) task.handlesV2 handle).2
      if task.handlesV2.any (·.free) then k.setTask pid address { task with handlesV2 := handles }
      else
        let result := krealloc k.heap task.fileHandlesV2
          ((task.handlesV2.length + 1) * SIZEOF_FILE_HANDLE_V2 % 2 ^ 32)
        { k with heap := result.2 }.setTask pid address
          { task with fileHandlesV2 := result.1, handlesV2 := handles }
  | _ => k

-- The strings of a `task_info_t`, fetched from the caller's memory. They are copied into
-- fixed arrays of `task_t` and into the smallest image, neither of which is checked.
structure TaskInfo where
  stdin : CString
  stdout : CString
  stderr : CString
  pwd : CString
  name : CString
  serverName : CString
  argv : List CString
  strings_fit : stdin.length < 2048 ∧ stdout.length < 2048 ∧ stderr.length < 2048 ∧
    pwd.length < 2048 ∧ name.length < 128 ∧ serverName.length < 128
  argv_fit : 0x4000 + (argv.map (·.length + 1)).sum ≤ TASK_RESERVED_SPACE + DEFAULT_STACK ∧
    0x1010 + 4 * (argv.length + 1) ≤ TASK_RESERVED_SPACE + DEFAULT_STACK

-- The file behind the program path, as the VFS answers for it.
structure ProgramFile where
  size : Nat
  bytes : Nat → UInt8

-- What the VFS does to the heap while one of the three streams is opened, and the
-- entry of the kernel's own table the new task inherits.
structure Stream where
  requests : List Request := []
  handle : FileHandleV2 := {}

-- The VFS activity while a program is loaded and its streams are opened.
structure Activity where
  load : List Request := []
  stdin : Stream := {}
  stdout : Stream := {}
  stderr : Stream := {}

def imageSize (size : Nat) : Nat := (TASK_RESERVED_SPACE + size + DEFAULT_STACK) % 2 ^ 64

def programPages (size : Nat) : Nat :=
  (imageSize size / PAGE_SIZE + if imageSize size % PAGE_SIZE = 0 then 0 else 1) % 2 ^ 32

-- `vfs_kuread` takes the length as an `int`.
def loadProgram (mem : Store) (base : Nat) (file : ProgramFile) : Store :=
  write mem (base + TASK_RESERVED_SPACE)
    ((List.range (if file.size % 2 ^ 32 < 2 ^ 31 then file.size % 2 ^ 32 else 0)).map file.bytes)

def copyArgv (base : Nat) : Nat → Nat → List CString → Store → Store
  | index, _, [], mem => write mem (base + 0x1010 + 4 * index) (leBytes 4 0)
  | index, argvLimit, arg :: rest, mem =>
      copyArgv base (index + 1) (argvLimit + arg.length + 1) rest
        (write (write mem (base + argvLimit) (arg ++ [0]))
          (base + 0x1010 + 4 * index) (leBytes 4 argvLimit))

def marshalArgv (mem : Store) (base : Nat) (argv : List CString) : Store :=
  copyArgv base 0 0x4000 argv (write mem (base + 0x1000) (leBytes 4 argv.length))

def initialEsp (size : Nat) : Nat := (imageSize size + (2 ^ 64 - 1)) % 2 ^ 32 / 16 * 16

-- The fields general_execute sets once the task exists.
def setupTask (task : Task) (file : ProgramFile) (info : TaskInfo) : Task :=
  { task with
    cpu := { task.cpu with esp := initialEsp file.size, eip := TASK_RESERVED_SPACE }
    heapBase := programPages file.size * PAGE_SIZE % 2 ^ 32
    heapSize := 0
    pwd := info.pwd
    name := info.name
    serverName := info.serverName
    stdin := info.stdin
    stdout := info.stdout
    stderr := info.stderr }

def openStream (k : Kernel) (pid : Nat) (stream : Stream) : Kernel :=
  createFileHandleV2 (k.requests stream.requests) pid stream.handle

def openStreams (k : Kernel) (pid : Nat) (vfs : Activity) : Kernel :=
  let k := createFileHandle (createFileHandle (createFileHandle k pid) pid) pid
  openStream (openStream (openStream k pid vfs.stdin) pid vfs.stdout) pid vfs.stderr

def newTask (current base : Nat) (file : ProgramFile) : Task :=
  { status := .active, cpu := defaultCpuStatus, parent := current
    pages := programPages file.size, base := base }

-- The part of general_execute after the task memory was allocated at `base`.
def launch (k : Kernel) (current base : Nat) (info : TaskInfo) (file : ProgramFile)
    (vfs : Activity) : Option Nat × Kernel :=
  let k := k.requests vfs.load
  let k := { k with heap.mem := loadProgram k.heap.mem base file }
  match taskCreate k (newTask current base file) with
  | (none, k) => (none, { k with heap := kfree k.heap base })
  | (some newPid, k) =>
      match k.taskTable newPid with
      | .task address task =>
          let k := openStreams (k.setTask newPid address (setupTask task file info)) newPid vfs
          (some newPid, { k with heap.mem := marshalArgv k.heap.mem base info.argv })
      | _ => (some newPid, k)

-- `info` has the caller's argv as values; how they are fetched through its base is left out.
def generalExecute (k : Kernel) (current : Nat) (info : TaskInfo) (file : Option ProgramFile)
    (vfs : Activity) : Option Nat × Kernel :=
  match file with
  | none => (none, k)
  | some file =>
      let result := kalloc k.heap (programPages file.size * PAGE_SIZE % 2 ^ 32)
      if result.1 = 0 then (none, { k with heap := result.2 })
      else launch { k with heap := result.2 } current result.1 info file vfs

end EchidnaOS
