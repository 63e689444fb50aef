import EchidnaOS.Task

namespace EchidnaOS

open EchidnaOS.Lib EchidnaOS.Lib.ByteStore EchidnaOS.Klib

def FAILURE : Nat := 0xffffffff

-- What the filesystem of each open descriptor does when it is forked: its heap
-- activity and the new internal handle.
structure ForkedHandle where
  requests : List Request := []
  internalHandle : Int := 0

-- The entries of the new table are taken from zeroed memory, so a free one keeps
-- nothing but its flag.
def cloneHandles (forks : Nat → ForkedHandle) : Kernel → Nat → List FileHandleV2 →
    Kernel × List FileHandleV2
  | k, _, [] => (k, [])
  | k, index, handle :: rest =>
      if handle.free then
        let cloned := cloneHandles forks k (index + 1) rest
        (cloned.1, { free := true } :: cloned.2)
      else
        let cloned := cloneHandles forks (k.requests (forks index).requests) (index + 1) rest
        (cloned.1, { mountpoint := handle.mountpoint
                     internalHandle := (forks index).internalHandle } :: cloned.2)

def Task.withEax (task : Task) (value : Nat) : Task :=
  { task with cpu := { task.cpu with eax := value } }

def forkFail (k : Kernel) (current address : Nat) (task : Task) : Option Nat × Kernel :=
  (none, k.setTask current address (task.withEax FAILURE))

def forkedTask (task : Task) (current base handles handlesV2 : Nat)
    (cloned : List FileHandleV2) : Task :=
  { task with
    parent := current
    ipcQueue := fun _ => {}
    ipcQueuePtr := 0
    serverName := []
    base := base
    fileHandles := handles
    fileHandlesV2 := handlesV2
    handlesV2 := cloned }

-- The part of task_fork after its three allocations.
def forkClone (k : Kernel) (current address : Nat) (task : Task) (forks : Nat → ForkedHandle)
    (base handles handlesV2 : Nat) : Option Nat × Kernel :=
  let cloned := cloneHandles forks k 0 task.handlesV2
  let k := { cloned.1 with
    heap.mem := write cloned.1.heap.mem base
      (read cloned.1.heap.mem task.base (task.pages * PAGE_SIZE % 2 ^ 32)) }
  match taskCreate k (forkedTask task current base handles handlesV2 cloned.2) with
  | (none, k) =>
      forkFail { k with heap := kfree (kfree (kfree k.heap base) handles) handlesV2 }
        current address task
  | (some newPid, k) =>
      let k := k.setTask current address (task.withEax newPid)
      match k.taskTable newPid with
      | .task newAddress child => (some newPid, k.setTask newPid newAddress (child.withEax 0))
      | _ => (some newPid, k)

-- `task` is the forking task with the registers it entered the kernel with.
def forkAlloc (k : Kernel) (current address : Nat) (task : Task)
    (forks : Nat → ForkedHandle) : Option Nat × Kernel :=
  let base := kalloc k.heap (task.pages * PAGE_SIZE % 2 ^ 32)
  if base.1 = 0 then forkFail { k with heap := base.2 } current address task
  else
    let handles := kalloc base.2 (task.fileHandlesPtr * SIZEOF_FILE_HANDLE % 2 ^ 32)
    if handles.1 = 0 then
      forkFail { k with heap := kfree handles.2 base.1 } current address task
    else
      let handlesV2 := kalloc handles.2 (task.handlesV2.length * SIZEOF_FILE_HANDLE_V2 % 2 ^ 32)
      if handlesV2.1 = 0 then
        forkFail { k with heap := kfree (kfree handlesV2.2 base.1) handles.1 } current address task
      else
        forkClone { k with heap := handlesV2.2 } current address task forks
          base.1 handles.1 handlesV2.1

def taskFork (k : Kernel) (current : Nat) (cpu : GprState) (forks : Nat → ForkedHandle) :
    Option Nat × Kernel :=
  match k.taskTable current with
  | .task address task => forkAlloc k current address { task with cpu := cpu } forks
  | _ => (none, k)

-- gen_exec_block_isr saves the caller's registers only when the launch succeeded.
def generalExecuteBlock (k : Kernel) (current : Nat) (cpu : GprState) (info : TaskInfo)
    (file : Option ProgramFile) (vfs : Activity) : Option Nat × Kernel :=
  match generalExecute k current info file vfs with
  | (none, k) => (none, k)
  | (some newPid, k) =>
      match k.taskTable current with
      | .task address task =>
          (some newPid, k.setTask current address { task with status := .procwait, cpu := cpu })
      | _ => (some newPid, k)

def heapPages (heapSize : UInt32) : Nat :=
  heapSize.toNat / PAGE_SIZE + if heapSize.toNat % PAGE_SIZE = 0 then 0 else 1

def resizeHeap (k : Kernel) (current : Nat) (heapSize : UInt32) : Kernel :=
  match k.taskTable current with
  | .task address task =>
      let result := krealloc k.heap task.base
        ((task.heapBase + heapPages heapSize * PAGE_SIZE) % 2 ^ 32)
      if result.1 = 0 then { k with heap := result.2 }
      else
        { k with heap := result.2 }.setTask current address { task with
          base := result.1
          pages := (task.heapBase / PAGE_SIZE + heapPages heapSize) % 2 ^ 32
          heapSize := heapSize.toNat }
  | _ => k

-- An argument of execve: the length of the string at the pointer in the task's segment,
-- and the string at the same pointer in the kernel's, which is the one that is copied.
structure ExecString where
  length : Nat
  copied : CString
  fits : copied.length + 1 ≤ divRoundup (length + 1) PAGE_SIZE * PAGE_SIZE

-- The temporary copies of argv or envp. The strings themselves are kept as values.
def copyStrings : Heap → List ExecString → List Nat × Heap
  | heap, [] => ([], heap)
  | heap, arg :: rest =>
      let result := kalloc heap (arg.length + 1)
      let copied := copyStrings result.2 rest
      (result.1 :: copied.1, copied.2)

structure Temporaries where
  argv : Nat
  envp : Nat
  argvStrings : List Nat
  envpStrings : List Nat

-- The heap and the temporary blocks when execve comes to allocate the new image.
def execveTemporaries (heap : Heap) (argv envp : List ExecString) : Temporaries × Heap :=
  let tmpArgv := kalloc heap 1024
  let tmpEnvp := kalloc tmpArgv.2 1024
  let argvStrings := copyStrings tmpEnvp.2 (argv.take 256)
  let envpStrings := copyStrings argvStrings.2 (envp.take 256)
  (⟨tmpArgv.1, tmpEnvp.1, argvStrings.1, envpStrings.1⟩, envpStrings.2)

def kfreeAll (heap : Heap) (ptrs : List Nat) : Heap := ptrs.foldl kfree heap

-- The loops over tmp_argv and tmp_envp stop at the first NULL.
def freeTemporaries (heap : Heap) (tmp : Temporaries) (prevBase : Nat) : Heap :=
  let heap := kfreeAll heap (tmp.argvStrings.takeWhile (· ≠ 0))
  let heap := kfreeAll heap (tmp.envpStrings.takeWhile (· ≠ 0))
  kfree (kfree (kfree heap prevBase) tmp.argv) tmp.envp

def copyEnvp (base : Nat) : Nat → Nat → List CString → Store → Store
  | index, _, [], mem => write mem (base + 0x1020 + 4 * index) (leBytes 4 0)
  | index, envpLimit, env :: rest, mem =>
      copyEnvp base (index + 1) (envpLimit + env.length + 1) rest
        (write (write mem (base + envpLimit) (env ++ [0]))
          (base + 0x1020 + 4 * index) (leBytes 4 envpLimit))

def liveStrings (ptrs : List Nat) (args : List ExecString) : List CString :=
  ((ptrs.zip args).takeWhile (·.1 ≠ 0)).map (·.2.copied)

-- The new image takes the task's base, and `pages` stays as it was.
def execvedTask (task : Task) (base : Nat) (file : ProgramFile) : Task :=
  { task with
    status := .active
    base := base
    cpu := { defaultCpuStatus with esp := initialEsp file.size, eip := TASK_RESERVED_SPACE }
    heapBase := programPages file.size * PAGE_SIZE % 2 ^ 32
    heapSize := 0 }

-- The part of execve after the image was allocated at `base`.
def execveLoad (k : Kernel) (current address : Nat) (task : Task) (argv envp : List ExecString)
    (file : ProgramFile) (load : List Request) (tmp : Temporaries) (base : Nat) : Kernel :=
  let k := k.requests load
  let k := k.setTask current address (execvedTask task base file)
  let mem := write (loadProgram k.heap.mem base file) (base + 0x1000)
    (leBytes 4 (argv.take 256).length)
  let mem := copyArgv base 0 0x4000 (liveStrings tmp.argvStrings argv) mem
  let mem := copyEnvp base 0 0x8000 (liveStrings tmp.envpStrings envp) mem
  { k with heap := freeTemporaries { k.heap with mem := mem } tmp task.base }

def execve (k : Kernel) (current : Nat) (argv envp : List ExecString)
    (file : Option ProgramFile) (load : List Request) : Kernel :=
  match k.taskTable current with
  | .task address task =>
      match file with
      | none => { k with heap := (kalloc (kalloc k.heap 1024).2 1024).2 }
      | some file =>
          let tmp := execveTemporaries k.heap argv envp
          let result := kalloc tmp.2 (programPages file.size * PAGE_SIZE % 2 ^ 32)
          execveLoad { k with heap := result.2 } current address task argv envp file load
            tmp.1 result.1
  | _ => k

def lowHalf (value : Int) : Nat := (value % 2 ^ 32).toNat
def highHalf (value : Int) : Nat := (value / 2 ^ 32 % 2 ^ 32).toNat

def wakeParent (k : Kernel) (parent address : Nat) (task : Task) (value : Int) : Kernel :=
  if task.status = .procwait then
    k.setTask parent address { task with
      status := .active
      cpu := { task.cpu with eax := lowHalf value, edx := highHalf value } }
  else k

-- The parent's entry is read without a check; one that is not a task stops the system.
def taskQuit (k : Kernel) (pid : Nat) (value : Int) : Option Kernel :=
  match k.taskTable pid with
  | .task address task =>
      match k.taskTable task.parent with
      | .task parentAddress parent =>
          let k := wakeParent k task.parent parentAddress parent value
          some { k with
            heap := kfree (kfree (kfree (kfree k.heap task.fileHandles) task.fileHandlesV2)
              task.base) address
            taskTable := Function.update k.taskTable pid .empty }
      | _ => none
  | _ => none

def taskSwitch (k : Kernel) (current : Nat) (cpu : GprState) : Kernel :=
  match k.taskTable current with
  | .task address task => k.setTask current address { task with cpu := cpu }
  | _ => k

-- What a task, or the rest of the kernel, does next.
inductive Action where
  | execute (pid : Nat) (info : TaskInfo) (file : Option ProgramFile) (vfs : Activity)
  | executeBlock (pid : Nat) (cpu : GprState) (info : TaskInfo) (file : Option ProgramFile)
      (vfs : Activity)
  | fork (pid : Nat) (cpu : GprState) (forks : Nat → ForkedHandle)
  | resizeHeap (pid : Nat) (heapSize : UInt32)
  | execve (pid : Nat) (argv envp : List ExecString) (file : Option ProgramFile)
      (load : List Request)
  | quit (pid : Nat) (value : Int)
  | switch (pid : Nat) (cpu : GprState)
  | kernel (reqs : List Request)

def Slot.status : Slot → Option Status
  | .task _ running => some running.status
  | _ => none

-- Only a running task makes system calls.
def Kernel.isActive (k : Kernel) (pid : Nat) : Bool := (k.taskTable pid).status = some .active

-- The kernel task, which is resident and never scheduled, launches the first shells.
def Kernel.canLaunch (k : Kernel) (pid : Nat) : Bool :=
  k.isActive pid || (pid = 0 && (k.taskTable 0).status = some .res)

def step (k : Kernel) : Action → Option Kernel
  | .execute pid info file vfs =>
      if k.canLaunch pid then some (generalExecute k pid info file vfs).2 else none
  | .executeBlock pid cpu info file vfs =>
      if k.isActive pid then some (generalExecuteBlock k pid cpu info file vfs).2 else none
  | .fork pid cpu forks =>
      if k.isActive pid then some (taskFork k pid cpu forks).2 else none
  | .resizeHeap pid heapSize =>
      if k.isActive pid then some (resizeHeap k pid heapSize) else none
  | .execve pid argv envp file load =>
      if k.isActive pid then some (execve k pid argv envp file load) else none
  | .quit pid value => if k.isActive pid then taskQuit k pid value else none
  | .switch pid cpu => if k.isActive pid then some (taskSwitch k pid cpu) else none
  | .kernel reqs => some (k.requests reqs)

-- A machine with four megabytes, the smallest program, and launches of it.
def emptyHeap : Heap where
  pmm := { bitmap := fun index => index = 0, lastUsedIndex := 0, highestPage := 1024 * PAGE_SIZE }
  metadata := fun _ => ⟨0, 0⟩
  mem := fun _ => 0

def plainInfo : TaskInfo where
  stdin := []
  stdout := []
  stderr := []
  pwd := [47]
  name := []
  serverName := []
  argv := []
  strings_fit := by decide
  argv_fit := by decide

def emptyProgram : ProgramFile := ⟨0, fun _ => 0⟩

def plainLaunch (pid : Nat) : Action := .execute pid plainInfo (some emptyProgram) {}

def plainBlock (pid : Nat) : Action := .executeBlock pid {} plainInfo (some emptyProgram) {}

end EchidnaOS
