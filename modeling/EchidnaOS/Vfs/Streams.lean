import EchidnaOS.Vfs.Ownership

namespace EchidnaOS.Vfs

open EchidnaOS.Lib.SlotTable EchidnaOS.Lib.ByteStore EchidnaOS.Klib EchidnaOS.Devfs EchidnaOS.Echfs

def Streams.opens (streams : Streams) : List (Target × Nat) :=
  [(streams.stdin, O_RDONLY), (streams.stdout, O_WRONLY), (streams.stderr, O_WRONLY)]

-- `task_table[0]->file_handles_v2[handle]`, with what vfs_kopen returned for a file, in the
-- state that vfs_kopen left.
structure KernelUse where
  file : Target
  handle : Int
  state : Memory

namespace Memory

def createHandles (mem : Memory) (newPid : Nat) : Option Memory :=
  (mem.createHandle newPid).bind fun mem => (mem.createHandle newPid).bind fun mem => mem.createHandle newPid

def openEach (mem : Memory) (newPid : Nat) : List (Target × Nat) → Option Memory
  | [] => some mem
  | (stream, flags) :: rest => (mem.openStream newPid stream flags).bind fun mem => openEach mem newPid rest

-- general_execute up to its streams. `none` in place of the number and the base is FAILURE.
def createLaunched (mem : Memory) (pid : Nat) (info : TaskInfo) (program : Target) :
    Option (Option (Nat × Nat) × Memory) :=
  match mem.programSize program with
  | none => some (none, mem)
  | some size =>
      let base := mem.alloc (programPages size * PAGE_SIZE % 2 ^ 32)
      if base.1 = 0 then some (none, base.2)
      else
        (base.2.loadProgram base.1 size program).bind fun loaded =>
          let task := newTask pid base.1 loaded.1
          let created := loaded.2.taskCreate task
          match created.1 with
          | none => some (none, created.2.free base.1)
          | some newPid =>
              ((created.2.setSlot newPid (created.2.root (.task newPid .entry))
                (setupTask task loaded.1 info)).createHandles newPid).map fun mem =>
                  (some (newPid, base.1), mem)

-- general_execute with the number that it returns.
def execute (mem : Memory) (pid : Nat) (info : TaskInfo) (program : Target) (streams : Streams) :
    Option (Option Nat × Memory) :=
  (mem.createLaunched pid info program).bind fun created =>
    match created.1 with
    | none => some (none, created.2)
    | some (newPid, base) =>
        (created.2.openEach newPid streams.opens).map fun mem =>
          (some newPid, { mem with s.kernel.heap.mem := marshalArgv mem.s.kernel.heap.mem base info.argv })

-- The numbers that the opens of the streams return, as far as the call gets.
def streamUses (mem : Memory) (newPid : Nat) : List (Target × Nat) → List KernelUse
  | [] => []
  | (stream, flags) :: rest =>
      match mem.vfsOpen 0 stream.mountpoint stream.path flags with
      | none => []
      | some opened =>
          ⟨stream, opened.1, opened.2⟩ ::
            match mem.openStream newPid stream flags with
            | none => []
            | some next => streamUses next newPid rest

def programUses (mem : Memory) (program : Target) : List KernelUse :=
  match mem.programSize program with
  | none => []
  | some size =>
      let base := mem.alloc (programPages size * PAGE_SIZE % 2 ^ 32)
      if base.1 = 0 then []
      else
        match base.2.vfsOpen 0 program.mountpoint program.path O_RDWR with
        | none => []
        | some opened => [⟨program, opened.1, opened.2⟩]

-- Where general_execute indexes the descriptors of the kernel.
def kernelUses (mem : Memory) (pid : Nat) (info : TaskInfo) (program : Target) (streams : Streams) :
    List KernelUse :=
  mem.programUses program ++
    match mem.createLaunched pid info program with
    | some (some (newPid, _), created) => created.streamUses newPid streams.opens
    | _ => []

end Memory

theorem openStreams_eq (mem : Memory) (newPid : Nat) (streams : Streams) :
    mem.openStreams newPid streams =
      (mem.createHandles newPid).bind fun mem => mem.openEach newPid streams.opens := by
  simp only [Memory.openStreams, Memory.createHandles, Memory.openEach, Streams.opens, Option.bind_assoc,
    Option.bind_fun_some]

theorem execute_memory (mem : Memory) (pid : Nat) (info : TaskInfo) (program : Target) (streams : Streams) :
    (mem.execute pid info program streams).map (·.2) = mem.generalExecute pid info program streams := by
  unfold Memory.execute Memory.createLaunched Memory.generalExecute
  cases mem.programSize program with
  | none => rfl
  | some size =>
      dsimp only
      generalize mem.alloc (programPages size * PAGE_SIZE % 2 ^ 32) = base
      by_cases hbase : base.1 = 0
      · rw [if_pos hbase, if_pos hbase]
        rfl
      · rw [if_neg hbase, if_neg hbase]
        cases base.2.loadProgram base.1 size program with
        | none => rfl
        | some loaded =>
            simp only [Option.bind_some]
            unfold Memory.launch
            dsimp only
            cases (loaded.2.taskCreate (newTask pid base.1 loaded.1)).1 with
            | none => rfl
            | some newPid =>
                simp only [openStreams_eq, Option.map_bind, Option.bind_map]
                congr 1
                funext mem
                exact Option.map_map _ _ _

-- A path that leads to a device or to a file of a volume.
def State.names (s : State) (file : Target) : Bool :=
  match s.mountpoint file.mountpoint with
  | none => false
  | some .devfs => s.devices.any fun device => device.name = skipSlash file.path.text
  | some (.echfs m device) => (s.fileSize m device file.path).isSome

-- An open handle on a path.
structure OpenOn (s : State) (descriptor : FileHandleV2) (file : Target) (flags : Nat) : Prop where
  used : descriptor.free = false
  mountpoint : descriptor.mountpoint = file.mountpoint
  handle : match s.mountpoint file.mountpoint with
    | none => False
    | some .devfs => ∃ entry, inUse (·.free) s.devfsHandles descriptor.internalHandle = some entry ∧
        entry.path = file.path.text ∧ entry.flags = flags
    | some (.echfs m _) => ∃ entry, inUse (·.free) s.echfsHandles descriptor.internalHandle = some entry ∧
        entry.path = file.path ∧ entry.mount = m ∧ entry.flags = flags

-- A new task with the streams as its descriptors.
structure Launched (mem later : Memory) (child : Nat) (streams : Streams) : Prop where
  free : (mem.s.kernel.taskTable child).status = none
  table : ∃ stdin stdout stderr, later.s.table child = [stdin, stdout, stderr] ∧
    OpenOn later.s stdin streams.stdin O_RDONLY ∧ OpenOn later.s stdout streams.stdout O_WRONLY ∧
    OpenOn later.s stderr streams.stderr O_WRONLY

-- What a launch owes to its caller and to the kernel's task.
structure LaunchesRight (mem : Memory) (pid : Nat) (info : TaskInfo) (program : Target) (streams : Streams) :
    Prop where
  inside : ∀ use ∈ mem.kernelUses pid info program streams, entryAt (use.state.s.table 0) use.handle ≠ none
  kept : ∀ number later, mem.execute pid info program streams = some (number, later) →
    ∀ handle entry, inUse (·.free) (mem.s.table 0) handle = some entry →
      inUse (·.free) (later.s.table 0) handle = some entry
  failed : ∀ later, mem.execute pid info program streams = some (none, later) →
    ∀ other, (later.s.kernel.taskTable other).status = (mem.s.kernel.taskTable other).status
  launched : ∀ child later, mem.execute pid info program streams = some (some child, later) →
    Launched mem later child streams

end EchidnaOS.Vfs
