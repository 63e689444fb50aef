import EchidnaOS.Devfs.Transfer
import EchidnaOS.Lib.Run
import EchidnaOS.Scheduler
import EchidnaOS.Vfs.Calls

namespace EchidnaOS.Devfs

open EchidnaOS.Lib.ByteStore EchidnaOS.Lib.SlotTable EchidnaOS.Scheduler

-- A call of a device's io_wrapper.
structure Access where
  loc : Nat
  type : IoType
  payload : UInt8
  result : Int

-- The byte that it transferred.
def Access.moved (access : Access) : Option UInt8 :=
  if access.result = FAILURE ∨ access.result = -1 then none
  else if access.result = IO_NOT_READY then none
  else
    match access.type with
    | .read => some (toChar access.result)
    | .write => some access.payload

def movedBytes (log : List Access) : List UInt8 := log.filterMap Access.moved

variable {σ : Type*}

-- A driver with a record of the calls that are made of it.
def logged (io : IoWrapper σ) : IoWrapper (σ × List Access) := fun s loc type payload =>
  let c := io s.1 loc type payload
  (c.1, (c.2, s.2 ++ [{ loc := loc, type := type, payload := payload, result := c.1 }]))

-- The devices and `devfs_handles`, the tasks and the memory of each from its base on, in which its
-- buffers are taken to lie, and the two global flags. `log` has the calls of drivers for each handle;
-- the code does not keep it.
structure IoSystem (σ : Type*) where
  device : σ
  handles : Int → DevfsHandle
  log : Int → List Access
  tasks : Nat → Task
  memory : Nat → Store
  readStat : Bool
  writeStat : Bool

def IoSystem.stat (s : IoSystem σ) : IoType → Bool
  | .read => s.readStat
  | .write => s.writeStat

def IoSystem.setStat (s : IoSystem σ) (type : IoType) (stat : Bool) : IoSystem σ :=
  match type with
  | .read => { s with readStat := stat }
  | .write => { s with writeStat := stat }

def IoSystem.setTask (s : IoSystem σ) (pid : Nat) (change : Task → Task) : IoSystem σ :=
  { s with tasks := Function.update s.tasks pid (change (s.tasks pid)) }

-- `file_handles_v2[handle].internal_handle` of an open descriptor.
def internalHandle (task : Task) (handle : Int) : Int :=
  ((entryAt task.handlesV2 handle).getD {}).internalHandle

-- The memory with the bytes from `ptr` on replaced.
def overlay (mem : Store) (ptr : Nat) (buffer : Store) : Store := fun address =>
  if address < ptr then mem address else buffer (address - ptr)

-- devfs_uread and devfs_uwrite of `len` bytes.
def devfsTransfer (wrappers : Nat → IoWrapper σ) (type : IoType) (s : IoSystem σ) (internal : Int)
    (buffer : Store) (len : Nat) : Transfer (σ × List Access) × DevfsHandle :=
  let h := s.handles internal
  let io := logged (wrappers h.device)
  match type with
  | .read => ureadIo io h (s.device, s.log internal) buffer len
  | .write => uwriteIo io h (s.device, s.log internal) buffer len

-- vfs_uread and vfs_uwrite of a descriptor of devfs.
def vfsTransfer (wrappers : Nat → IoWrapper σ) (type : IoType) (pid : Nat) (handle : Int) (ptr : Nat)
    (len : Int) (s : IoSystem σ) : Int × IoSystem σ :=
  let internal := internalHandle (s.tasks pid) handle
  let result := devfsTransfer wrappers type s internal (fun i => s.memory pid (ptr + i))
    (Vfs.chunk len)
  (result.1.count,
    { s with
      device := result.1.device.1
      handles := Function.update s.handles internal result.2
      log := Function.update s.log internal result.1.device.2
      memory := Function.update s.memory pid (overlay (s.memory pid) ptr result.1.buffer)
    }.setStat type (result.1.stat || decide ((Vfs.MAX_SIMULTANOUS_VFS_ACCESS : Int) < len)))

def iowaitTypeOf : IoType → Nat
  | .read => 2
  | .write => 3

def ioTypeOf : Nat → Option IoType
  | 2 => some .read
  | 3 => some .write
  | _ => none

-- The record of enter_iowait_status1.
def awaitIo (handle : Int) (ptr : Nat) (len : Int) (type : Nat) (done : Int) (task : Task) : Task :=
  { task with
    status := .iowait
    iowaitType := type
    iowaitHandle := handle
    iowaitPtr := ptr
    iowaitLen := len
    iowaitDone := done }

-- read_isr and write_isr.
def transferIsr (wrappers : Nat → IoWrapper σ) (type : IoType) (pid : Nat) (handle : Int) (ptr : Nat)
    (len : Int) (s : IoSystem σ) : IoSystem σ :=
  let result := vfsTransfer wrappers type pid handle ptr len s
  if result.2.stat type then
    result.2.setTask pid (awaitIo handle ptr len (iowaitTypeOf type) result.1)
  else result.2.setTask pid (·.withEax (lowHalf result.1))

-- What the scheduler does when it gets to a task with a transfer.
def retryTransfer (wrappers : Nat → IoWrapper σ) (type : IoType) (pid : Nat) (s : IoSystem σ) :
    IoSystem σ :=
  let task := s.tasks pid
  let result := vfsTransfer wrappers type pid task.iowaitHandle
    (task.iowaitPtr + task.iowaitDone).toNat (toInt (task.iowaitLen - task.iowaitDone)) s
  if result.2.stat type then result.2.setTask pid (retryIo result.1)
  else result.2.setTask pid (completeIo result.1)

-- A system call of a running task, a visit of the scheduler, or anything else.
inductive IoCall (σ : Type*) where
  | transfer (type : IoType) (pid : Nat) (handle : Int) (ptr : Nat) (len : Int)
  | retry (pid : Nat)
  | other (next : IoSystem σ)

def ioStep (wrappers : Nat → IoWrapper σ) (s : IoSystem σ) : IoCall σ → Option (IoSystem σ)
  | .transfer type pid handle ptr len =>
      if (s.tasks pid).status = .active then some (transferIsr wrappers type pid handle ptr len s)
      else none
  | .retry pid =>
      if (s.tasks pid).status = .iowait then
        (ioTypeOf (s.tasks pid).iowaitType).map fun type => retryTransfer wrappers type pid s
      else none
  | .other next => some next

end EchidnaOS.Devfs
