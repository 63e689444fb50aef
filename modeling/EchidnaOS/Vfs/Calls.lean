import EchidnaOS.Vfs.Echfs
import EchidnaOS.Task.Step

namespace EchidnaOS.Vfs

open EchidnaOS.Lib.SlotTable EchidnaOS.Lib.ByteStore EchidnaOS.Devfs EchidnaOS.Echfs

def MAX_SIMULTANOUS_VFS_ACCESS : Nat := 4096

-- `filesystems[filesystem].open` and `.close`.
def State.internalOpen (s : State) (mountpoint : Int) (path : Path) (flags : Nat) :
    Option (Int × State) :=
  match s.mountpoint mountpoint with
  | none => some (-1, s)
  | some .devfs => some (devfsOpen s path flags)
  | some (.echfs m device) => echfsOpen s m device path flags

-- `none` is a call through an entry of `filesystems` that does not exist, here and below.
def State.internalClose (s : State) (descriptor : FileHandleV2) : Option (Int × State) :=
  match s.mountpoint descriptor.mountpoint with
  | none => none
  | some .devfs => some (devfsClose s descriptor.internalHandle)
  | some (.echfs _ _) => echfsClose s descriptor.internalHandle

-- Mount point and local path are what vfs_translate_mnt makes of the path.
def vfsOpen (s : State) (pid : Nat) (mountpoint : Int) (path : Path) (flags : Nat) :
    Option (Int × State) :=
  (s.internalOpen mountpoint path flags).map fun opened =>
    if opened.1 = -1 then (-1, opened.2)
    else opened.2.createDescriptor pid { mountpoint := mountpoint, internalHandle := opened.1 }

-- The file system closes its handle before anything is known about the number.
def vfsClose (s : State) (pid : Nat) (handle : Int) : Option (Int × State) :=
  (s.internalClose (s.descriptor pid handle)).map fun closed =>
    finishClose closed.2 pid handle closed.1

def Slot.base : Slot → Nat
  | .task _ task => task.base
  | _ => 0

-- User memory from an offset on, in 32-bit addresses.
def State.userStart (s : State) (pid ptr : Nat) : Nat := Slot.base (s.kernel.taskTable pid) + ptr

def storeBytes (mem : Store) : Nat → List UInt8 → Store
  | _, [] => mem
  | start, byte :: rest => storeBytes (Function.update mem (start % 2 ^ 32) byte) (start + 1) rest

def loadBytes (mem : Store) (start count : Nat) : List UInt8 :=
  (List.range count).map fun offset => mem ((start + offset) % 2 ^ 32)

def State.storeUser (s : State) (pid ptr : Nat) (bytes : List UInt8) : State :=
  { s with kernel.heap.mem := storeBytes s.kernel.heap.mem (s.userStart pid ptr) bytes }

-- How many bytes a device takes before it stops, and whether it stops to be asked again.
structure Answer where
  served : Nat
  notReady : Bool

def chunk (len : Int) : Nat :=
  if len ≤ MAX_SIMULTANOUS_VFS_ACCESS then len.toNat else MAX_SIMULTANOUS_VFS_ACCESS

def State.setDevice (s : State) (handle : Int) (entry : DevfsHandle) (disk : Store) : State :=
  { s with
    devfsHandles := setAt s.devfsHandles handle entry
    disks := Function.update s.disks entry.device disk }

-- The result with `read_stat`. Nothing checks the pointer: what the call stores is taken to lie in
-- the caller's block.
def vfsUread (s : State) (pid : Nat) (handle : Int) (ptr : Nat) (len : Int) (answer : Answer) :
    Option (Int × Bool × State) :=
  let descriptor := s.descriptor pid handle
  let count := chunk len
  let more : Bool := (MAX_SIMULTANOUS_VFS_ACCESS : Int) < len
  match s.mountpoint descriptor.mountpoint with
  | none => none
  | some .devfs =>
      (entryAt s.devfsHandles descriptor.internalHandle).map fun entry =>
        let served := min count answer.served
        let result := devfsUread (s.disks entry.device) entry served
        let s := s.setDevice descriptor.internalHandle result.2 (s.disks entry.device)
        (served, more || answer.notReady && decide (served < count),
          s.storeUser pid ptr ((List.range served).map result.1))
  | some (.echfs _ _) =>
      (echfsUread s descriptor.internalHandle count).map fun result =>
        (result.1.length, more, result.2.storeUser pid ptr result.1)

-- The result with `write_stat`.
def vfsUwrite (s : State) (pid : Nat) (handle : Int) (ptr : Nat) (len : Int) (answer : Answer) :
    Option (Int × Bool × State) :=
  let descriptor := s.descriptor pid handle
  let count := chunk len
  let more : Bool := (MAX_SIMULTANOUS_VFS_ACCESS : Int) < len
  let data := loadBytes s.kernel.heap.mem (s.userStart pid ptr) count
  match s.mountpoint descriptor.mountpoint with
  | none => none
  | some .devfs =>
      (entryAt s.devfsHandles descriptor.internalHandle).map fun entry =>
        let served := min count answer.served
        let result := devfsUwrite (s.disks entry.device) entry served (bytesAt data)
        (served, more || answer.notReady && decide (served < count),
          s.setDevice descriptor.internalHandle result.2 result.1)
  | some (.echfs _ _) =>
      (echfsUwrite s descriptor.internalHandle data).map fun result => (result.1, more, result.2)

def vfsSeek (s : State) (pid : Nat) (handle : Int) (offset : Int) (type : Whence) :
    Option (Int × State) :=
  let descriptor := s.descriptor pid handle
  match s.mountpoint descriptor.mountpoint with
  | none => none
  | some .devfs =>
      match entryAt s.devfsHandles descriptor.internalHandle with
      | none => some (-1, s)
      | some entry =>
          let result := devfsSeek entry offset type
          some (result.1, { s with
            devfsHandles := setAt s.devfsHandles descriptor.internalHandle result.2 })
  | some (.echfs _ _) => some (echfsSeek s descriptor.internalHandle offset type)

inductive Call where
  | openPath (mountpoint : Int) (path : Path) (flags : Nat)
  | close (handle : Int)
  | uread (handle : Int) (ptr : Nat) (len : Int) (answer : Answer)
  | uwrite (handle : Int) (ptr : Nat) (len : Int) (answer : Answer)
  | seek (handle : Int) (offset : Int) (type : Whence)

-- A system call of the task that is running.
structure Action where
  pid : Nat
  call : Call

def step (s : State) (action : Action) : Option State :=
  if s.kernel.isActive action.pid then
    match action.call with
    | .openPath mountpoint path flags => (vfsOpen s action.pid mountpoint path flags).map (·.2)
    | .close handle => (vfsClose s action.pid handle).map (·.2)
    | .uread handle ptr len answer => (vfsUread s action.pid handle ptr len answer).map (·.2.2)
    | .uwrite handle ptr len answer => (vfsUwrite s action.pid handle ptr len answer).map (·.2.2)
    | .seek handle offset type => (vfsSeek s action.pid handle offset type).map (·.2)
  else none

end EchidnaOS.Vfs
