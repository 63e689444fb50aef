import EchidnaOS.Echfs.Handle
import EchidnaOS.Task

namespace EchidnaOS.Vfs

open EchidnaOS.Lib EchidnaOS.Lib.SlotTable EchidnaOS.Lib.ByteStore EchidnaOS.Klib EchidnaOS.Devfs EchidnaOS.Echfs

def O_CREAT : Nat := 16
def O_TRUNC : Nat := 512

-- The i386 size of `cached_file_t`.
def SIZEOF_CACHED_FILE : Nat := 35580

structure Device where
  name : CString
  size : Nat

-- What a mount point leads to; an echfs volume lies on the device with that index.
inductive Mountpoint where
  | devfs
  | echfs (m : Mount) (device : Nat)

-- `echfs_handle_t`; `cachedFile` is an address.
structure EchfsHandle where
  free : Bool := false
  path : Path
  flags : Nat := 0
  ptr : Int := 0
  begin : Int := 0
  finish : Int := 0
  mount : Mount
  devHandle : Int := 0
  cachedFile : Nat := 0

-- `mountpoint` is the entry of `mountpoints` at an index, as vfs_translate_fs takes it, and
-- `none` for FAILURE. `stray` is what memory holds in place of an entry when a descriptor
-- number is out of range. `record` is the `cached_file_t` at an address.
structure State where
  kernel : Kernel
  mountpoint : Int → Option Mountpoint
  devMountpoint : Int
  devices : List Device
  disks : Nat → Store
  devfsHandles : List DevfsHandle := []
  echfsHandles : List EchfsHandle := []
  cachedFiles : Nat := 0
  cachedFilesPtr : Nat := 0
  record : Nat → CachedFile
  stray : Nat → Int → FileHandleV2 := fun _ _ => {}

def Slot.handlesV2 : Slot → List FileHandleV2
  | .task _ task => task.handlesV2
  | _ => []

-- The `file_handles_v2` of a task.
def State.table (s : State) (pid : Nat) : List FileHandleV2 := Slot.handlesV2 (s.kernel.taskTable pid)

def State.descriptor (s : State) (pid : Nat) (handle : Int) : FileHandleV2 :=
  (entryAt (s.table pid) handle).getD (s.stray pid handle)

def State.setTable (s : State) (pid : Nat) (table : List FileHandleV2) : State :=
  match s.kernel.taskTable pid with
  | .task address task =>
      { s with kernel := s.kernel.setTask pid address { task with handlesV2 := table } }
  | _ => s

-- create_file_handle_v2, with the number it returns.
def State.createDescriptor (s : State) (pid : Nat) (handle : FileHandleV2) : Int × State :=
  ((SlotTable.create (·.free) (s.table pid) handle).1,
    { s with kernel := createFileHandleV2 s.kernel pid handle })

def devfsCreateHandle (s : State) (handle : DevfsHandle) : Int × State :=
  ((SlotTable.create (·.free) s.devfsHandles handle).1,
    { s with devfsHandles := (SlotTable.create (·.free) s.devfsHandles handle).2 })

def echfsCreateHandle (s : State) (handle : EchfsHandle) : Int × State :=
  ((SlotTable.create (·.free) s.echfsHandles handle).1,
    { s with echfsHandles := (SlotTable.create (·.free) s.echfsHandles handle).2 })

def devfsOpen (s : State) (path : Path) (flags : Nat) : Int × State :=
  match s.devices.findIdx? fun device => device.name = skipSlash path.text with
  | none => (-1, s)
  | some device =>
      if flags &&& O_TRUNC ≠ 0 ∨ flags &&& O_APPEND ≠ 0 ∨ flags &&& O_CREAT ≠ 0 then (-1, s)
      else
        let size := (s.devices[device]?.map (·.size)).getD 0
        devfsCreateHandle s
          { path := path.text, flags := flags, finish := size, isblock := size = 0, device := device }

def devfsClose (s : State) (handle : Int) : Int × State :=
  match entryAt s.devfsHandles handle with
  | none => (-1, s)
  | some entry =>
      if entry.free then (-1, s)
      else (0, { s with devfsHandles := setAt s.devfsHandles handle { entry with free := true } })

-- `devfs_handles[handle]` is not checked.
def devfsFork (s : State) (handle : Int) : Option (Int × State) :=
  (entryAt s.devfsHandles handle).map (devfsCreateHandle s)

-- vfs_kopen on the device of a volume, whose name leads to the devfs mount point.
def vfsKopen (s : State) (device : Nat) : Int × State :=
  let size := (s.devices[device]?.map (·.size)).getD 0
  let opened := devfsCreateHandle s
    { path := (s.devices[device]?.map (·.name)).getD [], flags := O_RDWR, finish := size
      isblock := size = 0, device := device }
  opened.2.createDescriptor 0 { mountpoint := s.devMountpoint, internalHandle := opened.1 }

-- vfs_close and vfs_kclose after the call of the file system: the checks on the number come
-- when the handle behind it is already closed.
def finishClose (s : State) (pid : Nat) (handle : Int) (ret : Int) : Int × State :=
  if ret = -1 then (-1, s)
  else
    match entryAt (s.table pid) handle with
    | none => (-1, s)
    | some entry =>
        if entry.free then (-1, s)
        else (0, s.setTable pid (setAt (s.table pid) handle { entry with free := true }))

-- The kernel's descriptors that reach here are those of devices. `none` is a call
-- through an entry of `filesystems` that does not exist.
def vfsKclose (s : State) (handle : Int) : Option (Int × State) :=
  match s.mountpoint (s.descriptor 0 handle).mountpoint with
  | some .devfs =>
      let closed := devfsClose s (s.descriptor 0 handle).internalHandle
      some (finishClose closed.2 0 handle closed.1)
  | _ => none

def vfsKfork (s : State) (handle : Int) : Option (Int × State) :=
  let descriptor := s.descriptor 0 handle
  match s.mountpoint descriptor.mountpoint with
  | none => some (Echfs.FAILURE, s)
  | some .devfs =>
      (devfsFork s descriptor.internalHandle).map fun forked =>
        forked.2.createDescriptor 0 { descriptor with free := false, internalHandle := forked.1 }
  | some (.echfs _ _) => none

-- Slot `index` of the array that starts at `base`.
def slotAddress (base index : Nat) : Nat := base + index * SIZEOF_CACHED_FILE

def State.cachedFile (s : State) (index : Nat) : CachedFile :=
  s.record (slotAddress s.cachedFiles index)

def State.findCached (s : State) (path : Path) : Option Nat :=
  (List.range s.cachedFilesPtr).find? fun index => (s.cachedFile index).path = path

def emptyPath : Path := ⟨[], by simp, by decide, by decide⟩

-- A slot of zeroed memory.
def zeroRecord : CachedFile := { path := emptyPath, pathResult := {}, allocMap := [] }

-- The records after krealloc: nothing moves when it fails or the pointer stays, else `count`
-- of them are copied to zeroed memory.
def moveRecords (record : Nat → CachedFile) (old new count total : Nat) : Nat → CachedFile :=
  if new = old ∨ new = 0 then record
  else fun address =>
    if new ≤ address ∧ (address - new) % SIZEOF_CACHED_FILE = 0 ∧
        (address - new) / SIZEOF_CACHED_FILE < total then
      if (address - new) / SIZEOF_CACHED_FILE < count then record (old + (address - new))
      else zeroRecord
    else record address

-- `cached_files = krealloc(cached_files, sizeof(cached_file_t) * (cached_files_ptr+1))`, and
-- the new slot filled. echfs_open resets the cache of the slot; echfs_read and echfs_write
-- leave what is there.
def State.addCached (s : State) (file : CachedFile) (reset : Bool) : Nat × State :=
  let count := s.cachedFilesPtr
  let block := krealloc s.kernel.heap s.cachedFiles (SIZEOF_CACHED_FILE * (count + 1) % 2 ^ 32)
  let record := moveRecords s.record s.cachedFiles block.1 count (count + 1)
  let old := record (slotAddress block.1 count)
  let file :=
    if reset then { file with cachedBlock := old.cachedBlock, cache := old.cache }
    else { file with
      cachedBlock := old.cachedBlock, cache := old.cache, cacheStatus := old.cacheStatus }
  (slotAddress block.1 count,
    { s with
      kernel := { s.kernel with heap := block.2 }
      cachedFiles := block.1
      cachedFilesPtr := count + 1
      record := Function.update record (slotAddress block.1 count) file })

-- The address of the record of a path, which is added if there is none.
def State.cacheFile (s : State) (m : Mount) (device : Nat) (path : Path) (reset : Bool) :
    Option (Nat × State) :=
  match s.findCached path with
  | some index => some (slotAddress s.cachedFiles index, s)
  | none => (newCachedFile (s.disks device) m path).map fun file => s.addCached file reset

def State.setDisk (s : State) (device : Nat) (disk : Store) : State :=
  { s with disks := Function.update s.disks device disk }

def State.setRecord (s : State) (address : Nat) (file : CachedFile) : State :=
  { s with record := Function.update s.record address file }

end EchidnaOS.Vfs
