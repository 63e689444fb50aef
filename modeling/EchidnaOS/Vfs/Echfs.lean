import EchidnaOS.Vfs

namespace EchidnaOS.Vfs

open EchidnaOS.Lib.SlotTable EchidnaOS.Lib.ByteStore EchidnaOS.Klib EchidnaOS.Devfs EchidnaOS.Echfs

-- echfs_get_metadata of a file; `none` is FAILURE.
def State.fileSize (s : State) (m : Mount) (device : Nat) (path : Path) : Option Nat :=
  let result := pathResolver (s.disks device) m path FILE_TYPE
  if result.failure ∨ result.notFound then none else some result.target.size

-- The cached file is taken out: the slots after it move down, and krealloc gives the array a
-- new block that nobody keeps the address of.
def State.dropCached (s : State) (index : Nat) : State :=
  let base := s.cachedFiles
  let count := s.cachedFilesPtr - 1
  let shifted : Nat → CachedFile := fun address =>
    if base ≤ address ∧ (address - base) % SIZEOF_CACHED_FILE = 0 ∧
        index ≤ (address - base) / SIZEOF_CACHED_FILE ∧
        (address - base) / SIZEOF_CACHED_FILE < s.cachedFilesPtr then
      s.record (address + SIZEOF_CACHED_FILE)
    else s.record address
  let block := krealloc s.kernel.heap base (SIZEOF_CACHED_FILE * count % 2 ^ 32)
  { s with
    kernel := { s.kernel with heap := block.2 }
    cachedFilesPtr := count
    record := moveRecords shifted base block.1 count count }

-- `none` is a call that never returns, here and below.
def echfsRemove (s : State) (m : Mount) (device : Nat) (path : Path) : Option (Int × State) :=
  let found :=
    match s.findCached path with
    | some index => ((s.cachedFile index).pathResult, s.dropCached index)
    | none => (pathResolver (s.disks device) m path FILE_TYPE, s)
  (removeResolved (s.disks device) m found.1).map fun
    | none => (Echfs.FAILURE, found.2)
    | some disk => (SUCCESS, found.2.setDisk device disk)

-- The file is created when it is missing and O_CREAT asks for it; the inner `none` is the
-- return of -1. A size that no call has filled in is taken as 0.
def State.findOrCreate (s : State) (m : Mount) (device : Nat) (path : Path) (flags : Nat) :
    Option (Option (Nat × State)) :=
  match s.fileSize m device path with
  | some size => some (some (size, s))
  | none =>
      if flags &&& O_CREAT = 0 then some none
      else
        (echfsCreate (s.disks device) m path).map fun created => created.map fun disk =>
          let s := s.setDisk device disk
          ((s.fileSize m device path).getD 0, s)

def State.truncate (s : State) (m : Mount) (device : Nat) (path : Path) (flags size : Nat) :
    Option (Nat × State) :=
  if flags &&& O_TRUNC = 0 then some (size, s)
  else
    (echfsRemove s m device path).bind fun removed =>
      (echfsCreate (removed.2.disks device) m path).map fun created =>
        let s := (created.map (removed.2.setDisk device)).getD removed.2
        ((s.fileSize m device path).getD size, s)

-- The handle is made once the record of the file has its slot.
def State.openCached (s : State) (m : Mount) (device : Nat) (path : Path) (flags size : Nat) :
    Option (Int × State) :=
  let start := if flags &&& O_APPEND = 0 then 0 else toInt size
  (s.cacheFile m device path true).map fun cached =>
    let opened := vfsKopen cached.2 device
    echfsCreateHandle opened.2
      { path := path, flags := flags, ptr := start, begin := start, finish := toInt size, mount := m
        devHandle := opened.1, cachedFile := cached.1 }

def echfsOpen (s : State) (m : Mount) (device : Nat) (path : Path) (flags : Nat) :
    Option (Int × State) :=
  (s.findOrCreate m device path flags).bind fun
    | none => some (-1, s)
    | some found =>
        (found.2.truncate m device path flags found.1).bind fun ready =>
          ready.2.openCached m device path flags ready.1

def echfsClose (s : State) (handle : Int) : Option (Int × State) :=
  match entryAt s.echfsHandles handle with
  | none => some (-1, s)
  | some entry =>
      if entry.free then some (-1, s)
      else
        (vfsKclose s entry.devHandle).map fun closed =>
          (0, { closed.2 with
            echfsHandles := setAt closed.2.echfsHandles handle { entry with free := true } })

-- `echfs_handles[handle]` is not checked.
def echfsFork (s : State) (handle : Int) : Option (Int × State) :=
  (entryAt s.echfsHandles handle).bind fun entry =>
    (vfsKfork s entry.devHandle).map fun forked =>
      echfsCreateHandle forked.2 { entry with devHandle := forked.1 }

def echfsRead (s : State) (m : Mount) (device : Nat) (path : Path) (loc : Nat) :
    Option (Int × State) :=
  (s.cacheFile m device path false).map fun cached =>
    let file := cached.2.record cached.1
    if file.pathResult.notFound then (Echfs.FAILURE, cached.2)
    else if file.pathResult.target.size ≤ loc then (EOF, cached.2)
    else
      let result := readByte (byteAccess m) (cached.2.disks device) file loc
      (result.1.toNat, (cached.2.setDisk device result.2.1).setRecord cached.1 result.2.2)

def echfsWrite (s : State) (m : Mount) (device : Nat) (path : Path) (val : UInt8) (loc : Nat) :
    Option (Int × State) :=
  (s.cacheFile m device path false).bind fun cached =>
    let file := cached.2.record cached.1
    if file.pathResult.notFound then some (Echfs.FAILURE, cached.2)
    else
      (writeByte (byteAccess m) m (cached.2.disks device) file val loc).map fun next =>
        (SUCCESS, (cached.2.setDisk device next.1).setRecord cached.1 next.2)

-- The device handle behind an echfs handle, with its number.
def State.deviceOf (s : State) (entry : EchfsHandle) : Option (Int × DevfsHandle) :=
  let descriptor := s.descriptor 0 entry.devHandle
  match s.mountpoint descriptor.mountpoint with
  | some .devfs => (entryAt s.devfsHandles descriptor.internalHandle).map
      (descriptor.internalHandle, ·)
  | _ => none

-- What a transfer through an echfs handle works on, and the state that it leaves.
def State.openFile (s : State) (handle : Int) : Option OpenFile :=
  (entryAt s.echfsHandles handle).bind fun entry =>
    (s.deviceOf entry).map fun device =>
      { dev := { disk := s.disks device.2.device, handle := device.2 }
        file := s.record entry.cachedFile
        flags := entry.flags
        ptr := entry.ptr
        begin := entry.begin
        finish := entry.finish }

def State.putFile (s : State) (handle : Int) (entry : EchfsHandle) (device : Int × DevfsHandle)
    (h : OpenFile) : State :=
  { s with
    echfsHandles := setAt s.echfsHandles handle { entry with ptr := h.ptr }
    devfsHandles := setAt s.devfsHandles device.1 h.dev.handle
    disks := Function.update s.disks device.2.device h.dev.disk
    record := Function.update s.record entry.cachedFile h.file }

-- A transfer through an echfs handle. Neither the number nor `free` is checked.
def State.transfer {α : Type} (s : State) (handle : Int)
    (call : Mount → OpenFile → Option (α × OpenFile)) : Option (α × State) :=
  (entryAt s.echfsHandles handle).bind fun entry =>
    (s.deviceOf entry).bind fun device =>
      (s.openFile handle).bind fun h =>
        (call entry.mount h).map fun result =>
          (result.1, s.putFile handle entry device result.2)

def echfsUread (s : State) (handle : Int) (len : Nat) : Option (List UInt8 × State) :=
  s.transfer handle fun _ h => some (Echfs.echfsUread h len)

def echfsUwrite (s : State) (handle : Int) (data : List UInt8) : Option (Nat × State) :=
  s.transfer handle fun m h => Echfs.echfsUwrite m h data

def EchfsHandle.seekTo (entry : EchfsHandle) (target : Int) : Int × EchfsHandle :=
  if entry.finish < target ∨ target < entry.begin then (-1, entry)
  else (target, { entry with ptr := target })

def EchfsHandle.seek (entry : EchfsHandle) (offset : Int) (type : Whence) : Int × EchfsHandle :=
  if entry.free then (-1, entry)
  else
    match type with
    | .set => entry.seekTo (entry.begin + offset)
    | .finish => entry.seekTo (entry.finish + offset)
    | .cur => entry.seekTo (entry.ptr + offset)
    | .other => (-1, entry)

def echfsSeek (s : State) (handle : Int) (offset : Int) (type : Whence) : Int × State :=
  match entryAt s.echfsHandles handle with
  | none => (-1, s)
  | some entry =>
      let result := entry.seek offset type
      (result.1, { s with echfsHandles := setAt s.echfsHandles handle result.2 })

end EchidnaOS.Vfs
