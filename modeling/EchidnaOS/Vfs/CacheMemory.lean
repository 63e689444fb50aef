import EchidnaOS.Klib.Heap.Owner
import EchidnaOS.Lib.Run
import EchidnaOS.Vfs.Echfs

namespace EchidnaOS.Vfs

open EchidnaOS.Lib.SlotTable EchidnaOS.Lib.ByteStore EchidnaOS.Klib EchidnaOS.Devfs EchidnaOS.Echfs

-- The i386 sizes of `devfs_handle_t` and `echfs_handle_t`.
def SIZEOF_DEVFS_HANDLE : Nat := 1068
def SIZEOF_ECHFS_HANDLE : Nat := 1060

-- The driver with the heap objects it points to: `maps` are the `alloc_map` fields of the slots,
-- and the arrays are those of the handles. `live` are the objects that are not freed, and
-- `reads` the slots of the table that a call has looked at.
structure Memory where
  s : State
  live : List Nat
  maps : Nat → Nat := fun _ => 0
  devfsArray : Nat := 0
  echfsArray : Nat := 0
  reads : List Nat := []

namespace Memory

-- krealloc, and kalloc when `ptr` is NULL; a call that returns NULL is `none`.
def resize (mem : Memory) (ptr size : Nat) : Option (Nat × Memory) :=
  let block := krealloc mem.s.kernel.heap ptr (size % 2 ^ 32)
  if block.1 = 0 then none
  else some (block.1, { mem with s.kernel.heap := block.2, live := block.1 :: mem.live.filter (· ≠ ptr) })

def free (mem : Memory) (ptr : Nat) : Memory :=
  { mem with s.kernel.heap := kfree mem.s.kernel.heap ptr, live := mem.live.filter (· ≠ ptr) }

def look (mem : Memory) (slots : List Nat) : Memory := { mem with reads := mem.reads ++ slots }

-- The array of a slot grows to `i + 1` numbers, for one `i` after the other.
def growMap (mem : Memory) (slot : Nat) : List Nat → Option Memory
  | [] => some mem
  | i :: rest =>
      (mem.resize (mem.maps slot) (8 * (i + 1))).bind fun grown =>
        growMap { grown.2 with maps := Function.update grown.2.maps slot grown.1 } slot rest

-- The allocation map of a new slot.
def loadMap (mem : Memory) (slot length : Nat) : Option Memory :=
  (mem.resize 0 8).bind fun first =>
    growMap { first.2 with maps := Function.update first.2.maps slot first.1 } slot
      (List.range' 1 (length - 1))

-- A new slot at the end of the table.
def addCached (mem : Memory) (file : CachedFile) (reset : Bool) : Option Memory :=
  let added := (mem.s.addCached file reset).2
  if added.cachedFiles = 0 then none
  else
    some { mem with
      s := added, live := added.cachedFiles :: mem.live.filter (· ≠ mem.s.cachedFiles) }

-- The loop over the table, up to the slot of the path.
def search (mem : Memory) (path : Path) : Memory :=
  match mem.s.findCached path with
  | some slot => mem.look (List.range (slot + 1))
  | none => mem.look (List.range mem.s.cachedFilesPtr)

def cacheFile (mem : Memory) (m : Mount) (device : Nat) (path : Path) (reset : Bool) :
    Option (Nat × Memory) :=
  match mem.s.findCached path with
  | some slot => some (slot, mem.search path)
  | none =>
      (newCachedFile (mem.s.disks device) m path).bind fun file =>
        ((mem.search path).addCached file reset).bind fun added =>
          (added.loadMap mem.s.cachedFilesPtr file.allocMap.length).map fun loaded =>
            (mem.s.cachedFilesPtr, loaded.look [mem.s.cachedFilesPtr])

def read (mem : Memory) (m : Mount) (device : Nat) (path : Path) (loc : Nat) :
    Option (Int × Memory) :=
  (mem.cacheFile m device path false).map fun cached =>
    let address := slotAddress cached.2.s.cachedFiles cached.1
    let file := cached.2.s.record address
    if file.pathResult.notFound then (Echfs.FAILURE, cached.2)
    else if file.pathResult.target.size ≤ loc then (EOF, cached.2)
    else
      let result := readByte (byteAccess m) (cached.2.s.disks device) file loc
      (result.1.toNat,
        { cached.2 with s := (cached.2.s.setDisk device result.2.1).setRecord address result.2.2 })

-- The entries that a write at `loc` adds to the allocation map, and the new end.
def addedEntries (file : CachedFile) (loc : Nat) : List Nat :=
  let old := blockCount file.pathResult.target.size
  let new := blockCount ((loc + 1) % 2 ^ 64)
  if old < new then List.range' old (new - old) ++ [new] else []

def write (mem : Memory) (m : Mount) (device : Nat) (path : Path) (val : UInt8) (loc : Nat) :
    Option (Int × Memory) :=
  (mem.cacheFile m device path false).bind fun cached =>
    let address := slotAddress cached.2.s.cachedFiles cached.1
    let file := cached.2.s.record address
    if file.pathResult.notFound then some (Echfs.FAILURE, cached.2)
    else
      (writeByte (byteAccess m) m (cached.2.s.disks device) file val loc).bind fun next =>
        (cached.2.growMap cached.1 (addedEntries file loc)).map fun grown =>
          (SUCCESS, { grown with s := (grown.s.setDisk device next.1).setRecord address next.2 })

-- The slots from `slot` on are each replaced by the next one, the last one by what lies behind
-- the table. The new block that krealloc returns is live, and nobody has its address.
def dropCached (mem : Memory) (slot : Nat) : Option Memory :=
  let count := mem.s.cachedFilesPtr
  let block := krealloc mem.s.kernel.heap mem.s.cachedFiles (SIZEOF_CACHED_FILE * (count - 1) % 2 ^ 32)
  if block.1 = 0 then none
  else
    some { mem.look (List.range' (slot + 1) (count - slot)) with
      s := mem.s.dropCached slot
      live := block.1 :: mem.live.filter (· ≠ mem.s.cachedFiles)
      maps := fun i => if slot ≤ i ∧ i < count then mem.maps (i + 1) else mem.maps i }

def remove (mem : Memory) (m : Mount) (device : Nat) (path : Path) : Option (Int × Memory) :=
  let dropped :=
    match mem.s.findCached path with
    | some slot =>
        (((mem.search path).free (mem.maps slot)).dropCached slot).map
          ((mem.s.cachedFile slot).pathResult, ·)
    | none => some (pathResolver (mem.s.disks device) m path FILE_TYPE, mem.search path)
  dropped.bind fun found =>
    (removeResolved (found.2.s.disks device) m found.1).map fun
      | none => (Echfs.FAILURE, found.2)
      | some disk => (SUCCESS, { found.2 with s := found.2.s.setDisk device disk })

def truncate (mem : Memory) (m : Mount) (device : Nat) (path : Path) (flags size : Nat) :
    Option (Nat × Memory) :=
  if flags &&& O_TRUNC = 0 then some (size, mem)
  else
    (mem.remove m device path).bind fun removed =>
      (echfsCreate (removed.2.s.disks device) m path).map fun created =>
        let s := (created.map (removed.2.s.setDisk device)).getD removed.2.s
        ((s.fileSize m device path).getD size, { removed.2 with s := s })

-- The arrays of handles grow when no handle in them is free.
def growDevfs (mem : Memory) : Option Memory :=
  if mem.s.devfsHandles.any (·.free) then some mem
  else
    (mem.resize mem.devfsArray ((mem.s.devfsHandles.length + 1) * SIZEOF_DEVFS_HANDLE)).map
      fun grown => { grown.2 with devfsArray := grown.1 }

def growEchfs (mem : Memory) : Option Memory :=
  if mem.s.echfsHandles.any (·.free) then some mem
  else
    (mem.resize mem.echfsArray ((mem.s.echfsHandles.length + 1) * SIZEOF_ECHFS_HANDLE)).map
      fun grown => { grown.2 with echfsArray := grown.1 }

-- The `file_handles_v2` pointer of the kernel's task.
def descriptors (s : State) : Nat :=
  match s.kernel.taskTable 0 with
  | .task _ task => task.fileHandlesV2
  | _ => 0

def kopen (mem : Memory) (device : Nat) : Option (Int × Memory) :=
  mem.growDevfs.bind fun grown =>
    let opened := vfsKopen grown.s device
    if (grown.s.table 0).any (·.free) then some (opened.1, { grown with s := opened.2 })
    else if descriptors opened.2 = 0 then none
    else
      some (opened.1, { grown with
        s := opened.2
        live := descriptors opened.2 :: grown.live.filter (· ≠ descriptors grown.s) })

def openCached (mem : Memory) (m : Mount) (device : Nat) (path : Path) (flags size : Nat) :
    Option (Int × Memory) :=
  let start := if flags &&& O_APPEND = 0 then 0 else toInt size
  (mem.cacheFile m device path true).bind fun cached =>
    (cached.2.kopen device).bind fun opened =>
      opened.2.growEchfs.map fun grown =>
        let created := echfsCreateHandle grown.s
          { path := path, flags := flags, ptr := start, begin := start, finish := toInt size, mount := m
            devHandle := opened.1, cachedFile := slotAddress grown.s.cachedFiles cached.1 }
        (created.1, { grown with s := created.2 })

def openFile (mem : Memory) (m : Mount) (device : Nat) (path : Path) (flags : Nat) :
    Option (Int × Memory) :=
  (mem.s.findOrCreate m device path flags).bind fun
    | none => some (-1, mem)
    | some found =>
        (({ mem with s := found.2 } : Memory).truncate m device path flags found.1).bind fun ready =>
          ready.2.openCached m device path flags ready.1

end Memory

inductive FileCall where
  | open (path : Path) (flags : Nat)
  | read (path : Path) (loc : Nat)
  | write (path : Path) (val : UInt8) (loc : Nat)
  | remove (path : Path)

-- A call for a file of the volume `m` on a device.
structure VolumeCall where
  m : Mount
  device : Nat
  call : FileCall

def Memory.call (mem : Memory) (action : VolumeCall) : Option (Int × Memory) :=
  match action.call with
  | .open path flags => mem.openFile action.m action.device path flags
  | .read path loc => mem.read action.m action.device path loc
  | .write path val loc => mem.write action.m action.device path val loc
  | .remove path => mem.remove action.m action.device path

def Memory.step (mem : Memory) (action : VolumeCall) : Option Memory :=
  (({ mem with reads := [] } : Memory).call action).map (·.2)

end EchidnaOS.Vfs
