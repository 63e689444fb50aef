import EchidnaOS.Echfs.File
import EchidnaOS.Devfs

namespace EchidnaOS.Echfs

open EchidnaOS.Lib.ByteStore EchidnaOS.Devfs

-- The device of the image behind the device handle of an open file.
structure DevFile where
  disk : Store
  handle : DevfsHandle

-- `vfs_kseek(cur_handle, (int)loc, SEEK_SET)`, whose result nobody looks at.
def DevFile.seek (dev : DevFile) (loc : Nat) : DevFile :=
  { dev with handle := (devfsSeek dev.handle (toInt loc) .set).2 }

def DevFile.rdAt (dev : DevFile) (loc count : Nat) : Store × DevFile :=
  let dev := dev.seek loc
  let result := devfsUread dev.disk dev.handle count
  (result.1, { dev with handle := result.2 })

def DevFile.wrAt (dev : DevFile) (loc count : Nat) (source : Store) : DevFile :=
  let dev := dev.seek loc
  let result := devfsUwrite dev.disk dev.handle count source
  { disk := result.1, handle := result.2 }

def DevFile.zeroBytes (dev : DevFile) (loc count : Nat) : DevFile :=
  (List.range count).foldl (fun dev ii => dev.wrAt (loc + ii) 1 fun _ => 0) dev

def bytesAt (bytes : List UInt8) : Store := fun offset => bytes.getD offset 0

-- rd_qword_u, wr_qword_u, wr_byte_u and the block transfers. The directory entry is only
-- written at the end of a call.
def handleAccess : Access DevFile where
  rdQword dev loc :=
    let result := dev.rdAt loc 8
    (leValue (read result.1 0 8), result.2)
  wrQword dev loc x := dev.wrAt loc 8 (bytesAt (leBytes 8 x))
  zeroBlock dev loc := dev.zeroBytes loc BYTES_PER_BLOCK
  rdBlock dev loc := dev.rdAt loc BYTES_PER_BLOCK
  wrBlock dev loc cache := dev.wrAt loc BYTES_PER_BLOCK cache
  wrTarget dev _ := dev

-- `entry_t` as it lies in memory, with zeros after the end of the name.
def entryBytes (entry : Entry) : List UInt8 :=
  leBytes 8 entry.parentId ++ [entry.type] ++
    (entry.name ++ List.replicate (FILENAME_LEN - entry.name.length) 0) ++ [entry.perms] ++
    leBytes 2 entry.owner.toNat ++ leBytes 2 entry.group.toNat ++
    [entry.hundreths, entry.seconds, entry.minutes, entry.hours, entry.day, entry.month] ++
    leBytes 2 entry.year.toNat ++ leBytes 8 entry.payload ++ leBytes 8 entry.size

def wrEntryU (m : Mount) (dev : DevFile) (index : Nat) (entry : Entry) : DevFile :=
  dev.wrAt (entryLoc m index) SIZEOF_ENTRY (bytesAt (entryBytes entry))

def O_RDWR : Nat := 3
def O_APPEND : Nat := 8

-- An echfs handle with the record and the device handle it points to; `finish` is `end`.
structure OpenFile where
  dev : DevFile
  file : CachedFile
  flags : Nat
  ptr : Int
  begin : Int
  finish : Int

-- The handle echfs_open makes for a file that exists, and that it does not truncate, on a
-- device of `devSize` bytes.
def openFile (v : Volume) (m : Mount) (path : Path) (flags devSize : Nat) : Option OpenFile :=
  let size := toInt (pathResolver v.disk m path FILE_TYPE).target.size
  let start := if flags &&& O_APPEND = 0 then 0 else size
  (cacheFile v m path).map fun (_, file, v) =>
    { dev := { disk := v.disk
               handle := { flags := O_RDWR, finish := devSize, isblock := devSize = 0 } }
      file := file
      flags := flags
      ptr := start
      begin := start
      finish := size }

-- The loop over echfs_ureadbyte, with cur_loc.
def ureadBytes (finish : Int) : Nat → DevFile → CachedFile → Int →
    List UInt8 × DevFile × CachedFile × Int
  | 0, dev, file, curLoc => ([], dev, file, curLoc)
  | len + 1, dev, file, curLoc =>
      if finish ≤ curLoc then ([], dev, file, curLoc)
      else
        let result := readByte handleAccess dev file curLoc.toNat
        let rest := ureadBytes finish len result.2.1 result.2.2 (curLoc + 1)
        (result.1 :: rest.1, rest.2)

-- The bytes that are stored at `ptr`; the call returns how many they are.
def echfsUread (h : OpenFile) (len : Nat) : List UInt8 × OpenFile :=
  let result := ureadBytes h.finish len h.dev h.file h.ptr
  (result.1, { h with dev := result.2.1, file := result.2.2.1, ptr := result.2.2.2 })

-- The loop over echfs_uwritebyte.
def uwriteBytes (m : Mount) : List UInt8 → DevFile → CachedFile → Int →
    Option (DevFile × CachedFile × Int)
  | [], dev, file, curLoc => some (dev, file, curLoc)
  | val :: rest, dev, file, curLoc =>
      (writeByte handleAccess m dev file val curLoc.toNat).bind fun next =>
        uwriteBytes m rest next.1 next.2 (curLoc + 1)

-- `none` is a call that never returns.
def echfsUwrite (m : Mount) (h : OpenFile) (data : List UInt8) : Option (Nat × OpenFile) :=
  (uwriteBytes m data h.dev h.file h.ptr).map fun result =>
    let pathResult := result.2.1.pathResult
    (data.length, { h with
      dev := wrEntryU m result.1 pathResult.targetEntry pathResult.target
      file := result.2.1
      ptr := result.2.2 })

def OpenFile.seekTo (h : OpenFile) (target : Int) : Int × OpenFile :=
  if h.finish < target ∨ target < h.begin then (-1, h) else (target, { h with ptr := target })

def echfsSeek (h : OpenFile) (offset : Int) (type : Whence) : Int × OpenFile :=
  match type with
  | .set => h.seekTo (h.begin + offset)
  | .finish => h.seekTo (h.finish + offset)
  | .cur => h.seekTo (h.ptr + offset)
  | .other => (-1, h)

end EchidnaOS.Echfs
