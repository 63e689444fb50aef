import EchidnaOS.Devfs.Transfer

namespace EchidnaOS.BiosHarddisks

open EchidnaOS.Lib.ByteStore EchidnaOS.Devfs

def BYTES_PER_SECT : Nat := 512

def CACHE_SECTS : Nat := 64

def CACHE_SIZE : Nat := BYTES_PER_SECT * CACHE_SECTS

def CACHE_NOT_READY : Nat := 0

def CACHE_READY : Nat := 1

def CACHE_DIRTY : Nat := 2

-- The sectors of one drive.
abbrev Sectors := Nat → Store

structure BdState where
  drives : UInt8 → Sectors
  cacheStatus : Nat
  cachedDrive : UInt8
  cachedBlock : Nat
  diskCache : Store

-- `rm_int(0x13)` with 0x4200 and 0x4300 and one sector, which `tmp` takes or gives.
def readInt13 (drives : UInt8 → Sectors) (drive : UInt8) (lba : Nat) : Store := drives drive lba

def writeInt13 (drives : UInt8 → Sectors) (drive : UInt8) (lba : Nat) (tmp : Store) :
    UInt8 → Sectors := fun d l =>
  if d = drive ∧ l = lba then blit (drives d l) 0 BYTES_PER_SECT tmp else drives d l

-- The buffer after `count` turns of the loop.
def diskReadSectors (drives : UInt8 → Sectors) (drive : UInt8) (buf : Store) (block : Nat) :
    Nat → Store
  | 0 => buf
  | i + 1 => blit (diskReadSectors drives drive buf block i) (BYTES_PER_SECT * i) BYTES_PER_SECT
      (readInt13 drives drive ((block + i) % 2 ^ 64))

def diskReadSector (drives : UInt8 → Sectors) (drive : UInt8) (buf : Store) (block : Nat) : Store :=
  diskReadSectors drives drive buf block CACHE_SECTS

def diskWriteSectors (drives : UInt8 → Sectors) (drive : UInt8) (buf : Store) (block : Nat) :
    Nat → UInt8 → Sectors
  | 0 => drives
  | i + 1 => writeInt13 (diskWriteSectors drives drive buf block i) drive ((block + i) % 2 ^ 64)
      fun offset => buf (BYTES_PER_SECT * i + offset)

def diskWriteSector (drives : UInt8 → Sectors) (drive : UInt8) (buf : Store) (block : Nat) :
    UInt8 → Sectors :=
  diskWriteSectors drives drive buf block CACHE_SECTS

def BdState.hit (s : BdState) (drive : UInt8) (block : Nat) : Bool :=
  block = s.cachedBlock ∧ drive = s.cachedDrive ∧ s.cacheStatus ≠ CACHE_NOT_READY

-- A miss, up to the status that the caller sets.
def BdState.flush (s : BdState) : BdState :=
  if s.cacheStatus = CACHE_DIRTY then
    { s with drives :=
        diskWriteSector s.drives s.cachedDrive s.diskCache (s.cachedBlock * CACHE_SECTS % 2 ^ 64) }
  else s

def BdState.fetch (s : BdState) (drive : UInt8) (block : Nat) : BdState :=
  { s with
    diskCache := diskReadSector s.drives drive s.diskCache (block * CACHE_SECTS % 2 ^ 64)
    cachedDrive := drive
    cachedBlock := block }

def BdState.load (s : BdState) (drive : UInt8) (block : Nat) : BdState :=
  { s.flush.fetch drive block with cacheStatus := CACHE_READY }

def BdState.put (s : BdState) (offset : Nat) (payload : UInt8) : BdState :=
  { s with diskCache := Function.update s.diskCache offset payload, cacheStatus := CACHE_DIRTY }

def biosHarddiskRead (s : BdState) (drive : UInt8) (loc : Nat) : UInt8 × BdState :=
  let block := loc / CACHE_SIZE
  let offset := loc % CACHE_SIZE
  if s.hit drive block then (s.diskCache offset, s)
  else ((s.load drive block).diskCache offset, s.load drive block)

def biosHarddiskWrite (s : BdState) (drive : UInt8) (loc : Nat) (payload : UInt8) : Int × BdState :=
  let block := loc / CACHE_SIZE
  let offset := loc % CACHE_SIZE
  if s.hit drive block then (0, s.put offset payload)
  else (0, (s.flush.fetch drive block).put offset payload)

def biosHarddisksIoWrapper (disk : Nat) : IoWrapper BdState := fun s loc type payload =>
  match type with
  | .read =>
      let result := biosHarddiskRead s (UInt8.ofNat disk) loc
      (result.1.toNat, result.2)
  | .write => biosHarddiskWrite s (UInt8.ofNat disk) loc payload

inductive DiskCall where
  | read (drive : UInt8) (loc : UInt64)
  | write (drive : UInt8) (loc : UInt64) (payload : UInt8)
  deriving DecidableEq

def step (s : BdState) : DiskCall → Int × BdState
  | .read drive loc =>
      let result := biosHarddiskRead s drive loc.toNat
      (result.1.toNat, result.2)
  | .write drive loc payload => biosHarddiskWrite s drive loc.toNat payload

end EchidnaOS.BiosHarddisks
