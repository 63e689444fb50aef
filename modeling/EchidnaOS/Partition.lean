import EchidnaOS.Devfs.Transfer

namespace EchidnaOS.Partition

open EchidnaOS.Lib.ByteStore EchidnaOS.Devfs

def CACHE_NOTREADY : Nat := 0

def CACHE_READY : Nat := 1

def CACHE_DIRTY : Nat := 2

-- `struct part`, without the identifier that no access looks at.
structure Part where
  fd : Nat
  firstSect : Nat
  sectCount : Nat
  inCache : Nat
  cache : Store
  cacheState : Nat

-- The device a partition lies on, behind the table of devfs handles.
structure Medium (σ : Type*) where
  handles : Nat → DevfsHandle
  handlesPtr : Nat
  device : σ

section

variable {σ : Type*} (io : IoWrapper σ)

def Medium.seek (m : Medium σ) (fd : Nat) (offset : Int) : Medium σ :=
  if m.handlesPtr ≤ fd then m
  else { m with handles := Function.update m.handles fd (devfsSeek (m.handles fd) offset .set).2 }

def Medium.uread (m : Medium σ) (fd : Nat) (buffer : Store) (len : Nat) : Store × Medium σ :=
  let result := ureadIo io (m.handles fd) m.device buffer len
  (result.1.buffer,
    { m with handles := Function.update m.handles fd result.2, device := result.1.device })

def Medium.uwrite (m : Medium σ) (fd : Nat) (buffer : Store) (len : Nat) : Medium σ :=
  let result := uwriteIo io (m.handles fd) m.device buffer len
  { m with handles := Function.update m.handles fd result.2, device := result.1.device }

-- `(part->first_sect + sect) * 512`.
def Part.sectorLoc (part : Part) (sect : Nat) : Nat := (part.firstSect + sect) * 512 % 2 ^ 64

def Part.flush (part : Part) (m : Medium σ) : Medium σ :=
  if part.cacheState = CACHE_DIRTY then
    (m.seek part.fd (toInt (part.sectorLoc part.inCache))).uwrite io part.fd part.cache 512
  else m

def Part.fetch (part : Part) (m : Medium σ) (sect : Nat) : Part × Medium σ :=
  let result := (m.seek part.fd (toInt (part.sectorLoc sect))).uread io part.fd part.cache 512
  ({ part with cache := result.1, inCache := sect, cacheState := CACHE_READY }, result.2)

def Part.load (part : Part) (m : Medium σ) (sect : Nat) : Part × Medium σ :=
  if part.cacheState = CACHE_NOTREADY ∨ sect ≠ part.inCache then
    part.fetch io (part.flush io m) sect
  else (part, m)

def Part.put (part : Part) (off : Nat) (payload : UInt8) : Part :=
  { part with cache := Function.update part.cache off payload, cacheState := CACHE_DIRTY }

def partitionedMediumIoWrapper (part : Part) (m : Medium σ) (loc : Nat) (type : IoType)
    (payload : UInt8) : Int × Part × Medium σ :=
  let sect := loc / 512
  let off := loc % 512
  let loaded := part.load io m sect
  match type with
  | .read => ((loaded.1.cache off).toNat, loaded)
  | .write => (0, loaded.1.put off payload, loaded.2)

end

end EchidnaOS.Partition
