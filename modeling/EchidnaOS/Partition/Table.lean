import EchidnaOS.Devfs.Transfer
import EchidnaOS.Lib.SlotTable

namespace EchidnaOS.Partition

open EchidnaOS.Lib EchidnaOS.Lib.ByteStore EchidnaOS.Devfs

def NO_PARTITION : Int := -1

def INVALID_TABLE : Int := -2

def END_OF_TABLE : Int := -3

-- `struct guid`, as its 16 bytes.
abbrev Guid := List UInt8

-- What get_part fills in of a `struct part`.
structure Found where
  firstSect : Nat := 0
  sectCount : Nat := 0
  guid : Guid := []
  deriving DecidableEq, Repr

-- The fields of `struct gpt_table_header` that matter to the entries.
structure GptTableHeader where
  signature : List UInt8
  revision : Nat
  partitionEntryLba : Nat
  numberOfPartitionEntries : Nat
  sizeOfPartitionEntry : Nat
  deriving DecidableEq, Repr

def SIZEOF_GPT_TABLE_HEADER : Nat := 92

def gptTableHeader (bytes : Store) : GptTableHeader where
  signature := read bytes 0 8
  revision := leValue (read bytes 8 4)
  partitionEntryLba := leValue (read bytes 72 8)
  numberOfPartitionEntries := leValue (read bytes 80 4)
  sizeOfPartitionEntry := leValue (read bytes 84 4)

structure GptEntry where
  uniquePartitionGuid : Guid
  startingLba : Nat
  endingLba : Nat
  deriving DecidableEq, Repr

def SIZEOF_GPT_ENTRY : Nat := 128

def gptEntry (bytes : Store) : GptEntry where
  uniquePartitionGuid := read bytes 16 16
  startingLba := leValue (read bytes 32 8)
  endingLba := leValue (read bytes 40 8)

structure MbrEntry where
  type : UInt8
  firstSect : Nat
  sectCount : Nat

def mbrEntry (bytes : Store) : MbrEntry where
  type := bytes 4
  firstSect := leValue (read bytes 8 4)
  sectCount := leValue (read bytes 12 4)

-- "EFI PART"
def efiPart : List UInt8 := [69, 70, 73, 32, 80, 65, 82, 84]

-- `repe cmpsb` counts down, and a count of zero is taken for equality, also when it was the last
-- bytes that differed.
def memcmp : List UInt8 → List UInt8 → Nat → Int
  | x :: xs, y :: ys, n + 1 =>
      if x = y then memcmp xs ys n else if n = 0 then 0 else (x - y).toInt8.toInt
  | _, _, _ => 0

-- A driver that answers every read of a location the same, be it a byte or an error.
def driverOf (answer : Nat → Int) : IoWrapper Unit := fun s loc type _ =>
  match type with
  | .read => (answer loc, s)
  | .write => (0, s)

section

variable (answer : Nat → Int) (h : DevfsHandle)

-- devfs_seek, whose offset is an `int`, and devfs_uread from where the handle is then.
def readAt (loc : Nat) (buffer : Store) (len : Nat) : Store × DevfsHandle :=
  let t := ureadIo (driverOf answer) (devfsSeek h (toInt loc) .set).2 () buffer len
  (t.1.buffer, t.2)

def readHeader : Store × DevfsHandle := readAt answer h 512 (fun _ => 0) SIZEOF_GPT_TABLE_HEADER

-- The product with a `size_t` has 32 bits, the sum 64.
def entryOffset (header : GptTableHeader) (partition : Int) : Nat :=
  (header.partitionEntryLba * 512 + (partition * SIZEOF_GPT_ENTRY % 2 ^ 32).toNat) % 2 ^ 64

def gptGetPart (ret : Found) (partition : Int) : Int × Found × DevfsHandle :=
  let head := readHeader answer h
  let header := gptTableHeader head.1
  if header.signature ≠ efiPart then (INVALID_TABLE, ret, head.2)
  else if header.revision ≠ 0x00010000 then (END_OF_TABLE, ret, head.2)
  else if header.numberOfPartitionEntries ≤ (partition % 2 ^ 32).toNat then (END_OF_TABLE, ret, head.2)
  else
    let body := readAt answer head.2 (entryOffset header partition) (fun _ => 0) SIZEOF_GPT_ENTRY
    let entry := gptEntry body.1
    if memcmp entry.uniquePartitionGuid (List.replicate 16 0) 16 = 0 then (NO_PARTITION, ret, body.2)
    else
      (0, { firstSect := entry.startingLba
            sectCount := (entry.endingLba + (2 ^ 64 - entry.startingLba) + 1) % 2 ^ 64
            guid := entry.uniquePartitionGuid }, body.2)

-- The locals `hint`, `disk_signature` and `entry` come from the stack as they are.
def mbrGetPart (ret : Found) (partition : Int) (stack : Store) : Int × Found × DevfsHandle :=
  let head := readAt answer h 444 stack 2
  let hint := leValue (read head.1 0 2)
  if hint ≠ 0 ∧ hint ≠ 0x5a5a then (INVALID_TABLE, ret, head.2)
  else if 3 < partition then (END_OF_TABLE, ret, head.2)
  else
    let sign := readAt answer head.2 440 (fun offset => stack (2 + offset)) 4
    let body := readAt answer sign.2 ((0x1be + 16 * partition) % 2 ^ 32).toNat
      (fun offset => stack (6 + offset)) 16
    let entry := mbrEntry body.1
    if entry.type = 0 then (NO_PARTITION, ret, body.2)
    else
      (0, { firstSect := entry.firstSect
            sectCount := entry.sectCount
            guid := read sign.1 0 4 ++ leBytes 2 (((partition + 1) * 256) % 2 ^ 16).toNat ++
              List.replicate 10 0 }, body.2)

def getPart (ret : Found) (partition : Int) (stack : Store) : Int × Found × DevfsHandle :=
  let gpt := gptGetPart answer h ret partition
  if gpt.1 ≠ INVALID_TABLE then gpt
  else
    let mbr := mbrGetPart answer gpt.2.2 gpt.2.1 partition stack
    if mbr.1 ≠ INVALID_TABLE then mbr else (-1, mbr.2)

end

-- An entry of `device_list`; the device of a partition has its handle and its extent.
structure Registered where
  name : CString
  size : Nat
  part : Option (Nat × Found) := none

structure Scan where
  handles : List DevfsHandle
  devices : List Registered

-- devfs_open with O_RDONLY.
def Scan.openMedium (s : Scan) (medium : CString) : Option DevfsHandle :=
  let path := if medium.head? = some 47 then medium.tail else medium
  (s.devices.findIdx? fun device => device.name = path).map fun device =>
    let size := (s.devices[device]?.map (·.size)).getD 0
    { path := medium, finish := size, isblock := size = 0, device := device }

def pname (medium : CString) (i : Nat) : CString := medium ++ [112, UInt8.ofNat (i + 48)]

-- The loop of add_partitioned_medium, which has made `call` turns; `stack` is what each of them
-- finds on the stack. Out of fuel it is still running.
def scanFrom (answer : Nat → Int) (medium : CString) (stack : Nat → Store) :
    Nat → Nat → Scan → Option (Int × Scan)
  | 0, _, _ => none
  | fuel + 1, call, s =>
      match s.openMedium medium with
      | none => some (-1, s)
      | some handle =>
          let i : Nat := call % 2 ^ 32
          let table := SlotTable.create (·.free) s.handles handle
          let result := getPart answer handle {} (toInt i) (stack call)
          if result.1 = NO_PARTITION then
            scanFrom answer medium stack fuel (call + 1)
              { s with handles := table.2.set table.1 { result.2.2 with free := true } }
          else if result.1 = END_OF_TABLE then
            some (0, { s with handles := table.2.set table.1 { result.2.2 with free := true } })
          else
            scanFrom answer medium stack fuel (call + 1)
              { handles := table.2.set table.1 result.2.2
                devices := s.devices ++
                  [{ name := pname medium i
                     size := result.2.1.sectCount * 512 % 2 ^ 64
                     part := some (table.1, result.2.1) }] }

end EchidnaOS.Partition
