import EchidnaOS.Echfs.Accessors
import EchidnaOS.Echfs.Directory.Table

namespace EchidnaOS.Echfs

open EchidnaOS.Lib.ByteStore EchidnaOS.Devfs

-- `entry_t` as the packed structure lies in memory: `pad` is what follows the NUL of the name.
def entryFields (entry : Entry) (pad : List UInt8) : List (List UInt8) :=
  [leBytes 8 entry.parentId, [entry.type], entry.name ++ 0 :: pad, [entry.perms],
    leBytes 2 entry.owner.toNat, leBytes 2 entry.group.toNat, [entry.hundreths], [entry.seconds],
    [entry.minutes], [entry.hours], [entry.day], [entry.month], leBytes 2 entry.year.toNat,
    leBytes 8 entry.payload, leBytes 8 entry.size]

def entryImage (entry : Entry) (pad : List UInt8) : List UInt8 := (entryFields entry pad).flatten

def ENTRY_WIDTHS : List Nat := [8, 1, FILENAME_LEN, 1, 2, 2, 1, 1, 1, 1, 1, 1, 2, 8, 8]

def byteOf (field : List UInt8) : UInt8 := field.headD 0

def wordOf (field : List UInt8) : UInt16 := UInt16.ofNat (leValue field)

-- The fields of the structure, with the name up to its NUL.
def entryOfBytes (bytes : List UInt8) : Entry :=
  match unpack ENTRY_WIDTHS bytes with
  | [parentId, type, name, perms, owner, group, hundreths, seconds, minutes, hours, day, month, year,
      payload, size] =>
      { parentId := leValue parentId
        type := byteOf type
        name := name.takeWhile (· ≠ 0)
        perms := byteOf perms
        owner := wordOf owner
        group := wordOf group
        hundreths := byteOf hundreths
        seconds := byteOf seconds
        minutes := byteOf minutes
        hours := byteOf hours
        day := byteOf day
        month := byteOf month
        year := wordOf year
        payload := leValue payload
        size := leValue size }
  | _ => {}

namespace Seek

-- rd_entry_u and wr_entry_u.
def rdEntryU (h : DevfsHandle) (store : Store) (m : Mount) (entry : Nat) : Entry :=
  entryOfBytes (read (seekRead h store (entryLoc m entry) SIZEOF_ENTRY fun _ => 0).1.buffer 0
    SIZEOF_ENTRY)

def wrEntryU (h : DevfsHandle) (store : Store) (m : Mount) (entry : Nat) (src : Entry)
    (pad : List UInt8) : Store :=
  (seekWrite h store (entryLoc m entry) SIZEOF_ENTRY fun offset =>
    (entryImage src pad).getD offset 0).1.device

end Seek

variable {store : Store} {entry : Entry} {pad : List UInt8} {loc : Nat}

theorem byteOf_read (store : Store) (loc : Nat) : byteOf (read store loc 1) = rdByte store loc := by
  simp [byteOf, read_succ, rdByte]

theorem fstrcpyIn_eq_takeWhile {count width fuel : Nat} (hend : store (loc + count) = 0)
    (hwidth : count < width) (hfuel : width ≤ fuel) :
    (read store loc width).takeWhile (· ≠ 0) = fstrcpyIn store fuel loc := by
  induction width generalizing loc count fuel with
  | zero => omega
  | succ width ih =>
      obtain ⟨fuel, rfl⟩ := Nat.exists_eq_succ_of_ne_zero (show fuel ≠ 0 by omega)
      rw [read_succ, fstrcpyIn, rdByte]
      by_cases hzero : store loc = 0
      · simp [hzero]
      · obtain ⟨count, rfl⟩ := Nat.exists_eq_succ_of_ne_zero (show count ≠ 0 by
          rintro rfl
          exact hzero hend)
        have hrest : store (loc + 1 + count) = 0 := by
          rw [← hend]
          congr 1
          omega
        simp [hzero, ← ih hrest (by omega) (show width ≤ fuel by omega)]

-- Both decoders read a slot alike when its name ends inside the name field.
theorem entryOfBytes_read {count : Nat} (hcount : count < FILENAME_LEN)
    (hend : store (loc + 9 + count) = 0) :
    entryOfBytes (read store loc SIZEOF_ENTRY) = rdEntryAt store loc := by
  have hname : (read store (loc + 9) FILENAME_LEN).takeWhile (· ≠ 0) =
      fstrcpyIn store (2 ^ 64) (loc + 9) :=
    fstrcpyIn_eq_takeWhile hend hcount (by decide)
  have hfields : unpack ENTRY_WIDTHS (read store loc SIZEOF_ENTRY) =
      [read store loc 8, read store (loc + 8) 1, read store (loc + 9) FILENAME_LEN,
        read store (loc + 227) 1, read store (loc + 228) 2, read store (loc + 230) 2,
        read store (loc + 232) 1, read store (loc + 233) 1, read store (loc + 234) 1,
        read store (loc + 235) 1, read store (loc + 236) 1, read store (loc + 237) 1,
        read store (loc + 238) 2, read store (loc + 240) 8, read store (loc + 248) 8] := by
    simp only [unpack, ENTRY_WIDTHS, FILENAME_LEN, SIZEOF_ENTRY, read_take, read_drop, Nat.add_assoc,
      Nat.reduceAdd, Nat.reduceSub, Nat.reduceLeDiff]
  unfold entryOfBytes
  rw [hfields]
  simp only [hname, byteOf_read]
  rfl

-- The structure written in one piece is what wr_entry writes over its name field.
theorem write_entryImage (disk : Store) (loc : Nat) (hpad : entry.name.length + 1 + pad.length = FILENAME_LEN) :
    write disk loc (entryImage entry pad) =
      wrEntryAt (write disk (loc + 9) (entry.name ++ 0 :: pad)) loc entry := by
  have hname : (entry.name ++ 0 :: pad).length = 218 := by
    simpa [FILENAME_LEN, Nat.add_assoc, Nat.add_comm, Nat.add_left_comm] using hpad
  -- the bytes after the name can be written before the fields in front of it
  have hfront : write (write (write disk loc (leBytes 8 entry.parentId)) (loc + 8) [entry.type])
        (loc + 9) (entry.name ++ 0 :: pad) =
      write (write (write (write disk (loc + 9) (entry.name ++ 0 :: pad)) loc
        (leBytes 8 entry.parentId)) (loc + 8) [entry.type]) (loc + 9) (entry.name ++ [0]) := by
    rw [write_comm _ (show loc + 9 + _ ≤ loc ∨ loc + (leBytes 8 entry.parentId).length ≤ loc + 9 by
      rw [leBytes_length]; omega)]
    rw [write_comm _ (show loc + 9 + _ ≤ loc + 8 ∨ loc + 8 + [entry.type].length ≤ loc + 9 by
      rw [List.length_singleton]; omega)]
    rw [show entry.name ++ 0 :: pad = entry.name ++ [0] ++ pad by simp, write_again]
  unfold wrEntryAt wrQword wrWord wrByte fstrcpyOut
  simp only [entryImage, entryFields, List.flatten_cons, List.flatten_nil, List.append_nil,
    write_append, List.length_singleton, leBytes_length, hname, Nat.add_assoc, Nat.reduceAdd, hfront]

theorem entryImage_length (hpad : entry.name.length + 1 + pad.length = FILENAME_LEN) :
    (entryImage entry pad).length = SIZEOF_ENTRY := by
  have hname : (entry.name ++ 0 :: pad).length = 218 := by
    simpa [FILENAME_LEN, Nat.add_assoc, Nat.add_comm, Nat.add_left_comm] using hpad
  simp only [entryImage, entryFields, List.flatten_cons, List.flatten_nil, List.length_append,
    leBytes_length, List.length_singleton, List.length_nil, hname, SIZEOF_ENTRY]

-- The location of a slot, before the machine makes 64 bits of it.
def slotLoc (m : Mount) (index : Nat) : Nat := m.dirstart * BYTES_PER_BLOCK + index * SIZEOF_ENTRY

-- What a slot decodes to after either encoder, and what the other slots hold.
def Written (h : DevfsHandle) (m : Mount) (index : Nat) (entry : Entry) (before after : Store) : Prop :=
  rdEntry after m index = entry ∧ Seek.rdEntryU h after m index = entry ∧
    ∀ other, other ≠ index → ∀ address, slotLoc m other ≤ address →
      address < slotLoc m other + SIZEOF_ENTRY → after address = before address

section Slot

variable {m : Mount} {index size : Nat} {h other : DevfsHandle}

theorem entryLoc_of_small (hslot : slotLoc m index + SIZEOF_ENTRY ≤ size) (hsize : size < 2 ^ 31) :
    entryLoc m index = slotLoc m index := by
  unfold entryLoc
  unfold slotLoc at *
  omega

theorem rdEntryU_eq (hopen : OpenedOn size h) (hslot : slotLoc m index + SIZEOF_ENTRY ≤ size)
    (hsize : size < 2 ^ 31) (store : Store) :
    Seek.rdEntryU h store m index = entryOfBytes (read store (slotLoc m index) SIZEOF_ENTRY) := by
  rw [Seek.rdEntryU, entryLoc_of_small hslot hsize, seekRead_eq hopen hslot (by decide)
    (Or.inl (hslot.trans hsize.le)), read_blit]

theorem wrEntryU_eq (hopen : OpenedOn size h) (hslot : slotLoc m index + SIZEOF_ENTRY ≤ size)
    (hsize : size < 2 ^ 31) (hpad : entry.name.length + 1 + pad.length = FILENAME_LEN) (store : Store) :
    Seek.wrEntryU h store m index entry pad = write store (slotLoc m index) (entryImage entry pad) := by
  have hwrite := blit_getD store (slotLoc m index) (entryImage entry pad)
  rw [entryImage_length hpad] at hwrite
  rw [Seek.wrEntryU, entryLoc_of_small hslot hsize, seekWrite_eq hopen hslot (by decide)
    (Or.inl (hslot.trans hsize.le)), hwrite]

-- Whatever stood in the name field, the slot holds the entry for both decoders.
theorem written_of_wrEntryAt (hopen : OpenedOn size h) (hslot : slotLoc m index + SIZEOF_ENTRY ≤ size)
    (hsize : size < 2 ^ 31) (hentry : entry.Fits) {before base : Store}
    (hbase : ∀ address, address < slotLoc m index ∨ slotLoc m index + SIZEOF_ENTRY ≤ address →
      base address = before address) :
    Written h m index entry before (wrEntryAt base (slotLoc m index) entry) := by
  have hread := rdEntryAt_wrEntryAt base (slotLoc m index) hentry
  have hname : fstrcpyIn (wrEntryAt base (slotLoc m index) entry) (2 ^ 64) (slotLoc m index + 9) =
      entry.name := congrArg Entry.name hread
  have hend : wrEntryAt base (slotLoc m index) entry (slotLoc m index + 9 + entry.name.length) = 0 := by
    have hstop := @fstrcpyIn_end (wrEntryAt base (slotLoc m index) entry) (2 ^ 64) (slotLoc m index + 9)
    rw [hname] at hstop
    exact hstop (hentry.name_lt.trans (by decide))
  refine ⟨?_, ?_, ?_⟩
  · rw [rdEntry, entryLoc_of_small hslot hsize]
    exact hread
  · rw [rdEntryU_eq hopen hslot hsize, entryOfBytes_read hentry.name_lt hend]
    exact hread
  · intro other hne address hlow hhigh
    have hout : address < slotLoc m index ∨ slotLoc m index + SIZEOF_ENTRY ≤ address := by
      simp only [slotLoc, SIZEOF_ENTRY] at *
      omega
    rw [wrEntryAt_outside _ _ hentry.name_lt hout, hbase address hout]

-- Both encoders write what both decoders read, and leave the other slots alone.
theorem entry_codecs_agree (hopen : OpenedOn size h) (hother : OpenedOn size other)
    (hsize : size < 2 ^ 31) (hslot : slotLoc m index + SIZEOF_ENTRY ≤ size) (hentry : entry.Fits)
    (hpad : entry.name.length + 1 + pad.length = FILENAME_LEN) (disk : Store) :
    Written other m index entry disk (wrEntry disk m index entry) ∧
      Written other m index entry disk (Seek.wrEntryU h disk m index entry pad) := by
  constructor
  · rw [wrEntry, entryLoc_of_small hslot hsize]
    exact written_of_wrEntryAt hother hslot hsize hentry fun _ _ => rfl
  · rw [wrEntryU_eq hopen hslot hsize hpad, write_entryImage _ _ hpad]
    apply written_of_wrEntryAt hother hslot hsize hentry
    intro address hout
    apply write_outside
    have hname : (entry.name ++ 0 :: pad).length = 218 := by
      simpa [FILENAME_LEN, Nat.add_assoc, Nat.add_comm, Nat.add_left_comm] using hpad
    rw [hname]
    simp only [SIZEOF_ENTRY] at hout
    omega

-- Two blocks, the second of them a directory table.
def tableMount : Mount :=
  { blocks := 2, fatsize := 0, fatstart := 0, dirsize := 1, dirstart := 1, datastart := 2 }

def tableEntry : Entry := { parentId := ROOT_ID, name := [97], size := 5 }

theorem entry_codecs_agree_table :
    Written { finish := 65536 } tableMount 1 tableEntry (fun _ => 255)
      (Seek.wrEntryU { finish := 65536, ptr := 77 } (fun _ => 255) tableMount 1 tableEntry
        (List.replicate 216 9)) :=
  (@entry_codecs_agree tableEntry (List.replicate 216 9) tableMount 1 65536
    { finish := 65536, ptr := 77 } { finish := 65536 } ⟨rfl, rfl, rfl, rfl⟩ ⟨rfl, rfl, rfl, rfl⟩
    (by decide) (by decide) ⟨by decide, by decide, by decide, by decide, by simp [tableEntry]⟩
    (by rw [List.length_replicate]; rfl) fun _ => 255).2

end Slot

end EchidnaOS.Echfs
