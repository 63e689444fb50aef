import EchidnaOS.Lib.ByteStore

namespace EchidnaOS.Echfs

open EchidnaOS.Lib.ByteStore

def ROOT_ID : Nat := 0xffffffffffffffff
def ENTRIES_PER_BLOCK : Nat := 2
def FILENAME_LEN : Nat := 218
def BYTES_PER_BLOCK : Nat := 32768
def FILE_TYPE : UInt8 := 0
def DIRECTORY_TYPE : UInt8 := 1
def DELETED_ENTRY : Nat := 0xfffffffffffffffe
def END_OF_CHAIN : Nat := 0xffffffffffffffff
def DF_WRITE : UInt8 := 1
def SIZEOF_ENTRY : Nat := 256

-- The geometry of a mounted image.
structure Mount where
  blocks : Nat
  fatsize : Nat
  fatstart : Nat
  dirsize : Nat
  dirstart : Nat
  datastart : Nat

-- `entry_t`. The 64-bit fields are numbers, the others keep their machine type.
structure Entry where
  parentId : Nat := 0
  type : UInt8 := 0
  name : CString := []
  perms : UInt8 := 0
  owner : UInt16 := 0
  group : UInt16 := 0
  hundreths : UInt8 := 0
  seconds : UInt8 := 0
  minutes : UInt8 := 0
  hours : UInt8 := 0
  day : UInt8 := 0
  month : UInt8 := 0
  year : UInt16 := 0
  payload : Nat := 0
  size : Nat := 0
  deriving DecidableEq, Repr

-- The device below the driver is a byte store.
def rdByte (disk : Store) (loc : Nat) : UInt8 := disk loc

def wrByte (disk : Store) (loc : Nat) (x : UInt8) : Store := write disk loc [x]

def rdWord (disk : Store) (loc : Nat) : UInt16 := UInt16.ofNat (leValue (read disk loc 2))

def wrWord (disk : Store) (loc : Nat) (x : UInt16) : Store := write disk loc (leBytes 2 x.toNat)

def rdQword (disk : Store) (loc : Nat) : Nat := leValue (read disk loc 8)

def wrQword (disk : Store) (loc : Nat) (x : Nat) : Store := write disk loc (leBytes 8 x)

-- The fuel is larger than any device.
def fstrcpyIn (disk : Store) : Nat → Nat → CString
  | 0, _ => []
  | fuel + 1, loc => if rdByte disk loc = 0 then [] else rdByte disk loc :: fstrcpyIn disk fuel (loc + 1)

def fstrcpyOut (disk : Store) (loc : Nat) (str : CString) : Store := write disk loc (str ++ [0])

def entryLoc (m : Mount) (entry : Nat) : Nat :=
  (m.dirstart * BYTES_PER_BLOCK + entry * SIZEOF_ENTRY) % 2 ^ 64

def rdEntryAt (disk : Store) (loc : Nat) : Entry where
  parentId := rdQword disk loc
  type := rdByte disk (loc + 8)
  name := fstrcpyIn disk (2 ^ 64) (loc + 9)
  perms := rdByte disk (loc + 227)
  owner := rdWord disk (loc + 228)
  group := rdWord disk (loc + 230)
  hundreths := rdByte disk (loc + 232)
  seconds := rdByte disk (loc + 233)
  minutes := rdByte disk (loc + 234)
  hours := rdByte disk (loc + 235)
  day := rdByte disk (loc + 236)
  month := rdByte disk (loc + 237)
  year := rdWord disk (loc + 238)
  payload := rdQword disk (loc + 240)
  size := rdQword disk (loc + 248)

def rdEntry (disk : Store) (m : Mount) (entry : Nat) : Entry := rdEntryAt disk (entryLoc m entry)

def wrEntryAt (disk : Store) (loc : Nat) (entry : Entry) : Store :=
  let disk := wrQword disk loc entry.parentId
  let disk := wrByte disk (loc + 8) entry.type
  let disk := fstrcpyOut disk (loc + 9) entry.name
  let disk := wrByte disk (loc + 227) entry.perms
  let disk := wrWord disk (loc + 228) entry.owner
  let disk := wrWord disk (loc + 230) entry.group
  let disk := wrByte disk (loc + 232) entry.hundreths
  let disk := wrByte disk (loc + 233) entry.seconds
  let disk := wrByte disk (loc + 234) entry.minutes
  let disk := wrByte disk (loc + 235) entry.hours
  let disk := wrByte disk (loc + 236) entry.day
  let disk := wrByte disk (loc + 237) entry.month
  let disk := wrWord disk (loc + 238) entry.year
  let disk := wrQword disk (loc + 240) entry.payload
  wrQword disk (loc + 248) entry.size

def wrEntry (disk : Store) (m : Mount) (index : Nat) (entry : Entry) : Store :=
  wrEntryAt disk (entryLoc m index) entry

-- What an entry must satisfy to come back from the disk as it was written.
structure Entry.Fits (entry : Entry) : Prop where
  parentId_lt : entry.parentId < 2 ^ 64
  payload_lt : entry.payload < 2 ^ 64
  size_lt : entry.size < 2 ^ 64
  name_lt : entry.name.length < FILENAME_LEN
  name_ne : ∀ char ∈ entry.name, char ≠ 0

theorem rdQword_lt (disk : Store) (loc : Nat) : rdQword disk loc < 2 ^ 64 := by
  have hlt := leValue_lt (read disk loc 8)
  rw [read_length] at hlt
  exact hlt

theorem rdQword_wrQword (disk : Store) (loc : Nat) {x : Nat} (hx : x < 2 ^ 64) :
    rdQword (wrQword disk loc x) loc = x := by
  rw [rdQword, wrQword, read_write_same _ _ _ _ (by simp), leValue_leBytes]
  exact Nat.mod_eq_of_lt hx

theorem rdWord_wrWord (disk : Store) (loc : Nat) (x : UInt16) :
    rdWord (wrWord disk loc x) loc = x := by
  rw [rdWord, wrWord, read_write_same _ _ _ _ (by simp), leValue_leBytes]
  have hx : x.toNat % 256 ^ 2 = x.toNat := Nat.mod_eq_of_lt x.toNat_lt
  rw [hx, UInt16.ofNat_toNat]

theorem rdByte_wrByte (disk : Store) (loc : Nat) (x : UInt8) :
    rdByte (wrByte disk loc x) loc = x := by
  simp [rdByte, wrByte, write]

-- A string comes back up to its NUL.
theorem fstrcpyIn_of_bytes (disk : Store) (str : CString) (hne : ∀ char ∈ str, char ≠ 0)
    {fuel loc : Nat} (hfuel : str.length < fuel)
    (hbytes : read disk loc (str.length + 1) = str ++ [0]) : fstrcpyIn disk fuel loc = str := by
  induction str generalizing fuel loc with
  | nil =>
      obtain ⟨fuel, rfl⟩ := Nat.exists_eq_succ_of_ne_zero (Nat.ne_zero_of_lt hfuel)
      have hzero : disk loc = 0 := by
        rw [List.length_nil, read_succ] at hbytes
        exact (List.cons.inj hbytes).1
      rw [fstrcpyIn, rdByte, if_pos hzero]
  | cons char rest ih =>
      obtain ⟨fuel, rfl⟩ := Nat.exists_eq_succ_of_ne_zero (Nat.ne_zero_of_lt hfuel)
      rw [List.length_cons, read_succ, List.cons_append] at hbytes
      obtain ⟨hchar, hrest⟩ := List.cons.inj hbytes
      have hlt : rest.length < fuel := by
        rw [List.length_cons] at hfuel
        omega
      rw [fstrcpyIn, rdByte, hchar, if_neg (hne char List.mem_cons_self)]
      rw [ih (fun c hc => hne c (List.mem_cons_of_mem char hc)) hlt hrest]

-- Reading a string depends only on the bytes up to its NUL.
theorem fstrcpyIn_congr (first second : Store) {count fuel loc : Nat} (hend : first (loc + count) = 0)
    (hsame : ∀ offset, offset ≤ count → first (loc + offset) = second (loc + offset)) :
    fstrcpyIn first fuel loc = fstrcpyIn second fuel loc := by
  induction fuel generalizing loc count with
  | zero => rfl
  | succ fuel ih =>
      have hhead : first loc = second loc := hsame 0 (Nat.zero_le count)
      by_cases hzero : first loc = 0
      · rw [fstrcpyIn, fstrcpyIn, rdByte, rdByte, if_pos hzero, if_pos (hhead ▸ hzero)]
      · have hcount : count ≠ 0 := by
          rintro rfl
          exact hzero hend
        obtain ⟨count, rfl⟩ := Nat.exists_eq_succ_of_ne_zero hcount
        have htail : fstrcpyIn first fuel (loc + 1) = fstrcpyIn second fuel (loc + 1) := by
          refine @ih count (loc + 1) ?_ ?_
          · rw [Nat.add_assoc, Nat.add_comm 1 count]
            exact hend
          · intro offset hoffset
            rw [Nat.add_assoc, Nat.add_comm 1 offset]
            exact hsame (offset + 1) (by omega)
        rw [fstrcpyIn, fstrcpyIn, rdByte, rdByte, if_neg hzero, if_neg (hhead ▸ hzero), hhead, htail]

theorem wrEntryAt_outside (disk : Store) (loc : Nat) {entry : Entry}
    (hname : entry.name.length < FILENAME_LEN) {address : Nat}
    (hout : address < loc ∨ loc + SIZEOF_ENTRY ≤ address) :
    wrEntryAt disk loc entry address = disk address := by
  simp only [FILENAME_LEN, SIZEOF_ENTRY] at hname hout
  unfold wrEntryAt wrQword wrByte wrWord fstrcpyOut
  iterate 15 rw [write_outside _ _ _ _ (by
    simp only [leBytes_length, List.length_append, List.length_singleton]; omega)]

theorem rdEntryAt_wrEntryAt (disk : Store) (loc : Nat) {entry : Entry} (hfits : entry.Fits) :
    rdEntryAt (wrEntryAt disk loc entry) loc = entry := by
  have hname := hfits.name_lt
  simp only [FILENAME_LEN] at hname
  have hqword : ∀ (store : Store) (start x : Nat), x < 2 ^ 64 →
      leValue (read (write store start (leBytes 8 x)) start 8) = x :=
    fun store start x hx => rdQword_wrQword store start hx
  have hword : ∀ (store : Store) (start : Nat) (x : UInt16),
      UInt16.ofNat (leValue (read (write store start (leBytes 2 x.toNat)) start 2)) = x :=
    rdWord_wrWord
  have hbyte : ∀ (store : Store) (start : Nat) (x : UInt8), write store start [x] start = x :=
    rdByte_wrByte
  have hstr : fstrcpyIn (wrEntryAt disk loc entry) (2 ^ 64) (loc + 9) = entry.name := by
    apply fstrcpyIn_of_bytes _ _ hfits.name_ne (by omega)
    unfold wrEntryAt wrQword wrByte wrWord fstrcpyOut
    iterate 12 rw [read_write_disjoint _ _ _ _ _ (by
      simp only [leBytes_length, List.length_singleton]; omega)]
    exact read_write_same _ _ _ _ (by simp)
  -- every other field is read past the writes of its neighbours
  have hfields : rdEntryAt (wrEntryAt disk loc entry) loc =
      { entry with name := fstrcpyIn (wrEntryAt disk loc entry) (2 ^ 64) (loc + 9) } := by
    unfold rdEntryAt
    generalize hread : fstrcpyIn _ _ _ = name
    unfold wrEntryAt wrQword wrByte wrWord fstrcpyOut
    simp (disch := (simp only [leBytes_length, List.length_append, List.length_singleton]; omega))
      only [rdQword, rdWord, rdByte, read_write_disjoint, write_outside]
    simp only [hqword _ _ _ hfits.parentId_lt, hqword _ _ _ hfits.payload_lt,
      hqword _ _ _ hfits.size_lt, hword, hbyte]
  rw [hfields, hstr]

-- An entry whose name ends inside its field depends only on its own 256 bytes.
theorem rdEntryAt_congr (first second : Store) {loc count : Nat} (hcount : count < FILENAME_LEN)
    (hend : first (loc + 9 + count) = 0)
    (hsame : ∀ address, loc ≤ address → address < loc + SIZEOF_ENTRY →
      first address = second address) : rdEntryAt first loc = rdEntryAt second loc := by
  simp only [FILENAME_LEN, SIZEOF_ENTRY] at hcount hsame
  have hbyte : ∀ offset, offset < 256 → rdByte first (loc + offset) = rdByte second (loc + offset) :=
    fun offset hoffset => hsame _ (by omega) (by omega)
  have hread : ∀ offset width, offset + width ≤ 256 →
      read first (loc + offset) width = read second (loc + offset) width := by
    intro offset width hoffset
    apply read_congr
    intro address hlow hhigh
    exact hsame address (by omega) (by omega)
  have hname : fstrcpyIn first (2 ^ 64) (loc + 9) = fstrcpyIn second (2 ^ 64) (loc + 9) :=
    fstrcpyIn_congr first second hend fun offset hoffset => hsame _ (by omega) (by omega)
  have hparent := hread 0 8 (by omega)
  rw [Nat.add_zero] at hparent
  unfold rdEntryAt rdQword rdWord
  rw [hname, hparent]
  simp only [hbyte 8 (by omega), hbyte 227 (by omega), hread 228 2 (by omega),
    hread 230 2 (by omega), hbyte 232 (by omega), hbyte 233 (by omega), hbyte 234 (by omega),
    hbyte 235 (by omega), hbyte 236 (by omega), hbyte 237 (by omega), hread 238 2 (by omega),
    hread 240 8 (by omega), hread 248 8 (by omega)]

end EchidnaOS.Echfs
