import EchidnaOS.Echfs.Handle.ReadBack
import EchidnaOS.Echfs.Image.Sound

namespace EchidnaOS.Echfs

open EchidnaOS.Lib.ByteStore EchidnaOS.Devfs

variable {disk : Store} {m : Mount} {chains : Nat → List Nat} {dev : DevFile} {file : CachedFile}
  {entry : Entry} {h next : OpenFile} {data : List UInt8} {index p : Nat}

-- The bytes of a file, below its size.
def fileContents (disk : Store) (file : CachedFile) : List UInt8 := fileBytes disk file 0 file.size

theorem fileBytes_getElem? (disk : Store) (file : CachedFile) (start count pos : Nat) :
    (fileBytes disk file start count)[pos]? =
      if pos < count then some (contents disk file (start + pos)) else none := by
  unfold fileBytes
  rw [List.getElem?_map]
  by_cases hpos : pos < count
  · rw [if_pos hpos, List.getElem?_range' hpos]
    simp
  · rw [if_neg hpos, List.getElem?_eq_none (by rw [List.length_range']; omega)]
    rfl

theorem fileContents_length (disk : Store) (file : CachedFile) :
    (fileContents disk file).length = file.size := by
  simp [fileContents, fileBytes]

-- A part of the bytes of a file.
theorem fileBytes_eq_drop (disk : Store) (file : CachedFile) (q count : Nat) :
    fileBytes disk file q (min count (file.size - q)) =
      ((fileContents disk file).drop q).take count := by
  apply List.ext_getElem?
  intro pos
  rw [fileBytes_getElem?, List.getElem?_take, List.getElem?_drop, fileContents, fileBytes_getElem?,
    Nat.zero_add]
  by_cases hcount : pos < count
  · rw [if_pos hcount]
    by_cases hsize : q + pos < file.size
    · rw [if_pos (by omega), if_pos hsize]
    · rw [if_neg (by omega), if_neg hsize]
  · rw [if_neg hcount, if_neg (by omega)]

-- The entry as it lies in memory, written in one piece: what wr_entry writes, and zeros after
-- the name.
theorem write_entryBytes (disk : Store) (loc : Nat) {entry : Entry}
    (hname : entry.name.length < FILENAME_LEN) :
    write disk loc (entryBytes entry) = wrEntryAt
      (write disk (loc + 9) (entry.name ++ List.replicate (FILENAME_LEN - entry.name.length) 0))
      loc entry := by
  obtain ⟨count, hcount⟩ : ∃ count, FILENAME_LEN - entry.name.length = count + 1 :=
    ⟨FILENAME_LEN - entry.name.length - 1, by omega⟩
  have hpadded : entry.name.length + (count + 1) = 218 := by
    simp only [FILENAME_LEN] at hcount
    omega
  have hbytes : [entry.hundreths, entry.seconds, entry.minutes, entry.hours, entry.day, entry.month] =
      [entry.hundreths] ++ [entry.seconds] ++ [entry.minutes] ++ [entry.hours] ++ [entry.day] ++
        [entry.month] := rfl
  have hzeros : List.replicate (count + 1) (0 : UInt8) = [0] ++ List.replicate count 0 := rfl
  -- the zeros can be written before the fields in front of the name
  have hfront : write (write (write disk loc (leBytes 8 entry.parentId)) (loc + 8) [entry.type])
        (loc + 9) (entry.name ++ List.replicate (count + 1) 0) =
      write (write (write (write disk (loc + 9) (entry.name ++ List.replicate (count + 1) 0)) loc
        (leBytes 8 entry.parentId)) (loc + 8) [entry.type]) (loc + 9) (entry.name ++ [0]) := by
    rw [write_comm _ (show loc + 9 + _ ≤ loc ∨ loc + (leBytes 8 entry.parentId).length ≤ loc + 9 by
      rw [leBytes_length]; omega)]
    rw [write_comm _ (show loc + 9 + _ ≤ loc + 8 ∨ loc + 8 + [entry.type].length ≤ loc + 9 by
      rw [List.length_singleton]; omega)]
    rw [hzeros, ← List.append_assoc, write_again]
  unfold entryBytes wrEntryAt wrQword wrWord wrByte fstrcpyOut
  rw [hbytes, hcount]
  simp only [write_append _ _ (_ ++ _) _, write_append _ _ (leBytes _ _) _, write_append _ _ [_] [_],
    List.length_append, leBytes_length, List.length_singleton, List.length_replicate, hpadded,
    Nat.reduceAdd, Nat.add_assoc, hfront]

theorem entryBytes_length {entry : Entry} (hname : entry.name.length < FILENAME_LEN) :
    (entryBytes entry).length = SIZEOF_ENTRY := by
  simp only [FILENAME_LEN] at hname
  simp only [entryBytes, List.length_append, leBytes_length, List.length_replicate,
    List.length_cons, List.length_nil, FILENAME_LEN, SIZEOF_ENTRY]
  omega

-- A name read from the disk holds no NUL.
theorem fstrcpyIn_ne (disk : Store) (fuel loc : Nat) :
    ∀ char ∈ fstrcpyIn disk fuel loc, char ≠ 0 := by
  induction fuel generalizing loc with
  | zero =>
      intro char hmem
      exact absurd hmem List.not_mem_nil
  | succ fuel ih =>
      intro char hmem
      unfold fstrcpyIn at hmem
      by_cases hzero : rdByte disk loc = 0
      · rw [if_pos hzero] at hmem
        exact absurd hmem List.not_mem_nil
      · rw [if_neg hzero] at hmem
        rcases List.mem_cons.mp hmem with hhead | hrest
        · rw [hhead]
          exact hzero
        · exact ih (loc + 1) char hrest

theorem rdEntry_fits (disk : Store) (m : Mount) (index : Nat)
    (hname : (rdEntry disk m index).name.length < FILENAME_LEN) : (rdEntry disk m index).Fits :=
  ⟨rdQword_lt _ _, rdQword_lt _ _, rdQword_lt _ _, hname, fstrcpyIn_ne _ _ _⟩

-- Writing the directory entry through the device handle.
theorem DeviceOk.wrEntryU (hgeometry : Geometry m) (hdevice : DeviceOk m dev)
    (hindex : index < capacity m) (hname : entry.name.length < FILENAME_LEN) :
    (wrEntryU m dev index entry).disk = write dev.disk (entryLoc m index) (entryBytes entry) := by
  obtain ⟨hstart, hend⟩ := entryLoc_end_le hgeometry hindex
  have hdata := Nat.mul_le_mul_right BYTES_PER_BLOCK hgeometry.data_le
  have hholds := hdevice.holds
  obtain ⟨hdisk, -, -⟩ := hdevice.wrAt (show entryLoc m index ≤ dev.handle.finish by omega)
    SIZEOF_ENTRY (bytesAt (entryBytes entry))
  unfold Echfs.wrEntryU
  rw [hdisk, ← entryBytes_length hname, blit_bytesAt]

theorem rdEntry_entryBytes (disk : Store) (m : Mount) (index : Nat) (hentry : entry.Fits) :
    rdEntry (write disk (entryLoc m index) (entryBytes entry)) m index = entry := by
  unfold rdEntry
  rw [write_entryBytes disk _ hentry.name_lt]
  exact rdEntryAt_wrEntryAt _ _ hentry

-- The record of a file of a sound image, on its device.
theorem Caches.cursor (hsound : Sound m dev.disk chains) (hcaches : Caches m dev.disk chains index file)
    (hdevice : DeviceOk m dev) : CursorOk m dev file (chains index) := by
  obtain ⟨hlive, -, htargetEntry, htarget, hok⟩ := hcaches
  have hchain := hsound.files index hlive
  refine ⟨hsound.geometry, hdevice, hok, ?_, hsound.reserved, ?_, ?_, ?_⟩
  · rw [CachedFile.size, htarget]
    exact hchain.length
  · exact fun block hmem => hchain.fat_ne_zero hsound.geometry hmem
  · rw [htargetEntry]
    exact hlive.1
  · rw [htarget]
    exact hsound.names index hlive.1 hlive.2.1

-- The blocks a file gets are its own or free ones, so none of another file.
theorem Frame.apart {blocks : List Nat} {before after : Store × CachedFile}
    (hframe : Frame m (chains index) blocks before after) (hsound : Sound m before.1 chains)
    (hlive : LiveFile m before.1 index) {other : Nat} (hother : LiveFile m before.1 other)
    (hne : other ≠ index) : blocks.Disjoint (chains other) := by
  intro block hmem hmem'
  rcases hframe.fresh block hmem with hold | hzero
  · exact hsound.disjoint other index hother hlive hne hmem' hold
  · exact (hsound.files other hother).fat_ne_zero hsound.geometry hmem' hzero

theorem Linked.start_lt {start : Nat} {blocks : List Nat} (hlinked : Linked disk m start blocks)
    (hgeometry : Geometry m) (hdata : ∀ block ∈ blocks, DataBlock m block) : start < 2 ^ 64 := by
  cases blocks with
  | nil =>
      rw [show start = END_OF_CHAIN from hlinked]
      decide
  | cons head rest =>
      have hblock := (hdata head List.mem_cons_self).2
      have hdevice := hgeometry.device_le
      rw [hlinked.1]
      simp only [BYTES_PER_BLOCK] at hdevice
      omega

-- A file stays one when its size and its first block change.
theorem LiveFile.resize {last : Store} (hlive : LiveFile m disk index) {size payload : Nat}
    (hentry : rdEntry last m index = { rdEntry disk m index with size := size, payload := payload }) :
    LiveFile m last index := by
  unfold LiveFile Entry.IsFile
  rw [hentry]
  exact hlive

section

variable {blocks : List Nat} {after : DevFile} {record : CachedFile}

-- The entry that is written at the end of a call.
theorem Frame.target_fits (hframe : Frame m (chains index) blocks (dev.disk, file)
      (after.disk, record)) (hsound : Sound m dev.disk chains)
    (hcaches : Caches m dev.disk chains index file) (hcursor : CursorOk m after record blocks) :
    record.pathResult.target.Fits ∧ record.pathResult.notFound = false ∧
      record.pathResult.targetEntry = index ∧
      record.pathResult.target = { rdEntry dev.disk m index with
        size := record.size
        payload := record.pathResult.target.payload } ∧
      Linked after.disk m record.pathResult.target.payload blocks := by
  obtain ⟨hlive, hfound, htargetEntry, htarget, -⟩ := hcaches
  have hold := rdEntry_fits dev.disk m index (hsound.names index hlive.1 hlive.2.1)
  have hchain := (hsound.files index hlive).linked
  rw [← htarget] at hchain
  have hlinked := hframe.linked hchain
  have hpayload := hlinked.start_lt hsound.geometry hcursor.ok.data
  have hsize := hcursor.size_lt
  have hresult := hframe.target
  dsimp only at hresult hlinked
  have htargetAfter : record.pathResult.target = { rdEntry dev.disk m index with
      size := record.size
      payload := record.pathResult.target.payload } := by
    rw [← htarget]
    exact congrArg PathResult.target hresult
  refine ⟨?_, ?_, ?_, htargetAfter, hlinked⟩
  · rw [htargetAfter]
    exact ⟨hold.parentId_lt, hpayload, by dsimp only; omega, hold.name_lt, hold.name_ne⟩
  · rw [hresult]
    exact hfound
  · rw [hresult]
    exact htargetEntry

-- What stands on the disk once the entry is written.
theorem Frame.written (hframe : Frame m (chains index) blocks (dev.disk, file)
      (after.disk, record)) (hsound : Sound m dev.disk chains)
    (hcaches : Caches m dev.disk chains index file) (hcursor : CursorOk m after record blocks)
    {last : Store} (hlast : last = (wrEntryU m after record.pathResult.targetEntry
      record.pathResult.target).disk) :
    rdEntry last m index = record.pathResult.target ∧ SameOtherSlots m index dev.disk last ∧
      (∀ block, block < m.blocks → Echfs.fat last m block = Echfs.fat after.disk m block) ∧
      ∀ block offset, DataBlock m block →
        last (blockLoc block + offset) = after.disk (blockLoc block + offset) := by
  obtain ⟨hfits, -, hindex, -, -⟩ := hframe.target_fits hsound hcaches hcursor
  have hgeometry := hsound.geometry
  have hlt := hcaches.live.1
  obtain ⟨hstart, hend⟩ := entryLoc_end_le hgeometry hlt
  have hlength := entryBytes_length hfits.name_lt
  rw [hindex, hcursor.device.wrEntryU hgeometry hlt hfits.name_lt] at hlast
  have houtside : ∀ address, address < entryLoc m index ∨ entryLoc m index + SIZEOF_ENTRY ≤ address →
      last address = after.disk address := by
    intro address hout
    rw [hlast]
    exact write_outside _ _ _ _ (by rw [hlength]; exact hout)
  refine ⟨?_, ?_, ?_, ?_⟩
  · rw [hlast]
    exact rdEntry_entryBytes _ _ _ hfits
  · intro address hlow hhigh hout
    rw [houtside address hout]
    exact hframe.directory address hlow hhigh
  · intro block hblock
    exact fat_congr hgeometry hblock fun address hlow => houtside address (Or.inl (by omega))
  · intro block offset hblock
    have habove := (data_above_directory hgeometry hblock).1
    exact houtside _ (Or.inr (by omega))

theorem Frame.change (hframe : Frame m (chains index) blocks (dev.disk, file)
      (after.disk, record)) (hsound : Sound m dev.disk chains)
    (hcaches : Caches m dev.disk chains index file) (hcursor : CursorOk m after record blocks)
    {last : Store} (hlast : last = (wrEntryU m after record.pathResult.targetEntry
      record.pathResult.target).disk) : SlotChange m chains index blocks dev.disk last := by
  obtain ⟨hfits, -, -, htarget, hlinked⟩ := hframe.target_fits hsound hcaches hcursor
  obtain ⟨hentry, hslots, hfat, -⟩ := hframe.written hsound hcaches hcursor hlast
  have hlive := hcaches.live
  have hle := hsound.geometry.data_le
  have hdata := hcursor.ok.data
  have hapart : ∀ other, LiveFile m dev.disk other → other ≠ index → blocks.Disjoint (chains other) :=
    fun other hother hne => hframe.apart hsound hlive hother hne
  have hlast : LiveFile m last index := hlive.resize (hentry.trans htarget)
  refine ⟨hlive.1, hslots, ?_, ?_, ?_, ?_, fun _ => hapart, ?_⟩
  · rw [hentry]
    exact hfits.name_lt
  · intro _
    rw [hentry]
    exact ⟨hdata, hlinked.congr fun block hmem => hfat block (hdata block hmem).2, hcursor.ok.nodup,
      hcursor.length⟩
  · intro other hother hne block hmem
    have hlt := ((hsound.files other hother).data block hmem).2
    rw [hfat block hlt]
    exact hframe.fat block hlt fun hmem' => hapart other hother hne hmem' hmem
  · intro block hlow
    rw [hfat block (by omega)]
    refine hframe.fat block (by omega) fun hmem => ?_
    have := (hdata block hmem).1
    omega
  · intro block hblock hout hothers
    have hnew := hout hlast
    rw [hfat block hblock.2, hframe.fat block hblock.2 hnew]
    refine hsound.free block hblock fun other hother => ?_
    by_cases heq : other = index
    · rw [heq]
      exact fun hmem => hnew (hframe.kept block hmem)
    · exact hothers other hother heq

end

-- What a write through a handle does to the file in slot `index` and to the others.
structure Spliced (m : Mount) (chains : Nat → List Nat) (index p : Nat) (data : List UInt8)
    (h next : OpenFile) : Prop where
  contents : fileContents next.dev.disk next.file = splice (fileContents h.dev.disk h.file) p data
  slots : SameOtherSlots m index h.dev.disk next.dev.disk
  entry : rdEntry next.dev.disk m index = { rdEntry h.dev.disk m index with
    size := next.file.size
    payload := next.file.pathResult.target.payload }
  ptr : next.ptr = p + data.length
  device : DeviceOk m next.dev
  image : ∃ blocks, Sound m next.dev.disk (Function.update chains index blocks) ∧
    Caches m next.dev.disk (Function.update chains index blocks) index next.file ∧
    ∀ other record, other ≠ index → Caches m h.dev.disk chains other record →
      Caches m next.dev.disk (Function.update chains index blocks) other record ∧
      fileContents next.dev.disk record = fileContents h.dev.disk record

-- Reading with an end at the size gives the bytes from the position on.
theorem Caches.uread (hsound : Sound m h.dev.disk chains) (hcaches : Caches m h.dev.disk chains index h.file)
    (hdevice : DeviceOk m h.dev) (q len : Nat) :
    (echfsUread { h with ptr := q, finish := h.file.size } len).1 =
      ((fileContents h.dev.disk h.file).drop q).take len := by
  have hcursor := hcaches.cursor hsound hdevice
  have hspec := ureadBytes_spec hcursor (Int.le_refl (h.file.size : Int)) len q
  have hcount : ((h.file.size : Int) - (q : Int)).toNat = h.file.size - q := by omega
  have hbytes := hspec.bytes
  rw [hcount, fileBytes_eq_drop] at hbytes
  exact hbytes

-- Writing at a position up to the end of the file.
theorem Caches.uwrite (hsound : Sound m h.dev.disk chains) (hcaches : Caches m h.dev.disk chains index h.file)
    (hdevice : DeviceOk m h.dev) (hptr : h.ptr = p) (hp : p ≤ h.file.size)
    (hspace : blockCount (p + data.length) ≤ blockCount h.file.size + freeBlocks m h.dev.disk) :
    ∃ next, echfsUwrite m h data = some (data.length, next) ∧
      Spliced m chains index p data h next := by
  have hcursor := hcaches.cursor hsound hdevice
  have hlive := hcaches.live
  obtain ⟨result, hresult, hspec⟩ := uwriteBytes_spec hcursor data hp hspace
  obtain ⟨blocks, hafter, hframe⟩ := hspec.cursor
  have hbytes := hspec.bytes
  have hsize := hspec.size
  have hcurLoc := hspec.curLoc
  rw [← hptr] at hresult
  obtain ⟨dev, file, curLoc⟩ := result
  dsimp only at *
  obtain ⟨hlast, hlastBytes⟩ := hafter.wrEntryU file.pathResult.target
  have hfits := hframe.target_fits hsound hcaches hafter
  have hwritten := hframe.written hsound hcaches hafter rfl
  have hchange := hframe.change hsound hcaches hafter rfl
  obtain ⟨-, hfound, htargetEntry, htarget, -⟩ := hfits
  obtain ⟨hentry, hslots, -, hblocks⟩ := hwritten
  dsimp only at *
  unfold echfsUwrite
  rw [hresult, Option.map_some]
  refine ⟨_, rfl, ⟨?_, hslots, ?_, hcurLoc, hlast.device, blocks, hsound.change hchange, ?_, ?_⟩⟩
  · have hsame : ∀ pos, pos < file.size →
        contents (wrEntryU m dev file.pathResult.targetEntry file.pathResult.target).disk file pos =
          if p ≤ pos ∧ pos < p + data.length then data.getD (pos - p) 0
          else contents h.dev.disk h.file pos := by
      intro pos hpos
      rw [hlastBytes pos hpos, hbytes pos hpos]
    apply List.ext_getElem?
    intro pos
    rw [splice_getElem? (by rw [fileContents_length]; exact hp)]
    unfold fileContents
    rw [fileBytes_getElem?, fileBytes_getElem?, Nat.zero_add]
    dsimp only
    by_cases hpos : pos < file.size
    · rw [if_pos hpos, hsame pos hpos]
      by_cases hin : p ≤ pos ∧ pos < p + data.length
      · rw [if_pos hin, if_pos hin, List.getElem?_eq_getElem (by omega),
          List.getD_eq_getElem _ _ (by omega)]
      · rw [if_neg hin, if_neg hin, if_pos (by omega)]
    · rw [if_neg hpos, if_neg (by omega), if_neg (by omega)]
  · rw [hentry]
    exact htarget
  · refine ⟨hlive.resize (hentry.trans htarget), hfound, htargetEntry, hentry.symm, ?_⟩
    rw [Function.update_self]
    exact hlast.ok
  · intro other record hne hother
    have hbytes : ∀ block ∈ chains other, ∀ offset, offset < BYTES_PER_BLOCK →
        (wrEntryU m dev file.pathResult.targetEntry file.pathResult.target).disk
          (blockLoc block + offset) = h.dev.disk (blockLoc block + offset) := by
      intro block hmem offset hoffset
      have hblock := hother.ok.data block hmem
      rw [hblocks block offset hblock]
      exact hframe.data block hblock (fun hnew => hframe.apart hsound hlive hother.live hne hnew hmem)
        offset hoffset
    refine ⟨hother.keep hsound hslots hlive.1 hne hbytes, ?_⟩
    unfold fileContents
    apply fileBytes_congr
    intro pos _ hpos
    exact hother.ok.contents_of_disk hbytes ((hother.cursor hsound hdevice).block_lt (by omega))

-- Reading with an end at the size gives the bytes of the file from any position on.
def ReadsContents (h : OpenFile) : Prop :=
  ∀ q len : Nat, (echfsUread { h with ptr := q, finish := h.file.size } len).1 =
    ((fileContents h.dev.disk h.file).drop q).take len

-- Writing through a handle is a splice on its file alone, and reading gives the contents.
theorem uwrite_splices_one_file (hsound : Sound m h.dev.disk chains)
    (hcaches : Caches m h.dev.disk chains index h.file) (hdevice : DeviceOk m h.dev)
    (hptr : h.ptr = p) (hp : p ≤ h.file.size)
    (hspace : blockCount (p + data.length) ≤ blockCount h.file.size + freeBlocks m h.dev.disk) :
    ReadsContents h ∧ ∃ next, echfsUwrite m h data = some (data.length, next) ∧
      Spliced m chains index p data h next ∧ ReadsContents next := by
  obtain ⟨next, hnext, hspliced⟩ := hcaches.uwrite hsound hdevice hptr hp hspace
  obtain ⟨blocks, hnextSound, hnextCaches, -⟩ := hspliced.image
  exact ⟨hcaches.uread hsound hdevice, next, hnext, hspliced,
    hnextCaches.uread hnextSound hspliced.device⟩

theorem RecordOk.caches {entries : List Entry} (hrecord : RecordOk m disk entries chains index file)
    (hwf : WellFormed m disk entries chains) (hindex : index < entries.length)
    (hfile : entries[index].IsFile) : Caches m disk chains index file := by
  refine ⟨hwf.live_iff.mpr ⟨hindex, hfile⟩, hrecord.found, hrecord.targetEntry, ?_, hrecord.ok⟩
  rw [hwf.table.used index hindex]
  exact (hrecord.entry_eq hindex).symm

-- The record that the driver makes of a file.
theorem Existing.newCaches {v : Volume} {entries : List Entry} {path : Path}
    (hfile : Existing m v entries chains path index) :
    ∃ file, file.path = path ∧ Caches m v.disk chains index file ∧
      some file.size = entries[index]?.map (·.size) := by
  obtain ⟨file, -, hpath, hrecord⟩ := hfile.newRecord
  refine ⟨file, hpath, hrecord.caches hfile.image hfile.index_lt hfile.isFile, ?_⟩
  rw [hrecord.target]
  rfl

-- A handle with any record, at any position.
theorem exists_handle (disk : Store) (file : CachedFile) (ptr : Int) {devSize : Nat}
    (hpos : 0 < devSize) (hholds : m.blocks * BYTES_PER_BLOCK ≤ devSize) (hsmall : devSize < 2 ^ 31) :
    ∃ h : OpenFile, h.dev.disk = disk ∧ h.file = file ∧ h.ptr = ptr ∧ DeviceOk m h.dev :=
  ⟨{ dev := { disk := disk, handle := { flags := O_RDWR, finish := devSize, isblock := devSize = 0 } }
     file := file, flags := O_RDWR, ptr := ptr, begin := 0, finish := file.size },
    rfl, rfl, rfl, rfl, decide_eq_false (by omega), rfl, hholds, hsmall⟩

theorem storedDisk_sound : Sound smallMount storedDisk fun _ => [18] := by
  have hfree : ∀ block, block < 64 → block ≠ 18 → smallMount.datastart ≤ block →
      fat storedDisk smallMount block = 0 := by
    decide +kernel
  refine storedDisk_wellFormed.sound fun block hblock hout => ?_
  have hne : block ≠ 18 := by
    have := hout 0 (by decide) (by decide)
    simpa using this
  exact hfree block hblock.2 hne hblock.1

-- Two bytes over the last of the three bytes of /a and the one after it.
theorem bytes_spliced_at_the_end : ∃ h : OpenFile,
    Caches smallMount h.dev.disk (fun _ => [18]) 0 h.file ∧ h.ptr = 2 ∧ h.file.size = 3 ∧
    ReadsContents h ∧ ∃ next, echfsUwrite smallMount h [7, 8] = some (2, next) ∧
      Spliced smallMount (fun _ => [18]) 0 2 [7, 8] h next ∧ ReadsContents next := by
  obtain ⟨file, -, hcaches, hentry⟩ := storedDisk_existing.newCaches
  have hsize : file.size = 3 := Option.some.inj hentry
  obtain ⟨h, hdisk, hfile, hptr, hdevice⟩ := exists_handle (m := smallMount) storedDisk file 2
    (show 0 < storedSize by decide) (Nat.le_refl _) (by decide)
  have hspace : blockCount (2 + [7, 8].length) ≤
      blockCount h.file.size + freeBlocks smallMount h.dev.disk := by
    have hsame : blockCount (2 + 2) = blockCount 3 := by decide
    rw [hfile, hsize]
    show blockCount (2 + 2) ≤ _
    rw [hsame]
    exact Nat.le_add_right _ _
  rw [← hdisk, ← hfile] at hcaches
  rw [← hfile] at hsize
  have hsound := storedDisk_sound
  rw [← hdisk] at hsound
  exact ⟨h, hcaches, hptr, hsize,
    uwrite_splices_one_file hsound hcaches hdevice hptr (by rw [hsize]; decide) hspace⟩

end EchidnaOS.Echfs
