import EchidnaOS.Echfs.File.Lockstep
import EchidnaOS.Echfs.Handle.Splice

namespace EchidnaOS.Echfs

open EchidnaOS.Lib.ByteStore EchidnaOS.Devfs

variable {origin disk : Store} {m : Mount} {v : Volume} {chains : Nat → List Nat} {dev : DevFile}
  {file : CachedFile} {entry : Entry} {path : Path} {h : OpenFile} {index slot block loc : Nat}

-- The device as the path calls see it, while a call through a handle has not yet written the
-- entry of its file. The other entries are those of `origin`.
structure Ahead (m : Mount) (index : Nat) (origin : Store) (dev : DevFile) (disk : Store)
    (entry : Entry) : Prop where
  device : DeviceOk m dev
  same : ∀ address, address < entryLoc m index ∨ entryLoc m index + SIZEOF_ENTRY ≤ address →
    dev.disk address = disk address
  slots : SameOtherSlots m index origin disk
  name_lt : entry.name.length < FILENAME_LEN
  entry : rdEntry disk m index = entry

-- The same write on both sides, away from the directory.
theorem Ahead.step (hahead : Ahead m index origin dev disk entry) (hgeometry : Geometry m)
    (hindex : index < capacity m) {after : DevFile} {next : Store} {start count : Nat} {source : Store}
    (hdevice : DeviceOk m after) (hleft : after.disk = blit dev.disk start count source)
    (hright : next = blit disk start count source)
    (haway : start + count ≤ m.dirstart * BYTES_PER_BLOCK ∨ m.datastart * BYTES_PER_BLOCK ≤ start) :
    Ahead m index origin after next entry := by
  obtain ⟨hlow, hhigh⟩ := entryLoc_end_le hgeometry hindex
  obtain ⟨-, hsame, hslots, hname, hentry⟩ := hahead
  have hslot : rdEntry next m index = rdEntry disk m index := by
    refine rdEntry_congr (hentry ▸ hname) fun address _ _ => ?_
    rw [hright]
    exact blit_outside _ _ _ _ _ (by omega)
  refine ⟨hdevice, ?_, ?_, hname, hslot.trans hentry⟩
  · intro address hout
    rw [hleft, hright]
    unfold blit
    split
    · rfl
    · exact hsame address hout
  · intro address _ _ hout
    rw [hright, blit_outside _ _ _ _ _ (by omega)]
    exact hslots address ‹_› ‹_› hout

-- Reading moves the position of the device handle only.
theorem Ahead.read (hahead : Ahead m index origin dev disk entry) {after : DevFile}
    (hdevice : DeviceOk m after) (hdisk : after.disk = dev.disk) :
    Ahead m index origin after disk entry := by
  refine ⟨hdevice, ?_, hahead.slots, hahead.name_lt, hahead.entry⟩
  rw [hdisk]
  exact hahead.same

theorem Ahead.fat (hahead : Ahead m index origin dev disk entry) (hgeometry : Geometry m)
    (hindex : index < capacity m) (hblock : block < m.blocks) :
    Echfs.fat dev.disk m block = Echfs.fat disk m block := by
  have hstart := (entryLoc_end_le hgeometry hindex).1
  exact fat_congr hgeometry hblock fun address hlow => hahead.same address (Or.inl (by omega))

theorem handleAccess_lockstep (hgeometry : Geometry m) (hindex : index < capacity m) (origin : Store) :
    Lockstep m handleAccess index (Ahead m index origin) := by
  obtain ⟨hstart, hend⟩ := entryLoc_end_le hgeometry hindex
  have habove : ∀ block, DataBlock m block → m.datastart * BYTES_PER_BLOCK ≤ blockLoc block :=
    fun block hblock => (data_above_directory hgeometry hblock).1
  refine ⟨?_, ?_, ?_, ?_, ?_, ?_⟩
  · intro dev disk entry block hahead hblock
    obtain ⟨hvalue, hdisk, hdevice⟩ := rdQword_sim hahead.device (hahead.device.fat_le hgeometry hblock)
    exact ⟨hvalue.trans (hahead.fat hgeometry hindex hblock), hahead.read hdevice hdisk⟩
  · intro dev disk entry block x hahead hblock
    obtain ⟨hdisk, hdevice⟩ := wrQword_sim hahead.device (hahead.device.fat_le hgeometry hblock) x
    have hbelow := (fatLoc_eq hgeometry hblock).2
    rw [← leBytes_length 8 x] at hbelow
    exact hahead.step hgeometry hindex hdevice (hdisk.trans (blit_bytesAt _ _ _).symm)
      (blit_bytesAt _ _ _).symm (Or.inl hbelow)
  · intro dev disk entry block hahead hblock
    obtain ⟨hdisk, hdevice, -⟩ := hahead.device.zeroBytes (hahead.device.block_le hgeometry hblock)
    rw [zeroBlock_eq]
    exact hahead.step hgeometry hindex hdevice hdisk rfl (Or.inr (habove block hblock))
  · intro dev disk entry block hahead hblock
    have hle := hahead.device.block_le hgeometry hblock
    obtain ⟨hbytes, hdisk, hdevice⟩ := hahead.device.rdAt (Nat.le_of_add_right_le hle) BYTES_PER_BLOCK
    refine ⟨?_, hahead.read hdevice hdisk⟩
    show (dev.rdAt (blockLoc block) BYTES_PER_BLOCK).1 = _
    rw [hbytes]
    funext offset
    have hdata := habove block hblock
    exact hahead.same _ (Or.inr (by omega))
  · intro dev disk entry block cache hahead hblock
    have hle := hahead.device.block_le hgeometry hblock
    obtain ⟨hdisk, hdevice, -⟩ :=
      hahead.device.wrAt (Nat.le_of_add_right_le hle) BYTES_PER_BLOCK cache
    exact hahead.step hgeometry hindex hdevice hdisk rfl (Or.inr (habove block hblock))
  · intro dev disk entry result hahead hresult hfits
    have hout : ∀ address, address < entryLoc m index ∨ entryLoc m index + SIZEOF_ENTRY ≤ address →
        wrTargetEntry m disk result address = disk address := by
      intro address hout
      unfold wrTargetEntry wrEntry
      rw [hresult]
      exact wrEntryAt_outside _ _ hfits.name_lt hout
    refine ⟨hahead.device, ?_, ?_, hfits.name_lt, ?_⟩
    · intro address haway
      rw [hout address haway]
      exact hahead.same address haway
    · intro address hlow hhigh haway
      rw [hout address haway]
      exact hahead.slots address hlow hhigh haway
    · unfold wrTargetEntry
      rw [hresult]
      exact rdEntry_wrEntry disk m index hfits

-- Two disks that hold the same image: the allocation table, the decoded entries of the
-- directory and the data blocks.
structure SameImage (m : Mount) (first second : Store) : Prop where
  fat : ∀ block, block < m.blocks → fat first m block = fat second m block
  parents : ∀ index, index < capacity m →
    (rdEntry first m index).parentId = (rdEntry second m index).parentId
  entries : ∀ index, index < capacity m → (rdEntry first m index).parentId ≠ 0 →
    rdEntry first m index = rdEntry second m index
  data : ∀ block, DataBlock m block → ∀ offset, offset < BYTES_PER_BLOCK →
    first (blockLoc block + offset) = second (blockLoc block + offset)

-- Writing the entry at the end brings the device up to date.
theorem Ahead.sameImage (hahead : Ahead m index origin dev disk entry) (hgeometry : Geometry m)
    (hindex : index < capacity m) (hfits : entry.Fits)
    (hnames : ∀ other, other < capacity m → (rdEntry origin m other).parentId ≠ 0 →
      (rdEntry origin m other).name.length < FILENAME_LEN) :
    SameImage m disk (wrEntryU m dev index entry).disk := by
  have horigin := hahead.slots
  obtain ⟨hstart, hend⟩ := entryLoc_end_le hgeometry hindex
  have hwritten := hahead.device.wrEntryU hgeometry hindex hfits.name_lt
  have hself : rdEntry (wrEntryU m dev index entry).disk m index = rdEntry disk m index := by
    rw [hwritten, rdEntry_entryBytes _ _ _ hfits, hahead.entry]
  have hsame : ∀ address, address < entryLoc m index ∨ entryLoc m index + SIZEOF_ENTRY ≤ address →
      (wrEntryU m dev index entry).disk address = disk address := by
    intro address hout
    rw [hwritten, write_outside _ _ _ _ (by rw [entryBytes_length hfits.name_lt]; exact hout)]
    exact hahead.same address hout
  generalize (wrEntryU m dev index entry).disk = last at *
  have hslots : SameOtherSlots m index disk last := fun address _ _ hout => hsame address hout
  refine ⟨?_, ?_, ?_, ?_⟩
  · intro block hblock
    exact (fat_congr hgeometry hblock fun address hlow => hsame address (Or.inl (by omega))).symm
  · intro other hother
    by_cases heq : other = index
    · rw [heq, hself]
    · exact (hslots.parentId hgeometry hindex hother heq).symm
  · intro other hother hparent
    by_cases heq : other = index
    · rw [heq, hself]
    · have hkept := horigin.parentId hgeometry hindex hother heq
      have hname := hnames other hother (hkept ▸ hparent)
      have hentry := horigin.rdEntry hgeometry hindex hother heq hname
      rw [← hentry] at hname
      exact (hslots.rdEntry hgeometry hindex hother heq hname).symm
  · intro block hblock offset _
    have habove := (data_above_directory hgeometry hblock).1
    exact (hsame _ (Or.inr (by omega))).symm

-- The state in which both writes start.
theorem Caches.placed (hsound : Sound m disk chains) (hcaches : Caches m disk chains index file) :
    Placed m index (blockCount file.pathResult.target.size) file := by
  obtain ⟨hlive, -, htargetEntry, htarget, hok⟩ := hcaches
  have hlength : (chains index).length = blockCount file.pathResult.target.size := by
    rw [htarget]
    exact (hsound.files index hlive).length
  rw [← hlength]
  refine ⟨htargetEntry, ?_, ?_, fun j hj => hok.block_data hj, ?_⟩
  · rw [htarget]
    exact rdEntry_fits disk m index (hsound.names index hlive.1 hlive.2.1)
  · rw [hok.allocMap, List.length_append]
    exact Nat.le_add_right _ _
  · intro hdirty
    exact hok.inside (by rw [hdirty]; decide)

-- A write through a handle of one byte is its writeByte and the entry.
theorem echfsUwrite_one {val : UInt8} {after : DevFile × CachedFile} (hptr : h.ptr = loc)
    (hafter : writeByte handleAccess m h.dev h.file val loc = some after) :
    ∃ next, echfsUwrite m h [val] = some (1, next) ∧ next.file = after.2 ∧
      next.dev = wrEntryU m after.1 after.2.pathResult.targetEntry after.2.pathResult.target := by
  have hbytes : uwriteBytes m [val] h.dev h.file h.ptr = some (after.1, after.2, h.ptr + 1) := by
    rw [uwriteBytes, hptr, Int.toNat_natCast, hafter]
    rfl
  unfold echfsUwrite
  rw [hbytes, Option.map_some]
  exact ⟨_, rfl, rfl, rfl⟩

-- Writing one byte of an existing file by its path and through a handle on it.
theorem path_and_handle_write_agree (hsound : Sound m v.disk chains)
    (hcached : findCached v.cachedFiles path = some slot) (hslot : v.cachedFiles[slot]? = some file)
    (hcaches : Caches m v.disk chains index file) (hdevice : DeviceOk m h.dev)
    (hdisk : h.dev.disk = v.disk) (hfile : h.file = file) (hptr : h.ptr = loc)
    (hloc : loc < 2 ^ 31 - 1)
    (hspace : blockCount (loc + 1) - blockCount file.size ≤ freeBlocks m v.disk) (val : UInt8) :
    ∃ next after, echfsWrite v m path val loc = some (SUCCESS, next) ∧
      echfsUwrite m h [val] = some (1, after) ∧
      next.cachedFiles = v.cachedFiles.set slot after.file ∧
      SameImage m next.disk after.dev.disk := by
  have hgeometry := hsound.geometry
  have hlive := hcaches.live
  have hplaced := hcaches.placed hsound
  have hahead : Ahead m index v.disk h.dev v.disk file.pathResult.target := by
    refine ⟨hdevice, fun _ _ => by rw [hdisk], fun _ _ _ _ => rfl, ?_, hcaches.target.symm⟩
    exact hplaced.fits.name_lt
  obtain ⟨left, right, hleft, hright, ⟨hsame, hlast⟩, hentry, hfits⟩ :=
    (handleAccess_lockstep hgeometry hlive.1 v.disk).writeByte hgeometry hlive.1 hahead hplaced
      hsound.reserved (by omega) hspace val
  rw [← hfile] at hleft
  obtain ⟨after, hafter, hafterFile, hafterDev⟩ := echfsUwrite_one hptr hleft
  have hwrite : echfsWrite v m path val loc = some (SUCCESS, v.update slot right) := by
    unfold echfsWrite cacheFile
    rw [hcached]
    dsimp only
    rw [hslot, Option.map_some, Option.bind_some]
    dsimp only
    rw [hcaches.found, if_neg Bool.false_ne_true, hright]
    rfl
  refine ⟨_, after, hwrite, hafter, ?_, ?_⟩
  · rw [hafterFile, hsame]
    rfl
  · rw [hafterDev, hsame, hentry]
    exact hlast.sameImage hgeometry hlive.1 hfits hsound.names

-- One byte in the block after the one of /a, which both calls have to allocate.
theorem byte_agrees_past_the_block : ∃ (v : Volume) (h : OpenFile) (next : Volume) (after : OpenFile),
    v.disk = storedDisk ∧ h.dev.disk = storedDisk ∧ h.file.size = 3 ∧
    echfsWrite v smallMount pathA 7 32768 = some (SUCCESS, next) ∧
    echfsUwrite smallMount h [7] = some (1, after) ∧
    next.cachedFiles = v.cachedFiles.set 0 after.file ∧
    SameImage smallMount next.disk after.dev.disk := by
  obtain ⟨file, hpath, hcaches, hentry⟩ := storedDisk_existing.newCaches
  have hsize : file.size = 3 := Option.some.inj hentry
  obtain ⟨h, hdisk, hfile, hptr, hdevice⟩ := exists_handle (m := smallMount) storedDisk file 32768
    (show 0 < storedSize by decide) (Nat.le_refl _) (by decide)
  have hfree : 1 ≤ freeBlocks smallMount storedDisk := by decide +kernel
  have hspace : blockCount (32768 + 1) - blockCount file.size ≤ freeBlocks smallMount storedDisk := by
    have hmore : blockCount (32768 + 1) - blockCount 3 = 1 := by decide
    rw [hsize, hmore]
    exact hfree
  have hcached : findCached [file] pathA = some 0 := by
    simp [findCached, hpath]
  have hstored := storedDisk_sound
  rw [← hfile] at hsize
  dsimp only at hcaches
  generalize storedDisk = disk at *
  obtain ⟨next, after, hagree⟩ := path_and_handle_write_agree (v := { disk := disk, cachedFiles := [file] })
    hstored hcached rfl hcaches hdevice hdisk hfile hptr (by decide) hspace 7
  exact ⟨_, h, next, after, rfl, hdisk, hsize, hagree⟩

end EchidnaOS.Echfs
