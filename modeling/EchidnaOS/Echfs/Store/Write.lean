import EchidnaOS.Echfs.Handle.Splice

namespace EchidnaOS.Echfs

open EchidnaOS.Lib.ByteStore

variable {disk middle next : Store} {m : Mount} {v : Volume} {entries : List Entry}
  {chains : Nat → List Nat} {blocks : List Nat} {file : CachedFile} {path : Path} {index loc : Nat}

-- What a write to the file in slot `index` leaves alone, whose blocks are `blocks` after it.
structure FileWrite (m : Mount) (index : Nat) (blocks : List Nat) (disk next : Store) : Prop where
  slots : SameOtherSlots m index disk next
  data : ∀ block, DataBlock m block → block ∉ blocks → ∀ offset, offset < BYTES_PER_BLOCK →
    next (blockLoc block + offset) = disk (blockLoc block + offset)

theorem FileWrite.trans {more : List Nat} (hfirst : FileWrite m index blocks disk middle)
    (hsecond : FileWrite m index more middle next) (hmore : ∀ block ∈ blocks, block ∈ more) :
    FileWrite m index more disk next := by
  constructor
  · intro address hlow hhigh hout
    rw [hsecond.slots address hlow hhigh hout, hfirst.slots address hlow hhigh hout]
  · intro block hblock hnew offset hoffset
    rw [hsecond.data block hblock hnew offset hoffset,
      hfirst.data block hblock (fun hmem => hnew (hmore block hmem)) offset hoffset]

theorem SameOutside.fileWrite (hgeometry : Geometry m) (hdata : ∀ block ∈ blocks, DataBlock m block)
    (hsame : SameOutside blocks disk next) : FileWrite m index blocks disk next := by
  constructor
  · intro address _ hhigh _
    exact hsame.below hgeometry hdata hhigh
  · intro block hblock hout offset hoffset
    apply hsame
    intro other hmem
    have hne : block ≠ other := fun heq => hout (heq ▸ hmem)
    have hapart := hblock.apart hgeometry (hdata other hmem) hne
    omega

-- The entry of the file is written.
theorem wrTargetEntry_fileWrite (hgeometry : Geometry m) {result : PathResult}
    (hindex : result.targetEntry < capacity m) (hname : result.target.name.length < FILENAME_LEN)
    (blocks : List Nat) (disk : Store) :
    FileWrite m result.targetEntry blocks disk (wrTargetEntry m disk result) := by
  have hout : ∀ address, address < entryLoc m result.targetEntry ∨
      entryLoc m result.targetEntry + SIZEOF_ENTRY ≤ address →
      wrTargetEntry m disk result address = disk address := by
    intro address haway
    exact wrEntryAt_outside _ _ hname haway
  have hend := (entryLoc_end_le hgeometry hindex).2
  constructor
  · intro address _ _ haway
    exact hout address haway
  · intro block hblock _ offset _
    have habove := (data_above_directory hgeometry hblock).1
    exact hout _ (Or.inr (by omega))

theorem extend_fileWrite (hgeometry : Geometry m) (hindex : file.pathResult.targetEntry < capacity m)
    (hname : file.pathResult.target.name.length < FILENAME_LEN) (blocks : List Nat) (disk : Store)
    (loc : Nat) :
    FileWrite m file.pathResult.targetEntry blocks disk (extend (byteAccess m) disk file loc).1 := by
  unfold extend
  by_cases hgrows : file.pathResult.target.size ≤ loc
  · rw [if_pos hgrows]
    have hwritten := @wrTargetEntry_fileWrite m hgeometry
      { file.pathResult with target := { file.pathResult.target with size := (loc + 1) % 2 ^ 64 } }
      hindex hname blocks disk
    exact hwritten
  · rw [if_neg hgrows]
    exact ⟨fun _ _ _ _ => rfl, fun _ _ _ _ _ => rfl⟩

theorem Grew.fileWrite {chain : List Nat} {tBlock : Nat} {before after : Store × CachedFile}
    (hgrew : Grew m (wrTargetEntry m) chain tBlock before after) (hgeometry : Geometry m)
    (hindex : before.2.pathResult.targetEntry < capacity m)
    (hname : before.2.pathResult.target.name.length < FILENAME_LEN) :
    FileWrite m before.2.pathResult.targetEntry (chain ++ [tBlock]) before.1 after.1 := by
  constructor
  · intro address hlow hhigh haway
    rw [hgrew.directory address hlow hhigh]
    by_cases hnil : chain = []
    · have hresult := hgrew.pathResult
      rw [if_pos hnil] at hresult ⊢
      rw [hresult]
      have hwritten := @wrTargetEntry_fileWrite m hgeometry
        { before.2.pathResult with target := { before.2.pathResult.target with payload := tBlock } }
        hindex hname [] before.1
      exact hwritten.slots address hlow hhigh haway
    · rw [if_neg hnil]
  · intro block hblock hout offset hoffset
    rw [List.mem_append, List.mem_singleton, not_or] at hout
    exact hgrew.data block hblock hout.2 offset hoffset

theorem blockCount_succ_le {size : Nat} (hloc : loc ≤ size) :
    blockCount (loc + 1) ≤ blockCount size + 1 := by
  unfold blockCount
  split <;> split <;> simp only [BYTES_PER_BLOCK] at * <;> omega

-- What one echfs_write at a position up to the end of a file does to the image.
structure ByteWritten (m : Mount) (disk : Store) (entries : List Entry) (chains : Nat → List Nat)
    (index loc : Nat) (val : UInt8) (file : CachedFile) (after : Store × CachedFile) : Prop where
  contents : fileContents after.1 after.2 = splice (fileContents disk file) loc [val]
  table : Table m after.1 (entries.set index after.2.pathResult.target)
  target : after.2.pathResult.target = { file.pathResult.target with
    size := max file.size (loc + 1)
    payload := after.2.pathResult.target.payload }
  path : after.2.path = file.path
  image : ∃ blocks, SlotChange m chains index blocks disk after.1 ∧
    Caches m after.1 (Function.update chains index blocks) index after.2 ∧
    ∀ other, LiveFile m disk other → other ≠ index → ∀ block ∈ chains other, ∀ offset,
      offset < BYTES_PER_BLOCK → after.1 (blockLoc block + offset) = disk (blockLoc block + offset)

-- The state before the byte is put, when at most one block has to be added.
structure Prepared (m : Mount) (entries : List Entry) (index : Nat) (chain blocks : List Nat)
    (loc : Nat) (before after : Store × CachedFile) : Prop where
  ready : Ready m entries index chain blocks loc before after
  kept : ∀ block ∈ chain, block ∈ blocks
  written : FileWrite m index blocks before.1 after.1
  pathResult : after.2.pathResult = { before.2.pathResult with target := after.2.pathResult.target }

theorem Existing.prepared (hfile : Existing m v entries chains path index)
    (hrecord : RecordOk m v.disk entries chains index file)
    (hspace : blockCount (loc + 1) - (chains index).length ≤ freeBlocks m v.disk)
    (hone : blockCount (loc + 1) ≤ (chains index).length + 1) (val : UInt8) :
    ∃ blocks ready, Prepared m entries index (chains index) blocks loc (v.disk, file) ready ∧
      writeByte (byteAccess m) m v.disk file val loc =
        some (putByte (byteAccess m) ready.1 ready.2 val loc) := by
  have hgeometry := hfile.image.geometry
  have hindex := hfile.index_lt
  have hloc := hfile.loc_lt hspace
  have hchain := hfile.image.files index hindex hfile.isFile
  have hentry := hrecord.entry_eq hindex
  have hroom := hfile.image.table.room
  have hfits := hfile.image.table.fits _ (List.getElem_mem hindex)
  have hslot : file.pathResult.targetEntry < capacity m := by
    rw [hrecord.targetEntry]
    omega
  have hname : file.pathResult.target.name.length < FILENAME_LEN := by
    rw [← hentry]
    exact hfits.name_lt
  have hextended := extend_spec hfile.image hindex hrecord hloc
  have hwritten := extend_fileWrite hgeometry hslot hname (chains index) v.disk loc
  rw [hrecord.targetEntry] at hwritten
  rw [hfile.writeByte_eq hrecord hloc val rfl]
  generalize extend (byteAccess m) v.disk file loc = extended at *
  have hresult := hextended.pathResult
  dsimp only at hresult
  by_cases hgrows : (chains index).length < blockCount (loc + 1)
  · have hnew : blockCount (loc + 1) = (chains index).length + 1 := by omega
    obtain ⟨hkeeps, tBlock, hfound, hblock, hzero, hfresh⟩ :=
      hfile.canGrow hrecord hextended (by omega)
    obtain ⟨after, hgrown, hgrew⟩ := grow_one hgeometry hextended.ok hblock hfresh hkeeps hfound
    have hextendedSlot : extended.2.pathResult.targetEntry = index := by
      rw [hresult]
      exact hrecord.targetEntry
    have hgrewWritten := hgrew.fileWrite hgeometry
      (by dsimp only; rw [hextendedSlot, ← hrecord.targetEntry]; exact hslot)
      (by dsimp only; rw [hresult]; exact hname)
    dsimp only at hgrewWritten
    rw [hextendedSlot] at hgrewWritten
    have hkept : ∀ block ∈ chains index, block ∈ chains index ++ [tBlock] :=
      fun block hmem => List.mem_append_left _ hmem
    rw [if_pos hgrows, hnew, hgrown]
    refine ⟨_, after, ⟨?_, hkept, hwritten.trans hgrewWritten hkept, ?_⟩, rfl⟩
    · exact hgrew.ready hchain hentry hgeometry hindex hrecord.targetEntry hextended hblock hzero
        hfresh hnew
    · rw [hgrew.pathResult]
      dsimp only
      rw [hresult]
      split
      · rfl
      · rfl
  · rw [if_neg hgrows]
    refine ⟨_, extended, ⟨?_, fun _ hmem => hmem, hwritten, ?_⟩, rfl⟩
    · exact hextended.ready hchain hentry hgeometry (by omega)
    · rw [hresult]

-- The change of the slot that the write amounts to.
theorem Prepared.slotChange (hfile : Existing m v entries chains path index)
    (hsound : Sound m v.disk chains) (hrecord : RecordOk m v.disk entries chains index file)
    {ready after : Store × CachedFile}
    (hprepared : Prepared m entries index (chains index) blocks loc (v.disk, file) ready)
    (hok : FileOk m after.1 after.2 blocks) (hsame : SameOutside blocks ready.1 after.1)
    (hresult : after.2.pathResult = ready.2.pathResult)
    (htable : Table m after.1 (entries.set index after.2.pathResult.target)) :
    SlotChange m chains index blocks v.disk after.1 ∧
      Caches m after.1 (Function.update chains index blocks) index after.2 ∧
      FileWrite m index blocks v.disk after.1 := by
  have hgeometry := hsound.geometry
  have hindex := hfile.index_lt
  have hroom := hfile.image.table.room
  have hentry := hrecord.entry_eq hindex
  have hready := hprepared.ready
  have hdirectory := hgeometry.directory_fits
  have hlive : LiveFile m v.disk index := hfile.image.live_iff.mpr ⟨hindex, hfile.isFile⟩
  have hfat : ∀ block, block < m.blocks → block ∉ blocks →
      fat after.1 m block = fat v.disk m block := by
    intro block hlt hout
    rw [← hready.fat block hlt hout]
    refine fat_congr hgeometry hlt fun address hlow => ?_
    refine hsame.below hgeometry hok.data ?_
    have := Nat.mul_le_mul_right BYTES_PER_BLOCK (Nat.le_of_add_right_le hdirectory)
    omega
  have hlength : index < (entries.set index after.2.pathResult.target).length := by
    rw [List.length_set]
    exact hindex
  have hslot : rdEntry after.1 m index = after.2.pathResult.target := by
    rw [htable.used index hlength, List.getElem_set_self]
  have htarget : after.2.pathResult.target = { file.pathResult.target with
      size := max file.pathResult.target.size (loc + 1)
      payload := after.2.pathResult.target.payload } := by
    rw [hresult]
    exact hready.target
  have hresized : rdEntry after.1 m index = { rdEntry v.disk m index with
      size := max file.pathResult.target.size (loc + 1)
      payload := after.2.pathResult.target.payload } := by
    rw [hslot, hfile.image.table.used index hindex, hentry]
    exact htarget
  have hlast : LiveFile m after.1 index := hlive.resize hresized
  have hwritten : FileWrite m index blocks v.disk after.1 :=
    hprepared.written.trans (hsame.fileWrite hgeometry hok.data) fun _ hmem => hmem
  have hbelow : ∀ address, address < m.dirstart * BYTES_PER_BLOCK → after.1 address = ready.1 address := by
    intro address hlow
    refine hsame.below hgeometry hok.data ?_
    have := Nat.mul_le_mul_right BYTES_PER_BLOCK (Nat.le_of_add_right_le hdirectory)
    omega
  -- the blocks the file gets are its own or free ones
  have hapart : ∀ other, LiveFile m v.disk other → other ≠ index → blocks.Disjoint (chains other) := by
    intro other hother hne block hmem hmem'
    rcases hready.fresh block hmem with hold | hzero
    · exact hsound.disjoint other index hother hlive hne hmem' hold
    · exact (hsound.files other hother).fat_ne_zero hgeometry hmem' hzero
  refine ⟨⟨hlive.1, hwritten.slots, ?_, ?_, ?_, ?_, fun _ => hapart, ?_⟩, ?_, hwritten⟩
  · exact htable.name_lt hlength
  · intro _
    rw [hslot, hresult]
    refine ⟨hok.data, hready.linked.congr ?_, hok.nodup, ?_⟩
    · intro block hmem
      exact fat_congr hgeometry (hok.data block hmem).2 hbelow
    · rw [hready.length, hready.target]
  · intro other hother hne block hmem
    have hdata := (hsound.files other hother).data block hmem
    exact hfat block hdata.2 fun hmem' => hapart other hother hne hmem' hmem
  · intro block hlow
    have hle := hgeometry.data_le
    refine hfat block (by omega) fun hmem => ?_
    have := (hok.data block hmem).1
    omega
  · intro block hblock hout hothers
    have hnew := hout hlast
    rw [hfat block hblock.2 hnew]
    refine hsound.free block hblock fun other hother => ?_
    by_cases heq : other = index
    · rw [heq]
      exact fun hmem => hnew (hprepared.kept block hmem)
    · exact hothers other hother heq
  · have hpathResult := hprepared.pathResult
    refine ⟨hlast, ?_, ?_, hslot.symm, ?_⟩
    · rw [hresult, hpathResult]
      exact hrecord.found
    · rw [hresult, hpathResult]
      exact hrecord.targetEntry
    · rw [Function.update_self]
      exact hok

-- The bytes of a file in which one has been written, up to its end.
theorem fileContents_splice {disk next : Store} {after : CachedFile} {val : UInt8}
    (hsize : after.size = max file.size (loc + 1)) (hloc : loc ≤ file.size)
    (hbyte : contents next after loc = val)
    (hothers : ∀ pos, pos < file.size → pos ≠ loc → contents next after pos = contents disk file pos) :
    fileContents next after = splice (fileContents disk file) loc [val] := by
  apply List.ext_getElem?
  intro pos
  rw [splice_getElem? (by rw [fileContents_length]; exact hloc)]
  unfold fileContents
  rw [fileBytes_getElem?, fileBytes_getElem?, Nat.zero_add, hsize, List.length_singleton]
  by_cases hpos : pos < max file.size (loc + 1)
  · rw [if_pos hpos]
    by_cases hhere : pos = loc
    · rw [if_pos (by omega), hhere, hbyte, Nat.sub_self]
      rfl
    · rw [if_neg (by omega), if_pos (by omega), hothers pos (by omega) hhere]
  · rw [if_neg hpos, if_neg (by omega), if_neg (by omega)]

-- A write at a position up to the end of an existing file.
theorem Existing.byteWritten (hfile : Existing m v entries chains path index)
    (hsound : Sound m v.disk chains) (hrecord : RecordOk m v.disk entries chains index file)
    (hloc : loc ≤ file.size)
    (hspace : blockCount (loc + 1) ≤ blockCount file.size + freeBlocks m v.disk) (val : UInt8) :
    ∃ after, writeByte (byteAccess m) m v.disk file val loc = some after ∧
      ByteWritten m v.disk entries chains index loc val file after := by
  have hgeometry := hsound.geometry
  have hindex := hfile.index_lt
  have hchain := hfile.image.files index hindex hfile.isFile
  have hlength : (chains index).length = blockCount file.size := by
    rw [hchain.length, hrecord.entry_eq hindex]
    rfl
  have hsucc := blockCount_succ_le hloc
  have hroom : blockCount (loc + 1) - (chains index).length ≤ freeBlocks m v.disk := by
    rw [hlength]
    omega
  have hone : blockCount (loc + 1) ≤ (chains index).length + 1 := by
    rw [hlength]
    exact hsucc
  obtain ⟨blocks, ready, hprepared, hwrite⟩ := hfile.prepared hrecord hroom hone val
  have hready := hprepared.ready
  have hinside : ∀ pos, pos < max file.size (loc + 1) → pos / BYTES_PER_BLOCK < blocks.length := by
    intro pos hpos
    rw [hready.length]
    exact div_lt_blockCount hpos
  obtain ⟨hok, hsame, hresult, hkept, hbytes⟩ :=
    putByte_spec hgeometry hready.ok (hinside loc (by omega)) val rfl
  refine ⟨_, hwrite, ?_⟩
  generalize putByte (byteAccess m) ready.1 ready.2 val loc = after at *
  have htable : Table m after.1 (entries.set index after.2.pathResult.target) := by
    rw [hresult]
    exact hready.table.of_same hgeometry fun address _ hhigh => hsame.below hgeometry hok.data hhigh
  obtain ⟨hchange, hcaches, hwritten⟩ :=
    hprepared.slotChange hfile hsound hrecord hok hsame hresult htable
  have htarget : after.2.pathResult.target = { file.pathResult.target with
      size := max file.size (loc + 1)
      payload := after.2.pathResult.target.payload } := by
    rw [hresult]
    exact hready.target
  have hsize : after.2.size = max file.size (loc + 1) := by
    rw [CachedFile.size, htarget]
  refine ⟨?_, htable, htarget, hkept.trans hready.path, blocks, hchange, hcaches, ?_⟩
  · refine fileContents_splice hsize hloc ?_ ?_
    · rw [hbytes loc (hinside loc (by omega)), if_pos rfl]
    · intro pos hpos hne
      have hold : pos / BYTES_PER_BLOCK < (chains index).length := by
        rw [hlength]
        exact div_lt_blockCount hpos
      rw [hbytes pos (hinside pos (by omega)), if_neg hne, hready.old pos hold]
  · intro other hother hne block hmem offset hoffset
    have hdata := (hsound.files other hother).data block hmem
    refine hwritten.data block hdata (fun hmem' => ?_) offset hoffset
    exact hchange.disjoint hcaches.live other hother hne hmem' hmem

end EchidnaOS.Echfs
