import EchidnaOS.Echfs.Handle.Access
import EchidnaOS.Echfs.Image.Frame

namespace EchidnaOS.Echfs

open EchidnaOS.Lib.ByteStore EchidnaOS.Devfs

variable {m : Mount} {dev : DevFile} {file : CachedFile} {chain : List Nat} {loc pos : Nat}

def CachedFile.size (file : CachedFile) : Nat := file.pathResult.target.size

-- A cached file on its device, between two bytes of a transfer. The free blocks of the
-- allocation table are data blocks that no block of the file is among.
structure CursorOk (m : Mount) (dev : DevFile) (file : CachedFile) (chain : List Nat) : Prop where
  geometry : Geometry m
  device : DeviceOk m dev
  ok : FileOk m dev.disk file chain
  length : chain.length = blockCount file.size
  reserved : ∀ block, block < m.datastart → fat dev.disk m block ≠ 0
  used : ∀ block ∈ chain, fat dev.disk m block ≠ 0
  entry_lt : file.pathResult.targetEntry < capacity m
  name_lt : file.pathResult.target.name.length < FILENAME_LEN

namespace CursorOk

theorem size_lt (hcursor : CursorOk m dev file chain) : file.size < 2 ^ 31 := by
  have hblocks := chain_length_le hcursor.ok.data hcursor.ok.nodup
  have hholds := hcursor.device.holds
  have hsmall := hcursor.device.small
  have hsize := le_blockCount_mul file.size
  have hle := Nat.mul_le_mul_right BYTES_PER_BLOCK hblocks
  rw [← hcursor.length] at hsize
  omega

theorem block_lt (hcursor : CursorOk m dev file chain) (hpos : pos < file.size) :
    pos / BYTES_PER_BLOCK < chain.length := by
  rw [hcursor.length]
  exact div_lt_blockCount hpos

-- A step that only writes data blocks of the file keeps the tables.
theorem of_same (hcursor : CursorOk m dev file chain) {after : DevFile} {next : CachedFile}
    (hdevice : DeviceOk m after) (hok : FileOk m after.disk next chain)
    (hsame : SameOutside chain dev.disk after.disk) (hresult : next.pathResult = file.pathResult) :
    CursorOk m after next chain ∧
      ∀ block, block < m.blocks → fat after.disk m block = fat dev.disk m block := by
  have hgeometry := hcursor.geometry
  have hfat : ∀ block, block < m.blocks → fat after.disk m block = fat dev.disk m block := by
    intro block hlt
    refine fat_congr hgeometry hlt fun address hlow => hsame address ?_
    intro other hmem
    have habove := (data_above_directory hgeometry (hcursor.ok.data other hmem)).2
    omega
  have hdata := hgeometry.data_le
  refine ⟨⟨hgeometry, hdevice, hok, ?_, ?_, ?_, ?_, ?_⟩, hfat⟩
  · rw [CachedFile.size, hresult]
    exact hcursor.length
  · intro block hlow
    rw [hfat block (by omega)]
    exact hcursor.reserved block hlow
  · intro block hmem
    rw [hfat block (hcursor.ok.data block hmem).2]
    exact hcursor.used block hmem
  · rw [hresult]
    exact hcursor.entry_lt
  · rw [hresult]
    exact hcursor.name_lt

-- echfs_ureadbyte below the end of the file.
theorem readByte (hcursor : CursorOk m dev file chain) (hloc : loc < file.size)
    {result : UInt8 × DevFile × CachedFile} (hresult : readByte handleAccess dev file loc = result) :
    result.1 = contents dev.disk file loc ∧ CursorOk m result.2.1 result.2.2 chain ∧
      result.2.2.pathResult = file.pathResult ∧
      (∀ pos, pos < file.size →
        contents result.2.1.disk result.2.2 pos = contents dev.disk file pos) := by
  have hblock := hcursor.block_lt hloc
  obtain ⟨hbyte, hsim⟩ := readByte_sim hcursor.geometry hcursor.device hcursor.ok hblock
  obtain ⟨hstore, hkeeps⟩ : _ ∧ Keeps m chain (dev.disk, file)
      (Echfs.readByte blockAccess dev.disk file loc).2 :=
    readByte_spec hcursor.geometry hcursor.ok hblock
  rw [hresult] at hbyte hsim
  generalize Echfs.readByte blockAccess dev.disk file loc = store at *
  obtain ⟨hdisk, hfile, hdevice⟩ := hsim
  have hok := hkeeps.ok
  have hsame := hkeeps.same
  have hbytes := hkeeps.bytes
  have hkept := hkeeps.pathResult
  rw [← hdisk, ← hfile] at hok hbytes
  rw [← hdisk] at hsame
  rw [← hfile] at hkept
  refine ⟨hbyte.trans hstore, (hcursor.of_same hdevice hok hsame hkept).1, hkept, ?_⟩
  intro pos hpos
  exact hbytes pos (hcursor.block_lt hpos)

-- The cached file takes a byte below its size.
theorem putByte (hcursor : CursorOk m dev file chain) (hloc : loc < file.size) (val : UInt8)
    {after : DevFile × CachedFile} (hafter : putByte handleAccess dev file val loc = after) :
    CursorOk m after.1 after.2 chain ∧ after.2.pathResult = file.pathResult ∧
      Frame m chain chain (dev.disk, file) (after.1.disk, after.2) ∧
      freeBlocks m after.1.disk = freeBlocks m dev.disk ∧
      ∀ pos, pos < file.size → contents after.1.disk after.2 pos =
        if pos = loc then val else contents dev.disk file pos := by
  have hblock := hcursor.block_lt hloc
  have hsim := putByte_sim hcursor.geometry hcursor.device hcursor.ok hblock val
  rw [hafter] at hsim
  obtain ⟨hok, hsame, hresult, hpath, hbytes⟩ :=
    putByte_spec hcursor.geometry hcursor.ok hblock val (rfl : Echfs.putByte blockAccess _ _ _ _ = _)
  generalize Echfs.putByte blockAccess dev.disk file val loc = store at *
  obtain ⟨hdisk, hfile, hdevice⟩ := hsim
  rw [← hdisk, ← hfile] at hok hbytes
  rw [← hdisk] at hsame
  rw [← hfile] at hresult hpath
  obtain ⟨hnext, hfat⟩ := hcursor.of_same hdevice hok hsame hresult
  have hframe : Frame m chain chain (dev.disk, file) (after.1.disk, after.2) :=
    SameOutside.frame hcursor.geometry hcursor.ok.data hsame hresult hpath
  refine ⟨hnext, hresult, hframe, freeBlocks_congr hfat, ?_⟩
  intro pos hpos
  exact hbytes pos (hcursor.block_lt hpos)

-- The record after the size is set; the device is not touched.
def extended (file : CachedFile) (loc : Nat) : CachedFile :=
  if file.size ≤ loc then
    file.setTarget { file.pathResult.target with size := (loc + 1) % 2 ^ 64 }
  else file

theorem extend_eq (dev : DevFile) (file : CachedFile) (loc : Nat) :
    extend handleAccess dev file loc = (dev, extended file loc) := by
  unfold extend extended CachedFile.size
  split
  · rfl
  · rfl

theorem extended_size (hloc : loc + 1 < 2 ^ 64) :
    (extended file loc).size = max file.size (loc + 1) := by
  unfold extended
  by_cases hend : file.size ≤ loc
  · rw [if_pos hend, Nat.max_eq_right (by omega)]
    exact Nat.mod_eq_of_lt hloc
  · rw [if_neg hend, Nat.max_eq_left (by omega)]

theorem extended_ok (hok : FileOk m dev.disk file chain) (loc : Nat) :
    FileOk m dev.disk (extended file loc) chain ∧
      (extended file loc).pathResult.targetEntry = file.pathResult.targetEntry ∧
      (extended file loc).pathResult.target.name = file.pathResult.target.name ∧
      ∀ pos, contents dev.disk (extended file loc) pos = contents dev.disk file pos := by
  unfold extended
  split
  · exact ⟨⟨hok.allocMap, hok.nodup, hok.data, hok.inside, hok.clean⟩, rfl, rfl, fun _ => rfl⟩
  · exact ⟨hok, rfl, rfl, fun _ => rfl⟩

theorem extended_frame (chain : List Nat) (disk : Store) (file : CachedFile) (loc : Nat) :
    Frame m chain chain (disk, file) (disk, extended file loc) := by
  unfold extended
  split
  · exact frame_setSize chain _
  · exact Frame.refl chain _

end CursorOk

-- What echfs_uwritebyte does at a position up to the end of the file.
structure Wrote (m : Mount) (loc : Nat) (val : UInt8) (dev : DevFile) (file : CachedFile)
    (chain : List Nat) (after : DevFile × CachedFile) : Prop where
  cursor : ∃ blocks, CursorOk m after.1 after.2 blocks ∧
    Frame m chain blocks (dev.disk, file) (after.1.disk, after.2)
  size : after.2.size = max file.size (loc + 1)
  bytes : ∀ pos, pos < after.2.size → contents after.1.disk after.2 pos =
    if pos = loc then val else contents dev.disk file pos
  free : blockCount file.size + freeBlocks m dev.disk ≤
    blockCount after.2.size + freeBlocks m after.1.disk

namespace CursorOk

theorem grow (hcursor : CursorOk m dev file chain)
    (hgrows : blockCount (extended file loc).size = chain.length + 1)
    (hfree : 0 < freeBlocks m dev.disk) :
    ∃ after blocks, grow handleAccess m dev (extended file loc) chain.length (chain.length + 1) =
        some after ∧ CursorOk m after.1 after.2 blocks ∧
      Frame m chain blocks (dev.disk, file) (after.1.disk, after.2) ∧
      after.2.size = (extended file loc).size ∧
      freeBlocks m after.1.disk + 1 = freeBlocks m dev.disk ∧
      ∀ pos, pos / BYTES_PER_BLOCK < chain.length →
        contents after.1.disk after.2 pos = contents dev.disk file pos := by
  have hgeometry := hcursor.geometry
  have hdata := hgeometry.data_le
  have hpos := hgeometry.data_pos
  obtain ⟨hok, hentry, hname, hcontents⟩ := extended_ok hcursor.ok loc
  have hlarger : Frame m chain chain (dev.disk, file) (dev.disk, extended file loc) :=
    extended_frame chain dev.disk file loc
  generalize extended file loc = larger at *
  obtain ⟨tBlock, hfound, hblock, hzero⟩ : ∃ tBlock,
      freeBlockFrom blockAccess m FAT_LOOP dev.disk 0 = some (tBlock, dev.disk) ∧
        DataBlock m tBlock ∧ fat dev.disk m tBlock = 0 :=
    freeBlock_found hgeometry hcursor.reserved hfree fun _ _ => rfl
  have hfresh : tBlock ∉ chain := fun hmem => hcursor.used tBlock hmem hzero
  obtain ⟨store, hstore, hgrew⟩ :=
    grow_one hgeometry hok hblock hfresh (fun _ _ _ _ _ _ => rfl) hfound
  obtain ⟨after, hafter, hdisk, hfile, hdevice⟩ :=
    grow_one_sim hgeometry hcursor.device hok hblock hfound hstore
  have hframe := hgrew.frame hcursor.ok.data hcursor.ok.nodup hblock hzero hfresh
  obtain ⟨hgrewOk, hold, -, -, hfat, -, -, hresult⟩ := hgrew
  rw [← hdisk, ← hfile] at hgrewOk hold
  rw [← hfile] at hresult
  rw [← hdisk] at hfat
  rw [← Prod.mk.eta (p := store), ← hdisk, ← hfile] at hframe
  have hgrown := hlarger.trans (fun block hmem => (hgrewOk.data block hmem).2) hframe
  dsimp only at hfat hold hresult
  have hlast : ∀ block, chain.getLast? = some block → block ∈ chain :=
    fun block h => List.mem_of_getLast? h
  have hsize : after.2.size = larger.size := by
    unfold CachedFile.size
    rw [hresult]
    split <;> rfl
  refine ⟨after, chain ++ [tBlock], hafter, ⟨hgeometry, hdevice, hgrewOk, ?_, ?_, ?_, ?_, ?_⟩, hgrown,
    hsize, ?_, ?_⟩
  · rw [hsize, hgrows]
    simp
  · intro block hlow
    have hlow' := hblock.1
    rw [hfat block (by omega), if_neg (by omega)]
    split
    · omega
    · exact hcursor.reserved block hlow
  · intro block hmem
    rcases List.mem_append.mp hmem with hmem | hmem
    · rw [hfat block (hcursor.ok.data block hmem).2, if_neg (fun h : block = tBlock => hfresh (h ▸ hmem))]
      split
      · have hlow := hblock.1
        omega
      · exact hcursor.used block hmem
    · rw [List.mem_singleton.mp hmem, hfat tBlock hblock.2, if_pos rfl]
      decide
  · rw [hresult]
    split
    · exact hentry ▸ hcursor.entry_lt
    · exact hentry ▸ hcursor.entry_lt
  · rw [hresult]
    split
    · exact hname ▸ hcursor.name_lt
    · exact hname ▸ hcursor.name_lt
  · refine freeBlocks_take hblock.2 hzero ?_ ?_
    · rw [hfat tBlock hblock.2, if_pos rfl]
      decide
    · intro block hlt hne
      rw [hfat block hlt, if_neg hne]
      split
      · rename_i hsome
        have hused := hcursor.used block (hlast block hsome)
        have hlow := hblock.1
        constructor
        · omega
        · exact fun h => absurd h hused
      · exact Iff.rfl
  · intro pos hpos
    rw [hold pos hpos, hcontents pos]

theorem writeByte (hcursor : CursorOk m dev file chain) (hloc : loc ≤ file.size)
    (hspace : blockCount (loc + 1) ≤ blockCount file.size + freeBlocks m dev.disk) (val : UInt8) :
    ∃ after, writeByte handleAccess m dev file val loc = some after ∧
      Wrote m loc val dev file chain after := by
  have hsizeLt := hcursor.size_lt
  have hlocLt : loc + 1 < 2 ^ 64 := by omega
  have hsize : (extended file loc).size = max file.size (loc + 1) := extended_size hlocLt
  have hlength := hcursor.length
  obtain ⟨hok, hentry, hname, hcontents⟩ := extended_ok hcursor.ok loc
  have hwrite : Echfs.writeByte handleAccess m dev file val loc =
      (if chain.length < blockCount (loc + 1) then
        Echfs.grow handleAccess m dev (extended file loc) chain.length (blockCount (loc + 1))
      else some (dev, extended file loc)).map fun grown =>
        Echfs.putByte handleAccess grown.1 grown.2 val loc := by
    unfold Echfs.writeByte
    rw [extend_eq, Nat.mod_eq_of_lt hlocLt, hlength]
    rfl
  have hstep : blockCount (loc + 1) ≤ chain.length + 1 := by
    rw [hlength]
    unfold blockCount
    split <;> split <;> simp only [BYTES_PER_BLOCK] at * <;> omega
  rw [hwrite]
  by_cases hgrows : chain.length < blockCount (loc + 1)
  · have hnew : blockCount (loc + 1) = chain.length + 1 := by omega
    have hcount : blockCount (extended file loc).size = chain.length + 1 := by
      rw [hsize, blockCount_max]
      omega
    obtain ⟨grown, blocks, hgrown, hgrownOk, hgrownFrame, hgrownSize, hfree, hbytes⟩ :=
      hcursor.grow hcount (by omega)
    rw [if_pos hgrows, hnew, hgrown, Option.map_some]
    have hinside : loc < grown.2.size := by
      rw [hgrownSize, hsize]
      omega
    obtain ⟨hput, hresult, hputFrame, hputFree, hputBytes⟩ := hgrownOk.putByte hinside val rfl
    have hframe := hgrownFrame.trans (fun block hmem => (hput.ok.data block hmem).2) hputFrame
    have hputSize : (Echfs.putByte handleAccess grown.1 grown.2 val loc).2.size =
        max file.size (loc + 1) := by
      rw [CachedFile.size, hresult]
      exact hgrownSize.trans hsize
    refine ⟨_, rfl, ⟨blocks, hput, hframe⟩, hputSize, ?_, ?_⟩
    · intro pos hpos
      rw [hputSize] at hpos
      rw [hputBytes pos (by rw [hgrownSize, hsize]; exact hpos)]
      by_cases heq : pos = loc
      · rw [if_pos heq, if_pos heq]
      · rw [if_neg heq, if_neg heq]
        exact hbytes pos (hcursor.block_lt (by omega))
    · rw [hputSize, hputFree, blockCount_max]
      omega
  · rw [if_neg hgrows, Option.map_some]
    have hlarger : CursorOk m dev (extended file loc) chain := by
      refine ⟨hcursor.geometry, hcursor.device, hok, ?_, hcursor.reserved, hcursor.used, ?_, ?_⟩
      · rw [hsize, blockCount_max]
        omega
      · exact hentry ▸ hcursor.entry_lt
      · exact hname ▸ hcursor.name_lt
    have hinside : loc < (extended file loc).size := by
      rw [hsize]
      omega
    obtain ⟨hput, hresult, hputFrame, hputFree, hputBytes⟩ := hlarger.putByte hinside val rfl
    have hframe := (extended_frame chain dev.disk file loc).trans
      (fun block hmem => (hput.ok.data block hmem).2) hputFrame
    have hputSize : (Echfs.putByte handleAccess dev (extended file loc) val loc).2.size =
        max file.size (loc + 1) := by
      rw [CachedFile.size, hresult]
      exact hsize
    refine ⟨_, rfl, ⟨chain, hput, hframe⟩, hputSize, ?_, ?_⟩
    · intro pos hpos
      rw [hputSize] at hpos
      rw [hputBytes pos (by rw [hsize]; exact hpos), hcontents pos]
    · rw [hputSize, hputFree, blockCount_max]
      omega

end CursorOk

end EchidnaOS.Echfs
