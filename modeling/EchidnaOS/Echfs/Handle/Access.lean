import EchidnaOS.Echfs.Handle
import EchidnaOS.Echfs.File.Grow

namespace EchidnaOS.Echfs

open EchidnaOS.Lib.ByteStore EchidnaOS.Devfs

variable {m : Mount} {dev : DevFile} {file : CachedFile} {chain : List Nat}
  {block loc count tBlock : Nat}

-- A device below 2 ^ 31 bytes that holds the image, seen through an open handle.
structure DeviceOk (m : Mount) (dev : DevFile) : Prop where
  inUse : dev.handle.free = false
  seekable : dev.handle.isblock = false
  begin_eq : dev.handle.begin = 0
  holds : m.blocks * BYTES_PER_BLOCK ≤ dev.handle.finish
  small : dev.handle.finish < 2 ^ 31

theorem toInt_small {x : Nat} (hx : x < 2 ^ 31) : toInt x = x := by
  unfold toInt
  rw [Int.bmod_eq_of_le_mul_two]
  · omega
  · omega

theorem toU64_small {x : Nat} (hx : x < 2 ^ 64) : toU64 x = x := by
  unfold toU64
  omega

theorem seek_small (hinUse : dev.handle.free = false) (hseekable : dev.handle.isblock = false)
    (hbegin : dev.handle.begin = 0) (hloc : loc ≤ dev.handle.finish) (hsmall : loc < 2 ^ 31) :
    (dev.seek loc).handle = { dev.handle with ptr := loc } := by
  have htarget : toU64 (toInt loc) = loc := by
    rw [toInt_small hsmall]
    exact toU64_small (by omega)
  unfold DevFile.seek
  dsimp only
  rw [devfsSeek_set hinUse hseekable hbegin, htarget, if_pos hloc]

theorem loc_of_ptr {handle : DevfsHandle} (hptr : handle.ptr = loc) (hsmall : loc < 2 ^ 31) :
    handle.loc = loc := by
  unfold DevfsHandle.loc
  rw [hptr, toInt_small hsmall]
  exact toU64_small (by omega)

theorem DeviceOk.seek_handle (hdev : DeviceOk m dev) (hloc : loc ≤ dev.handle.finish) :
    (dev.seek loc).handle = { dev.handle with ptr := loc } := by
  have hsmall := hdev.small
  exact seek_small hdev.inUse hdev.seekable hdev.begin_eq hloc (by omega)

theorem DeviceOk.seek_loc (hdev : DeviceOk m dev) (hloc : loc ≤ dev.handle.finish) :
    (dev.seek loc).handle.loc = loc := by
  have hsmall := hdev.small
  exact loc_of_ptr (by rw [hdev.seek_handle hloc]) (by omega)

-- A transfer moves the position of the handle only.
theorem DeviceOk.advance (hdev : DeviceOk m dev) (hloc : loc ≤ dev.handle.finish) (count : Nat)
    (disk : Store) :
    DeviceOk m { disk := disk, handle := (dev.seek loc).handle.advance count } ∧
      ((dev.seek loc).handle.advance count).finish = dev.handle.finish := by
  obtain ⟨ptr, hptr⟩ : ∃ ptr, (dev.seek loc).handle.advance count = { dev.handle with ptr := ptr } := by
    rw [hdev.seek_handle hloc]
    exact ⟨_, rfl⟩
  rw [hptr]
  exact ⟨⟨hdev.inUse, hdev.seekable, hdev.begin_eq, hdev.holds, hdev.small⟩, rfl⟩

theorem DeviceOk.rdAt (hdev : DeviceOk m dev) (hloc : loc ≤ dev.handle.finish) (count : Nat) :
    (dev.rdAt loc count).1 = (fun offset => dev.disk (loc + offset)) ∧
      (dev.rdAt loc count).2.disk = dev.disk ∧ DeviceOk m (dev.rdAt loc count).2 := by
  unfold DevFile.rdAt devfsUread
  dsimp only
  rw [hdev.seek_loc hloc]
  exact ⟨rfl, rfl, (hdev.advance hloc count _).1⟩

theorem DeviceOk.wrAt (hdev : DeviceOk m dev) (hloc : loc ≤ dev.handle.finish) (count : Nat)
    (source : Store) :
    (dev.wrAt loc count source).disk = blit dev.disk loc count source ∧
      DeviceOk m (dev.wrAt loc count source) ∧
      (dev.wrAt loc count source).handle.finish = dev.handle.finish := by
  unfold DevFile.wrAt devfsUwrite
  dsimp only
  rw [hdev.seek_loc hloc]
  exact ⟨rfl, (hdev.advance hloc count _).1, (hdev.advance hloc count dev.disk).2⟩

theorem blit_bytesAt (store : Store) (start : Nat) (bytes : List UInt8) :
    blit store start bytes.length (bytesAt bytes) = write store start bytes := rfl

-- The accesses of the path calls, without the directory.
abbrev blockAccess : Access Store := storeAccess fun disk _ => disk

theorem rdQword_sim (hdev : DeviceOk m dev) (hloc : loc ≤ dev.handle.finish) :
    (handleAccess.rdQword dev loc).1 = rdQword dev.disk loc ∧
      (handleAccess.rdQword dev loc).2.disk = dev.disk ∧
      DeviceOk m (handleAccess.rdQword dev loc).2 := by
  obtain ⟨hbytes, hdisk, hok⟩ := hdev.rdAt hloc 8
  refine ⟨?_, hdisk, hok⟩
  show leValue (read (dev.rdAt loc 8).1 0 8) = leValue (read dev.disk loc 8)
  rw [hbytes]
  simp only [EchidnaOS.Lib.ByteStore.read, Nat.zero_add]

theorem wrQword_sim (hdev : DeviceOk m dev) (hloc : loc ≤ dev.handle.finish) (x : Nat) :
    (handleAccess.wrQword dev loc x).disk = wrQword dev.disk loc x ∧
      DeviceOk m (handleAccess.wrQword dev loc x) := by
  obtain ⟨hdisk, hok, -⟩ := hdev.wrAt hloc 8 (bytesAt (leBytes 8 x))
  exact ⟨hdisk, hok⟩

-- The byte by byte loop over a block.
theorem DeviceOk.zeroBytes (hdev : DeviceOk m dev) (hloc : loc + count ≤ dev.handle.finish) :
    (dev.zeroBytes loc count).disk = blit dev.disk loc count (fun _ => 0) ∧
      DeviceOk m (dev.zeroBytes loc count) ∧
      (dev.zeroBytes loc count).handle.finish = dev.handle.finish := by
  induction count with
  | zero =>
      refine ⟨?_, hdev, rfl⟩
      funext address
      exact (blit_outside _ _ _ _ _ (by omega)).symm
  | succ count ih =>
      obtain ⟨hdisk, hok, hfinish⟩ := ih (by omega)
      have hstep : dev.zeroBytes loc (count + 1) =
          (dev.zeroBytes loc count).wrAt (loc + count) 1 fun _ => 0 := by
        unfold DevFile.zeroBytes
        rw [List.range_succ, List.foldl_append, List.foldl_cons, List.foldl_nil]
      obtain ⟨hlast, hlastOk, hlastFinish⟩ :=
        hok.wrAt (show loc + count ≤ (dev.zeroBytes loc count).handle.finish by omega) 1 fun _ => 0
      rw [hstep]
      refine ⟨?_, hlastOk, hlastFinish.trans hfinish⟩
      rw [hlast, hdisk]
      funext address
      unfold blit
      by_cases hnew : address = loc + count
      · rw [if_pos (by omega), if_pos (by omega)]
      · rw [if_neg (by omega)]
        by_cases hold : loc ≤ address ∧ address < loc + count
        · rw [if_pos hold, if_pos (by omega)]
        · rw [if_neg hold, if_neg (by omega)]

theorem zeroBlock_eq (dev : DevFile) (loc : Nat) :
    handleAccess.zeroBlock dev loc = dev.zeroBytes loc BYTES_PER_BLOCK := by
  simp only [handleAccess]

theorem DeviceOk.block_le (hdev : DeviceOk m dev) (hgeometry : Geometry m) (hdata : DataBlock m block) :
    blockLoc block + BYTES_PER_BLOCK ≤ dev.handle.finish := by
  have hholds := hdev.holds
  have hle := Nat.mul_le_mul_right BYTES_PER_BLOCK (Nat.succ_le_of_lt hdata.2)
  rw [Nat.succ_mul] at hle
  rw [hdata.loc_eq hgeometry]
  exact hle.trans hholds

theorem DeviceOk.fat_le (hdev : DeviceOk m dev) (hgeometry : Geometry m) (hblock : block < m.blocks) :
    fatLoc m block ≤ dev.handle.finish := by
  have hholds := hdev.holds
  have hfits := (fatLoc_eq hgeometry hblock).2
  have hdirectory := Nat.le_of_add_right_le hgeometry.directory_fits
  have hle := Nat.mul_le_mul_right BYTES_PER_BLOCK (hdirectory.trans hgeometry.data_le)
  omega

-- A step over the device handle does what the same step over the byte store does.
structure Sims (m : Mount) (result : DevFile × CachedFile) (store : Store × CachedFile) : Prop where
  disk : result.1.disk = store.1
  file : result.2 = store.2
  device : DeviceOk m result.1

theorem fetch_sim (hgeometry : Geometry m) (hdev : DeviceOk m dev)
    (hok : FileOk m dev.disk file chain) (hblock : block < chain.length) (status : CacheStatus) :
    Sims m (fetch handleAccess dev file block status)
      (fetch blockAccess dev.disk file block status) := by
  obtain ⟨middle, hmiddle, hdisk, hmiddleOk, hfinish⟩ : ∃ middle : DevFile,
      (if file.cacheStatus = .dirty then
        handleAccess.wrBlock dev (blockLoc (file.block file.cachedBlock)) file.cache else dev) = middle ∧
      middle.disk = (if file.cacheStatus = .dirty then
        blit dev.disk (blockLoc (file.block file.cachedBlock)) BYTES_PER_BLOCK file.cache
        else dev.disk) ∧ DeviceOk m middle ∧ middle.handle.finish = dev.handle.finish := by
    by_cases hdirty : file.cacheStatus = .dirty
    · have hinside := hok.inside (by rw [hdirty]; decide)
      have hle := hdev.block_le hgeometry (hok.block_data hinside)
      rw [if_pos hdirty, if_pos hdirty]
      obtain ⟨hdisk, hnext, hfinish⟩ := hdev.wrAt (Nat.le_of_add_right_le hle) BYTES_PER_BLOCK
        file.cache
      exact ⟨_, rfl, hdisk, hnext, hfinish⟩
    · rw [if_neg hdirty, if_neg hdirty]
      exact ⟨dev, rfl, rfl, hdev, rfl⟩
  have hle := hmiddleOk.block_le hgeometry (hok.block_data hblock)
  obtain ⟨hbytes, hkept, hlast⟩ := hmiddleOk.rdAt (Nat.le_of_add_right_le hle) BYTES_PER_BLOCK
  unfold fetch
  rw [hmiddle]
  refine ⟨?_, ?_, hlast⟩
  · show (middle.rdAt _ BYTES_PER_BLOCK).2.disk = _
    rw [hkept, hdisk]
    rfl
  · show CachedFile.mk _ _ _ (middle.rdAt _ BYTES_PER_BLOCK).1 _ _ = _
    rw [hbytes, hdisk]
    rfl

theorem readByte_sim (hgeometry : Geometry m) (hdev : DeviceOk m dev)
    (hok : FileOk m dev.disk file chain) (hblock : loc / BYTES_PER_BLOCK < chain.length) :
    (readByte handleAccess dev file loc).1 = (readByte blockAccess dev.disk file loc).1 ∧
      Sims m (readByte handleAccess dev file loc).2 (readByte blockAccess dev.disk file loc).2 := by
  unfold readByte
  by_cases hcached : cached file (loc / BYTES_PER_BLOCK) = true
  · rw [if_pos hcached, if_pos hcached]
    exact ⟨rfl, rfl, rfl, hdev⟩
  · rw [if_neg hcached, if_neg hcached]
    have hsim := fetch_sim hgeometry hdev hok hblock .ready
    refine ⟨?_, hsim⟩
    dsimp only
    rw [hsim.file]

theorem putByte_sim (hgeometry : Geometry m) (hdev : DeviceOk m dev)
    (hok : FileOk m dev.disk file chain) (hblock : loc / BYTES_PER_BLOCK < chain.length)
    (val : UInt8) :
    Sims m (putByte handleAccess dev file val loc) (putByte blockAccess dev.disk file val loc) := by
  unfold putByte
  dsimp only
  by_cases hcached : cached file (loc / BYTES_PER_BLOCK) = true
  · rw [if_pos hcached, if_pos hcached]
    exact ⟨rfl, rfl, hdev⟩
  · rw [if_neg hcached, if_neg hcached]
    have hsim := fetch_sim hgeometry hdev hok hblock .dirty
    refine ⟨hsim.disk, ?_, hsim.device⟩
    dsimp only
    rw [hsim.file]

theorem freeBlock_sim (hgeometry : Geometry m) (hdev : DeviceOk m dev) {fuel start : Nat}
    (hfound : freeBlockFrom blockAccess m fuel dev.disk start = some (tBlock, dev.disk))
    (hblock : tBlock < m.blocks) :
    ∃ after, freeBlockFrom handleAccess m fuel dev start = some (tBlock, after) ∧
      after.disk = dev.disk ∧ DeviceOk m after := by
  induction fuel generalizing dev start with
  | zero => cases hfound
  | succ fuel ih =>
      have hle := (freeBlock_spec hfound).2.2.1
      have hinside := hdev.fat_le hgeometry (Nat.lt_of_le_of_lt hle hblock)
      obtain ⟨hvalue, hdisk, hnext⟩ := rdQword_sim hdev hinside
      rw [freeBlockFrom_succ] at hfound
      unfold freeBlockFrom
      dsimp only
      rw [hvalue]
      by_cases hzero : fat dev.disk m start = 0
      · rw [if_pos hzero] at hfound
        rw [if_pos (show rdQword dev.disk (fatLoc m start) = 0 from hzero)]
        have hsame : start = tBlock := (Prod.mk.inj (Option.some.inj hfound)).1
        exact ⟨_, by rw [hsame], hdisk, hnext⟩
      · rw [if_neg hzero] at hfound
        rw [if_neg (show ¬ rdQword dev.disk (fatLoc m start) = 0 from hzero)]
        rw [← hdisk] at hfound
        obtain ⟨after, hafter, hafterDisk, hafterOk⟩ := ih hnext hfound
        exact ⟨after, hafter, hafterDisk.trans hdisk, hafterOk⟩

theorem link_sim (hgeometry : Geometry m) (hdev : DeviceOk m dev) {i : Nat}
    (hlast : i ≠ 0 → file.block (i - 1) < m.blocks) :
    Sims m (link handleAccess m dev file i tBlock) (link blockAccess m dev.disk file i tBlock) := by
  unfold link
  by_cases hfirst : i = 0
  · rw [if_pos hfirst, if_pos hfirst]
    exact ⟨rfl, rfl, hdev⟩
  · rw [if_neg hfirst, if_neg hfirst]
    obtain ⟨hdisk, hnext⟩ := wrQword_sim hdev (hdev.fat_le hgeometry (hlast hfirst)) tBlock
    exact ⟨hdisk, rfl, hnext⟩

theorem grow_one_sim (hgeometry : Geometry m) (hdev : DeviceOk m dev)
    (hok : FileOk m dev.disk file chain) (hblock : DataBlock m tBlock)
    (hfound : freeBlockFrom blockAccess m FAT_LOOP dev.disk 0 = some (tBlock, dev.disk))
    {after : Store × CachedFile}
    (hafter : grow blockAccess m dev.disk file chain.length (chain.length + 1) = some after) :
    ∃ result, grow handleAccess m dev file chain.length (chain.length + 1) = some result ∧
      Sims m result after := by
  have hend := hblock.ne_end hgeometry
  obtain ⟨found, hfoundDev, hfoundDisk, hfoundOk⟩ := freeBlock_sim hgeometry hdev hfound hblock.2
  have hlast : chain.length ≠ 0 → CachedFile.block { file with allocMap := chain ++ [tBlock] }
      (chain.length - 1) < m.blocks := by
    intro hne
    rw [CachedFile.block, List.getD_append _ _ _ _ (by omega), List.getD_eq_getElem _ _ (by omega)]
    exact (hok.data _ (List.getElem_mem _)).2
  have hlinked : Sims m (link handleAccess m found { file with allocMap := chain ++ [tBlock] }
      chain.length tBlock) _ := link_sim hgeometry hfoundOk hlast
  rw [hfoundDisk] at hlinked
  rw [grow_one_eq blockAccess hok.allocMap hend hfound rfl] at hafter
  rw [grow_one_eq handleAccess hok.allocMap hend hfoundDev rfl]
  generalize link handleAccess m found { file with allocMap := chain ++ [tBlock] } chain.length
    tBlock = linked at *
  generalize link blockAccess m dev.disk { file with allocMap := chain ++ [tBlock] } chain.length
    tBlock = store at *
  obtain ⟨hdisk, hfile, hlinkedOk⟩ := hlinked
  obtain ⟨hfat, hfatOk⟩ := wrQword_sim hlinkedOk (hlinkedOk.fat_le hgeometry hblock.2) END_OF_CHAIN
  obtain ⟨hzero, hzeroOk, -⟩ := hfatOk.zeroBytes (hfatOk.block_le hgeometry hblock)
  rw [hfat, hdisk] at hzero
  refine ⟨_, rfl, ?_⟩
  rw [← Option.some.inj hafter, zeroBlock_eq]
  generalize (handleAccess.wrQword linked.1 (fatLoc m tBlock) END_OF_CHAIN).zeroBytes
    (blockLoc tBlock) BYTES_PER_BLOCK = last at *
  exact ⟨hzero, by rw [hfile], hzeroOk⟩

end EchidnaOS.Echfs
