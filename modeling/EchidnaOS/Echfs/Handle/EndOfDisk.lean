import EchidnaOS.Echfs.Driver.Image
import EchidnaOS.Echfs.File.Taken

namespace EchidnaOS.Echfs

open EchidnaOS.Lib.ByteStore EchidnaOS.Devfs

-- echfs_uwritebyte with what it returns, which is 0 whatever happens.
def echfsUwritebyte (m : Mount) (dev : DevFile) (file : CachedFile) (val : UInt8) (curLoc : Nat) :
    Option (Int × DevFile × CachedFile) :=
  (writeByte handleAccess m dev file val curLoc).map fun next => (0, next)

-- The blocks a file has been given, which are also those that are linked, were free blocks of the
-- image.
def TakesFree (m : Mount) (before : Store) (old new : Nat) (file : CachedFile) : Prop :=
  ∀ j, old ≤ j → j < new → file.block j < m.blocks ∧ fat before m (file.block j) = 0

-- The allocation table and the directory are as they were.
structure SameTables (m : Mount) (disk next : Store) : Prop where
  fat : ∀ block, block < m.blocks → fat next m block = fat disk m block
  directory : ∀ index, index < capacity m → rdEntry next m index = rdEntry disk m index

-- A write by path that takes free blocks of the image, and is turned down when there are too few.
structure PathKeepsToDisk (v : Volume) (m : Mount) (path : Path) (size : Nat) (val : UInt8) (loc : Nat) :
    Prop where
  takes : ∀ code next file, echfsWrite v m path val loc = some (code, next) →
    next.record path = some file → TakesFree m v.disk (blockCount size) (blockCount (loc + 1)) file
  refuses : freeBlocks m v.disk < blockCount (loc + 1) - blockCount size →
    ∃ next, echfsWrite v m path val loc = some (FAILURE, next) ∧ SameTables m v.disk next.disk ∧
      ∀ other pos, fileByte next m other pos = fileByte v m other pos

-- The same for a byte that is written through a handle.
structure HandleKeepsToDisk (m : Mount) (dev : DevFile) (file : CachedFile) (val : UInt8) (loc : Nat) :
    Prop where
  takes : ∀ code next, echfsUwritebyte m dev file val loc = some (code, next) →
    TakesFree m dev.disk (blockCount file.size) (blockCount (loc + 1)) next.2
  refuses : freeBlocks m dev.disk < blockCount (loc + 1) - blockCount file.size →
    ∃ next, echfsUwritebyte m dev file val loc = some (-1, next) ∧ SameTables m dev.disk next.1.disk ∧
      (∀ pos, contents next.1.disk next.2 pos = contents dev.disk file pos) ∧
      ∀ block, DataBlock m block → block ∉ file.allocMap → ∀ offset, offset < BYTES_PER_BLOCK →
        next.1.disk (blockLoc block + offset) = dev.disk (blockLoc block + offset)

-- A device handle by which the first `limit` entries of the allocation table can be reached; the
-- offset of a seek is an `int`.
structure ReachesFat (m : Mount) (dev : DevFile) (limit : Nat) : Prop where
  inUse : dev.handle.free = false
  seekable : dev.handle.isblock = false
  begin_eq : dev.handle.begin = 0
  holds : m.fatstart * BYTES_PER_BLOCK + limit * 8 ≤ dev.handle.finish
  small : m.fatstart * BYTES_PER_BLOCK + limit * 8 ≤ 2 ^ 31

-- `count` free entries and that of the last block of the file lie where the handle reaches.
structure ReachesFree (m : Mount) (dev : DevFile) (file : CachedFile) (count limit : Nat) : Prop where
  limit_le : limit ≤ m.blocks
  reaches : ReachesFat m dev limit
  last : blockCount file.size ≠ 0 → file.block (blockCount file.size - 1) < limit
  free : count ≤ zeros limit (fat dev.disk m)

variable {v : Volume} {m : Mount} {entries : List Entry} {chains : Nat → List Nat} {path : Path}
  {index block limit loc : Nat} {dev : DevFile} {file : CachedFile} {disk : Store}

theorem byteAccess_fatAccess (hgeometry : Geometry m) :
    FatAccess (byteAccess m) m m.blocks (fun _ => True) fun disk => fat disk m := by
  refine ⟨?_, ?_, ?_⟩
  · intro disk block _ _
    exact ⟨rfl, trivial, fun _ => rfl⟩
  · intro disk block x _ hblock hx
    exact ⟨trivial, fun other hother => fat_wrQword hgeometry hother hblock hx⟩
  · intro disk result _ hresult
    have hkeeps := @wrTargetEntry_keeps m hgeometry { path := pathA, pathResult := result, allocMap := [] }
      hresult.1 hresult.2
    have hsame := hkeeps disk result rfl rfl
    exact ⟨trivial, fun other hother =>
      fat_congr hgeometry hother fun address hlow => hsame address (Or.inl hlow)⟩

theorem ReachesFat.seek (hreaches : ReachesFat m dev limit) (hgeometry : Geometry m)
    (hlimit : limit ≤ m.blocks) (hblock : block < limit) :
    (dev.seek (fatLoc m block)).handle = { dev.handle with ptr := fatLoc m block } ∧
      (dev.seek (fatLoc m block)).handle.loc = fatLoc m block := by
  have hloc := (fatLoc_eq hgeometry (Nat.lt_of_lt_of_le hblock hlimit)).1
  have hholds := hreaches.holds
  have hsmall := hreaches.small
  have hhandle := seek_small hreaches.inUse hreaches.seekable hreaches.begin_eq
    (show fatLoc m block ≤ dev.handle.finish by omega) (by omega)
  exact ⟨hhandle, loc_of_ptr (by rw [hhandle]) (by omega)⟩

theorem ReachesFat.move (hreaches : ReachesFat m dev limit) (disk : Store) (ptr : Nat) :
    ReachesFat m { disk := disk, handle := { dev.handle with ptr := ptr } } limit :=
  ⟨hreaches.inUse, hreaches.seekable, hreaches.begin_eq, hreaches.holds, hreaches.small⟩

theorem handleAccess_fatAccess (hgeometry : Geometry m) (hlimit : limit ≤ m.blocks) :
    FatAccess handleAccess m limit (ReachesFat m · limit) fun dev => fat dev.disk m := by
  refine ⟨?_, ?_, ?_⟩
  · intro dev block hreaches hblock
    obtain ⟨hhandle, hloc⟩ := hreaches.seek hgeometry hlimit hblock
    have hbytes : (dev.rdAt (fatLoc m block) 8).1 = fun offset => dev.disk (fatLoc m block + offset) := by
      unfold DevFile.rdAt devfsUread
      dsimp only
      rw [hloc]
      rfl
    refine ⟨?_, ?_, fun _ => rfl⟩
    · show leValue (read (dev.rdAt (fatLoc m block) 8).1 0 8) = leValue (read dev.disk (fatLoc m block) 8)
      rw [hbytes]
      simp only [EchidnaOS.Lib.ByteStore.read, Nat.zero_add]
    · show ReachesFat m { disk := dev.disk, handle := (dev.seek (fatLoc m block)).handle.advance 8 } limit
      rw [hhandle]
      exact hreaches.move _ _
  · intro dev block x hreaches hblock hx
    obtain ⟨hhandle, hloc⟩ := hreaches.seek hgeometry hlimit hblock
    have hdisk : (handleAccess.wrQword dev (fatLoc m block) x).disk = wrQword dev.disk (fatLoc m block) x := by
      show (dev.wrAt (fatLoc m block) 8 (bytesAt (leBytes 8 x))).disk = _
      unfold DevFile.wrAt devfsUwrite
      dsimp only
      rw [hloc]
      rfl
    refine ⟨?_, fun other hother => ?_⟩
    · show ReachesFat m { disk := _, handle := (dev.seek (fatLoc m block)).handle.advance 8 } limit
      rw [hhandle]
      exact hreaches.move _ _
    · rw [hdisk]
      exact fat_wrQword hgeometry (Nat.lt_of_lt_of_le hother hlimit) (Nat.lt_of_lt_of_le hblock hlimit) hx
  · intro dev result hreaches _
    exact ⟨hreaches, fun _ _ => rfl⟩

theorem Geometry.blocks_lt (hgeometry : Geometry m) : m.blocks < 2 ^ 64 := by
  have hdevice := hgeometry.device_le
  simp only [BYTES_PER_BLOCK] at hdevice
  omega

-- The record of a file of a well-formed image.
theorem RecordOk.recorded (hfile : Existing m v entries chains path index)
    (hrecord : RecordOk m v.disk entries chains index file) : Recorded m file := by
  have hindex := hfile.index_lt
  have hroom := hfile.image.table.room
  have hfits := hfile.image.table.fits _ (List.getElem_mem hindex)
  have hchain := hfile.image.files index hindex hfile.isFile
  have hentry := hrecord.entry_eq hindex
  rw [hentry] at hfits hchain
  refine ⟨⟨?_, hfits.name_lt⟩, ?_, ?_⟩
  · rw [hrecord.targetEntry]
    omega
  · rw [hrecord.ok.allocMap, List.length_append, ← hchain.length]
    exact Nat.le_add_right _ _
  · intro j hj
    rw [← hchain.length] at hj
    exact (hrecord.ok.block_data hj).2

theorem Recorded.last_lt (hrecorded : Recorded m file) (hsize : blockCount file.size ≠ 0) :
    file.block (blockCount file.size - 1) < m.blocks :=
  hrecorded.blocks _ (Nat.sub_lt (Nat.pos_of_ne_zero hsize) Nat.one_pos)

-- A handle that reaches the whole table reaches what is free in it.
theorem ReachesFat.reachesFree (hreaches : ReachesFat m dev m.blocks) (hrecorded : Recorded m file)
    {count : Nat} (hspace : count ≤ freeBlocks m dev.disk) :
    ReachesFree m dev file count m.blocks :=
  ⟨Nat.le_refl _, hreaches, hrecorded.last_lt, hspace⟩

-- The record of a path is the one in its slot.
theorem record_eq {slot : Nat} {record : CachedFile} (hfound : findCached v.cachedFiles path = some slot)
    (hslot : v.cachedFiles[slot]? = some file) (hrecord : v.record path = some record) : record = file := by
  obtain ⟨other, hother, hget⟩ := Volume.record_slot hrecord
  obtain rfl : other = slot := Option.some.inj (hother.symm.trans hfound)
  exact Option.some.inj (hget.symm.trans hslot)

theorem pathKeepsToDisk_iff (hfile : Existing m v entries chains path index) {size : Nat}
    (hsize : (entries[index]?).map (·.size) = some size) (val : UInt8) :
    PathKeepsToDisk v m path size val loc ↔
      blockCount (loc + 1) - blockCount size ≤ freeBlocks m v.disk := by
  obtain ⟨slot, file, volume, hcache, hdisk, hrecord, hpath, hslot, hfound⟩ := hfile.cacheFile
  have hgeometry := hfile.image.geometry
  have hentry := hrecord.entry_eq hfile.index_lt
  have hchain := hfile.image.files index hfile.index_lt hfile.isFile
  have hsize : file.pathResult.target.size = size := by
    rw [List.getElem?_eq_getElem hfile.index_lt, Option.map_some, hentry] at hsize
    exact Option.some.inj hsize
  have hlength : (chains index).length = blockCount size := by
    rw [hchain.length, hentry, hsize]
  have hwrite : echfsWrite v m path val loc =
      (writeByte (byteAccess m) m v.disk file val loc).map fun next =>
        (SUCCESS, volume.update slot next) := by
    rw [echfsWrite, hcache, Option.bind_some]
    dsimp only
    rw [hrecord.found, if_neg Bool.false_ne_true, hdisk]
  constructor
  · intro hkeeps
    by_contra hfew
    obtain ⟨next, hrun, -⟩ := hkeeps.refuses (by omega)
    rw [hwrite] at hrun
    obtain ⟨after, -, hpair⟩ := Option.map_eq_some_iff.mp hrun
    have hcode : SUCCESS = FAILURE := congrArg Prod.fst hpair
    exact absurd hcode (by decide)
  · intro hspace
    refine ⟨?_, fun hfew => absurd hfew (by omega)⟩
    intro code next record hrun hnext
    rw [hwrite] at hrun
    obtain ⟨after, hafter, hpair⟩ := Option.map_eq_some_iff.mp hrun
    obtain rfl : volume.update slot after = next := congrArg Prod.snd hpair
    obtain ⟨hcached, hget⟩ := findCached_set hfound ((writeByte_path _ hafter).trans hpath)
    rw [record_eq hcached hget hnext]
    have hzero : fat v.disk m 0 ≠ 0 := hfile.image.reserved 0 hgeometry.data_pos
    have htakes := writeByte_takes (byteAccess_fatAccess hgeometry) hgeometry.blocks_lt trivial
      (hrecord.recorded hfile) hzero (hrecord.recorded hfile).last_lt (hfile.loc_lt (by omega))
      (by rw [hsize]; exact hspace) hafter
    rw [hsize] at htakes
    exact htakes

theorem handleKeepsToDisk_needs {val : UInt8} (hkeeps : HandleKeepsToDisk m dev file val loc) :
    blockCount (loc + 1) - blockCount file.size ≤ freeBlocks m dev.disk := by
  by_contra hfew
  obtain ⟨next, hrun, -⟩ := hkeeps.refuses (by omega)
  obtain ⟨after, -, hpair⟩ := Option.map_eq_some_iff.mp hrun
  have hcode : (0 : Int) = -1 := congrArg Prod.fst hpair
  exact absurd hcode (by decide)

theorem handleKeepsToDisk_of_reaches (hgeometry : Geometry m) (hrecorded : Recorded m file)
    (hreserved : fat dev.disk m 0 ≠ 0) (hloc : loc + 1 < 2 ^ 64)
    (hreaches : ReachesFree m dev file (blockCount (loc + 1) - blockCount file.size) limit) (val : UInt8) :
    HandleKeepsToDisk m dev file val loc := by
  have hlimit := hreaches.limit_le
  have hblocks := hgeometry.blocks_lt
  have hless : zeros limit (fat dev.disk m) ≤ freeBlocks m dev.disk :=
    (List.range_sublist.mpr hlimit).countP_le
  refine ⟨?_, fun hfew => absurd (hreaches.free.trans hless) (by omega)⟩
  intro code next hrun j hlow hhigh
  obtain ⟨after, hafter, hpair⟩ := Option.map_eq_some_iff.mp hrun
  obtain rfl : after = next := congrArg Prod.snd hpair
  obtain ⟨hblock, hfree⟩ := writeByte_takes (handleAccess_fatAccess hgeometry hlimit) (by omega)
    hreaches.reaches hrecorded hreserved hreaches.last hloc hreaches.free hafter j hlow hhigh
  exact ⟨Nat.lt_of_lt_of_le hblock hlimit, hfree⟩

-- A write that adds no block takes none and is not turned down.
theorem handleKeepsToDisk_of_inside (hinside : blockCount (loc + 1) ≤ blockCount file.size) (val : UInt8) :
    HandleKeepsToDisk m dev file val loc := by
  refine ⟨?_, fun hfew => absurd hfew (by omega)⟩
  intro code next _ j hlow hhigh
  omega

-- A write keeps to the disk exactly if the image has the free blocks it needs. Through a handle
-- those have to lie where a seek can reach their entries.
theorem block_allocation_in_image_iff (hfile : Existing m v entries chains path index) {size : Nat}
    (hsize : (entries[index]?).map (·.size) = some size) (val : UInt8) (loc : Nat) :
    (PathKeepsToDisk v m path size val loc ↔
      blockCount (loc + 1) - blockCount size ≤ freeBlocks m v.disk) ∧
    ∀ dev file curLoc, Recorded m file → fat dev.disk m 0 ≠ 0 → curLoc < 2 ^ 63 →
      (HandleKeepsToDisk m dev file val curLoc →
        blockCount (curLoc + 1) - blockCount file.size ≤ freeBlocks m dev.disk) ∧
      ((blockCount file.size < blockCount (curLoc + 1) →
          ∃ limit, ReachesFree m dev file (blockCount (curLoc + 1) - blockCount file.size) limit) →
        HandleKeepsToDisk m dev file val curLoc) := by
  refine ⟨pathKeepsToDisk_iff hfile hsize val, ?_⟩
  intro dev file curLoc hrecorded hreserved hcurLoc
  refine ⟨handleKeepsToDisk_needs, fun hadds => ?_⟩
  by_cases hgrows : blockCount file.size < blockCount (curLoc + 1)
  · obtain ⟨limit, hreaches⟩ := hadds hgrows
    exact handleKeepsToDisk_of_reaches hfile.image.geometry hrecorded hreserved (by omega) hreaches val
  · exact handleKeepsToDisk_of_inside (by omega) val

-- A handle of a device of 64 blocks, and the record of the empty file /a.
def smallDev : DevFile where
  disk := smallDisk
  handle := { free := false, finish := 64 * BYTES_PER_BLOCK }

def smallFile : CachedFile where
  path := pathA
  pathResult := { targetEntry := 0, target := emptyFile }
  allocMap := [END_OF_CHAIN]

theorem smallDev_reaches : ReachesFat smallMount smallDev smallMount.blocks :=
  ⟨rfl, rfl, rfl, by decide, by decide⟩

theorem smallFile_recorded : Recorded smallMount smallFile := by
  refine ⟨⟨by decide, by decide⟩, by decide, ?_⟩
  intro j hj
  exact absurd hj (Nat.not_lt_zero j)

-- The first byte of the empty file /a takes a free block, by path and through a handle.
theorem block_allocation_in_image_iff_first :
    PathKeepsToDisk { disk := smallDisk } smallMount pathA 0 7 0 ∧
      HandleKeepsToDisk smallMount smallDev smallFile 7 0 := by
  have hsize : ([emptyFile][0]?).map (·.size) = some 0 := rfl
  have hspace : blockCount (0 + 1) - blockCount 0 ≤ freeBlocks smallMount smallDisk := by decide +kernel
  have hdevice : smallDev.disk = smallDisk := by rw [smallDev]
  have hreserved : fat smallDev.disk smallMount 0 ≠ 0 := by decide +kernel
  obtain ⟨hpath, hhandle⟩ := block_allocation_in_image_iff smallDisk_existing hsize 7 0
  dsimp only at hpath
  refine ⟨hpath.mpr hspace, ?_⟩
  refine (hhandle smallDev smallFile 0 smallFile_recorded hreserved (by decide)).2 fun _ => ?_
  rw [← hdevice] at hspace
  exact ⟨smallMount.blocks, smallDev_reaches.reachesFree smallFile_recorded hspace⟩

-- The image of 64 blocks with the empty file /a, all of whose blocks are in use.
def usedTable : Store := fun address =>
  if smallMount.fatstart * BYTES_PER_BLOCK ≤ address ∧
      address < smallMount.fatstart * BYTES_PER_BLOCK + smallMount.blocks * 8 then 255
  else 0

def usedDisk : Store := wrEntry usedTable smallMount 0 emptyFile

theorem usedDisk_existing : Existing smallMount { disk := usedDisk } [emptyFile] (fun _ => [])
    pathA 0 := by
  have hempty : EmptyTable smallMount usedTable := by decide +kernel
  have hlength : ([] : List Nat).length = blockCount emptyFile.size := by decide
  have hwf : WellFormed smallMount usedDisk [emptyFile] fun _ => [] :=
    hempty.wellFormed smallMount_geometry emptyFile_fits (by decide) (by decide +kernel)
      ⟨fun _ h => absurd h List.not_mem_nil, rfl, List.nodup_nil, hlength⟩
  have hresolved : pathResolver usedDisk smallMount pathA FILE_TYPE =
      { targetEntry := 0, target := emptyFile, parent := { payload := ROOT_ID }, name := [97] } := by
    decide +kernel
  exact hwf.existing (by decide) (by decide) hresolved rfl rfl rfl

-- The first byte of the file goes to block 64, behind the end of the disk.
theorem full_image_overrun : Existing smallMount { disk := usedDisk } [emptyFile] (fun _ => []) pathA 0 ∧
    freeBlocks smallMount usedDisk = 0 ∧
    (∃ next, echfsWrite { disk := usedDisk } smallMount pathA 7 0 = some (SUCCESS, next) ∧
      next.cachedFiles.map (·.allocMap) = [[64, END_OF_CHAIN]]) ∧
    ¬ PathKeepsToDisk { disk := usedDisk } smallMount pathA 0 7 0 := by
  have hfree : freeBlocks smallMount usedDisk = 0 := by decide +kernel
  have hwrite : (echfsWrite { disk := usedDisk } smallMount pathA 7 0).map
      (fun result => (result.1, result.2.cachedFiles.map (·.allocMap))) =
      some (SUCCESS, [[64, END_OF_CHAIN]]) := by
    decide +kernel
  obtain ⟨⟨code, next⟩, hnext, hresult⟩ := Option.map_eq_some_iff.mp hwrite
  obtain ⟨hcode, hmaps⟩ := Prod.mk.inj hresult
  dsimp only at hcode hmaps
  rw [hcode] at hnext
  refine ⟨usedDisk_existing, hfree, ⟨next, hnext, hmaps⟩, ?_⟩
  have hsize : ([emptyFile][0]?).map (·.size) = some 0 := rfl
  intro hkeeps
  have hspace := (pathKeepsToDisk_iff usedDisk_existing hsize 7).mp hkeeps
  dsimp only at hspace
  rw [hfree] at hspace
  exact absurd hspace (by decide)

end EchidnaOS.Echfs
