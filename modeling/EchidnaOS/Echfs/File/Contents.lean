import EchidnaOS.Echfs.File
import EchidnaOS.Echfs.Directory.Table
import Mathlib.Data.List.GetD
import Mathlib.Data.List.Nodup
import Mathlib.Data.List.Perm.Subperm

namespace EchidnaOS.Echfs

open EchidnaOS.Lib.ByteStore

variable {disk : Store} {m : Mount} {file : CachedFile} {chain : List Nat} {loc pos block : Nat}
  {wrTarget : Store → PathResult → Store}

-- The areas of an image follow each other, and the device has at most 2 ^ 64 bytes.
structure Geometry (m : Mount) : Prop where
  fat_fits : m.fatstart * BYTES_PER_BLOCK + m.blocks * 8 ≤ m.dirstart * BYTES_PER_BLOCK
  directory_fits : m.dirstart + m.dirsize ≤ m.datastart
  data_pos : 0 < m.datastart
  data_le : m.datastart ≤ m.blocks
  device_le : m.blocks * BYTES_PER_BLOCK ≤ 2 ^ 64

def DataBlock (m : Mount) (block : Nat) : Prop := m.datastart ≤ block ∧ block < m.blocks

-- The record of a file whose blocks are `chain`: a clean cache is a copy of its block.
structure FileOk (m : Mount) (disk : Store) (file : CachedFile) (chain : List Nat) : Prop where
  allocMap : file.allocMap = chain ++ [END_OF_CHAIN]
  nodup : chain.Nodup
  data : ∀ block ∈ chain, DataBlock m block
  inside : file.cacheStatus ≠ .notReady → file.cachedBlock < chain.length
  clean : file.cacheStatus = .ready → ∀ offset, offset < BYTES_PER_BLOCK →
    file.cache offset = disk (blockLoc (file.block file.cachedBlock) + offset)

-- The byte of the file at a position, in the cache or on disk.
def contents (disk : Store) (file : CachedFile) (pos : Nat) : UInt8 :=
  if cached file (pos / BYTES_PER_BLOCK) then file.cache (pos % BYTES_PER_BLOCK)
  else disk (blockLoc (file.block (pos / BYTES_PER_BLOCK)) + pos % BYTES_PER_BLOCK)

-- Two disks that differ in the data of some blocks only.
def SameOutside (blocks : List Nat) (disk next : Store) : Prop :=
  ∀ address, (∀ block ∈ blocks,
    address < blockLoc block ∨ blockLoc block + BYTES_PER_BLOCK ≤ address) →
    next address = disk address

theorem SameOutside.refl (blocks : List Nat) (disk : Store) : SameOutside blocks disk disk :=
  fun _ _ => rfl

theorem cached_iff : cached file block = true ↔
    file.cacheStatus ≠ .notReady ∧ file.cachedBlock = block := by
  unfold cached
  rw [decide_eq_true_eq]

theorem mod_block_lt (pos : Nat) : pos % BYTES_PER_BLOCK < BYTES_PER_BLOCK :=
  Nat.mod_lt pos (by decide)

theorem DataBlock.loc_eq (hgeometry : Geometry m) (hdata : DataBlock m block) :
    blockLoc block = block * BYTES_PER_BLOCK := by
  have hdevice := hgeometry.device_le
  have hlt := hdata.2
  unfold blockLoc
  apply Nat.mod_eq_of_lt
  simp only [BYTES_PER_BLOCK] at *
  omega

theorem DataBlock.ne_end (hgeometry : Geometry m) (hdata : DataBlock m block) :
    block ≠ END_OF_CHAIN := by
  have hdevice := hgeometry.device_le
  have hlt := hdata.2
  simp only [BYTES_PER_BLOCK, END_OF_CHAIN] at hdevice ⊢
  omega

-- Distinct data blocks do not overlap.
theorem DataBlock.apart (hgeometry : Geometry m) {other : Nat} (hdata : DataBlock m block)
    (hother : DataBlock m other) (hne : block ≠ other) :
    blockLoc block + BYTES_PER_BLOCK ≤ blockLoc other ∨
      blockLoc other + BYTES_PER_BLOCK ≤ blockLoc block := by
  rw [hdata.loc_eq hgeometry, hother.loc_eq hgeometry]
  simp only [BYTES_PER_BLOCK]
  omega

theorem blit_other_block (hgeometry : Geometry m) {other : Nat} (hdata : DataBlock m block)
    (hother : DataBlock m other) (hne : block ≠ other) (source : Store) {offset : Nat}
    (hoffset : offset < BYTES_PER_BLOCK) :
    blit disk (blockLoc block) BYTES_PER_BLOCK source (blockLoc other + offset) =
      disk (blockLoc other + offset) := by
  have hapart := hdata.apart hgeometry hother hne
  exact blit_outside disk _ _ source _ (by omega)

theorem le_blockCount_mul (size : Nat) : size ≤ blockCount size * BYTES_PER_BLOCK := by
  unfold blockCount
  split <;> simp only [BYTES_PER_BLOCK] at * <;> omega

theorem blockCount_mono {first second : Nat} (hle : first ≤ second) :
    blockCount first ≤ blockCount second := by
  unfold blockCount
  split <;> split <;> simp only [BYTES_PER_BLOCK] at * <;> omega

theorem blockCount_max (first second : Nat) :
    blockCount (max first second) = max (blockCount first) (blockCount second) := by
  rcases Nat.le_total first second with hle | hle
  · rw [Nat.max_eq_right hle, Nat.max_eq_right (blockCount_mono hle)]
  · rw [Nat.max_eq_left hle, Nat.max_eq_left (blockCount_mono hle)]

-- The block of a position below the size.
theorem div_lt_blockCount {size : Nat} (hpos : pos < size) :
    pos / BYTES_PER_BLOCK < blockCount size := by
  unfold blockCount
  split <;> simp only [BYTES_PER_BLOCK] at * <;> omega

theorem chain_length_le (hdata : ∀ block ∈ chain, DataBlock m block) (hnodup : chain.Nodup) :
    chain.length ≤ m.blocks := by
  have hsubset : chain ⊆ List.range m.blocks :=
    fun block hmem => List.mem_range.mpr (hdata block hmem).2
  have hle := (List.subperm_of_subset hnodup hsubset).length_le
  rwa [List.length_range] at hle

namespace FileOk

theorem block_eq (hok : FileOk m disk file chain) {index : Nat} (hindex : index < chain.length) :
    file.block index = chain[index] := by
  unfold CachedFile.block
  rw [hok.allocMap, List.getD_append _ _ _ _ hindex, List.getD_eq_getElem _ _ hindex]

theorem block_mem (hok : FileOk m disk file chain) {index : Nat} (hindex : index < chain.length) :
    file.block index ∈ chain := by
  rw [hok.block_eq hindex]
  exact List.getElem_mem hindex

theorem block_data (hok : FileOk m disk file chain) {index : Nat} (hindex : index < chain.length) :
    DataBlock m (file.block index) :=
  hok.data _ (hok.block_mem hindex)

theorem block_ne (hok : FileOk m disk file chain) {index other : Nat} (hindex : index < chain.length)
    (hother : other < chain.length) (hne : index ≠ other) : file.block index ≠ file.block other := by
  rw [hok.block_eq hindex, hok.block_eq hother]
  intro heq
  exact hne ((List.Nodup.getElem_inj_iff hok.nodup).mp heq)

-- A change of the disk outside the blocks of the file.
theorem of_disk (hok : FileOk m disk file chain) {next : Store}
    (hsame : ∀ block ∈ chain, ∀ offset, offset < BYTES_PER_BLOCK →
      next (blockLoc block + offset) = disk (blockLoc block + offset)) :
    FileOk m next file chain where
  allocMap := hok.allocMap
  nodup := hok.nodup
  data := hok.data
  inside := hok.inside
  clean hready offset hoffset := by
    have hinside := hok.inside (by rw [hready]; decide)
    rw [hsame _ (hok.block_mem hinside) offset hoffset]
    exact hok.clean hready offset hoffset

theorem contents_of_disk (hok : FileOk m disk file chain) {next : Store}
    (hsame : ∀ block ∈ chain, ∀ offset, offset < BYTES_PER_BLOCK →
      next (blockLoc block + offset) = disk (blockLoc block + offset))
    (hpos : pos / BYTES_PER_BLOCK < chain.length) : contents next file pos = contents disk file pos := by
  unfold contents
  rw [hsame _ (hok.block_mem hpos) _ (mod_block_lt pos)]

end FileOk

-- The bytes of a file with nothing cached.
def onDisk (disk : Store) (file : CachedFile) (pos : Nat) : UInt8 :=
  disk (blockLoc (file.block (pos / BYTES_PER_BLOCK)) + pos % BYTES_PER_BLOCK)

-- Writing the cache back brings the disk up to date.
theorem FileOk.writeBack (hgeometry : Geometry m) (hok : FileOk m disk file chain) {next : Store}
    (hnext : next = if file.cacheStatus = .dirty then
      blit disk (blockLoc (file.block file.cachedBlock)) BYTES_PER_BLOCK file.cache else disk) :
    SameOutside chain disk next ∧
      ∀ pos, pos / BYTES_PER_BLOCK < chain.length → onDisk next file pos = contents disk file pos := by
  by_cases hdirty : file.cacheStatus = .dirty
  · rw [if_pos hdirty] at hnext
    have hready : file.cacheStatus ≠ .notReady := by rw [hdirty]; decide
    have hinside := hok.inside hready
    constructor
    · intro address hout
      rw [hnext]
      exact blit_outside disk _ _ _ _ (hout _ (hok.block_mem hinside))
    · intro pos hpos
      unfold onDisk contents
      by_cases hblock : file.cachedBlock = pos / BYTES_PER_BLOCK
      · rw [if_pos (cached_iff.mpr ⟨hready, hblock⟩), hnext, ← hblock]
        exact blit_inside disk _ _ _ _ (mod_block_lt pos)
      · rw [if_neg (fun h => hblock (cached_iff.mp h).2), hnext]
        exact blit_other_block hgeometry (hok.block_data hinside) (hok.block_data hpos)
          (hok.block_ne hinside hpos hblock) file.cache (mod_block_lt pos)
  · rw [if_neg hdirty] at hnext
    rw [hnext]
    refine ⟨SameOutside.refl chain disk, fun pos hpos => ?_⟩
    unfold onDisk contents
    by_cases hcached : cached file (pos / BYTES_PER_BLOCK) = true
    · obtain ⟨hstatus, hblock⟩ := cached_iff.mp hcached
      have hready : file.cacheStatus = .ready := by
        cases hcase : file.cacheStatus with
        | notReady => exact absurd hcase hstatus
        | ready => rfl
        | dirty => exact absurd hcase hdirty
      rw [if_pos hcached, hok.clean hready _ (mod_block_lt pos), hblock]
    · rw [if_neg hcached]

-- A step that may move bytes between cache and disk but changes no byte of the file.
structure Keeps (m : Mount) (chain : List Nat) (before after : Store × CachedFile) : Prop where
  ok : FileOk m after.1 after.2 chain
  same : SameOutside chain before.1 after.1
  bytes : ∀ pos, pos / BYTES_PER_BLOCK < chain.length →
    contents after.1 after.2 pos = contents before.1 before.2 pos
  pathResult : after.2.pathResult = before.2.pathResult
  path : after.2.path = before.2.path

theorem Keeps.refl (hok : FileOk m disk file chain) : Keeps m chain (disk, file) (disk, file) :=
  ⟨hok, SameOutside.refl chain disk, fun _ _ => rfl, rfl, rfl⟩

theorem fetch_keeps (hgeometry : Geometry m) (hok : FileOk m disk file chain)
    (hblock : block < chain.length) (status : CacheStatus) :
    Keeps m chain (disk, file) (fetch (storeAccess wrTarget) disk file block status) := by
  obtain ⟨hsame, hdisk⟩ := hok.writeBack hgeometry rfl
  refine ⟨⟨hok.allocMap, hok.nodup, hok.data, fun _ => hblock, fun _ _ _ => rfl⟩, hsame, ?_,
    rfl, rfl⟩
  intro pos hpos
  show _ = contents disk file pos
  rw [← hdisk pos hpos]
  unfold contents onDisk
  by_cases hcached : cached (fetch (storeAccess wrTarget) disk file block status).2 (pos / BYTES_PER_BLOCK) =
      true
  · rw [if_pos hcached, ← (cached_iff.mp hcached).2]
    rfl
  · rw [if_neg hcached]
    rfl

theorem fetch_cached (status : CacheStatus) (hstatus : status ≠ .notReady) :
    cached (fetch (storeAccess wrTarget) disk file block status).2 block = true :=
  cached_iff.mpr ⟨hstatus, rfl⟩

-- Reading gives the byte of the file and changes no byte of it.
theorem readByte_spec (hgeometry : Geometry m) (hok : FileOk m disk file chain)
    (hloc : loc / BYTES_PER_BLOCK < chain.length) :
    (readByte (storeAccess wrTarget) disk file loc).1 = contents disk file loc ∧
      Keeps m chain (disk, file) (readByte (storeAccess wrTarget) disk file loc).2 := by
  unfold readByte
  by_cases hcached : cached file (loc / BYTES_PER_BLOCK) = true
  · rw [if_pos hcached]
    refine ⟨?_, Keeps.refl hok⟩
    rw [contents, if_pos hcached]
  · rw [if_neg hcached]
    have hkeeps : Keeps m chain (disk, file)
        (fetch (storeAccess wrTarget) disk file (loc / BYTES_PER_BLOCK) .ready) :=
      fetch_keeps hgeometry hok hloc .ready
    refine ⟨?_, hkeeps⟩
    have hbyte := hkeeps.bytes loc hloc
    rw [contents, if_pos (fetch_cached .ready (by decide))] at hbyte
    exact hbyte

theorem put_contents (hcached : cached file (loc / BYTES_PER_BLOCK) = true) (val : UInt8) :
    contents disk (file.put (loc % BYTES_PER_BLOCK) val) pos =
      if pos = loc then val else contents disk file pos := by
  obtain ⟨hstatus, hblock⟩ := cached_iff.mp hcached
  have hput : cached (file.put (loc % BYTES_PER_BLOCK) val) (pos / BYTES_PER_BLOCK) =
      cached file (pos / BYTES_PER_BLOCK) := by
    simp [cached, CachedFile.put, hstatus]
  unfold contents
  rw [hput]
  by_cases hsame : cached file (pos / BYTES_PER_BLOCK) = true
  · rw [if_pos hsame, if_pos hsame]
    have hdiv : pos / BYTES_PER_BLOCK = loc / BYTES_PER_BLOCK :=
      (cached_iff.mp hsame).2.symm.trans hblock
    by_cases hpos : pos = loc
    · rw [if_pos hpos, hpos]
      exact Function.update_self _ _ _
    · rw [if_neg hpos]
      apply Function.update_of_ne
      intro hmod
      apply hpos
      rw [← Nat.div_add_mod pos BYTES_PER_BLOCK, ← Nat.div_add_mod loc BYTES_PER_BLOCK, hmod, hdiv]
  · rw [if_neg hsame, if_neg hsame, if_neg]
    · rfl
    · intro hpos
      exact hsame (hpos ▸ hcached)

-- Writing a byte of an allocated block changes that byte of the file alone.
theorem putByte_spec (hgeometry : Geometry m) (hok : FileOk m disk file chain)
    (hloc : loc / BYTES_PER_BLOCK < chain.length) (val : UInt8) {after : Store × CachedFile}
    (hafter : putByte (storeAccess wrTarget) disk file val loc = after) :
    FileOk m after.1 after.2 chain ∧ SameOutside chain disk after.1 ∧
      after.2.pathResult = file.pathResult ∧ after.2.path = file.path ∧
      ∀ pos, pos / BYTES_PER_BLOCK < chain.length →
        contents after.1 after.2 pos = if pos = loc then val else contents disk file pos := by
  obtain ⟨fetched, hkeeps, hcached, hput⟩ : ∃ fetched : Store × CachedFile,
      Keeps m chain (disk, file) fetched ∧ cached fetched.2 (loc / BYTES_PER_BLOCK) = true ∧
      after = (fetched.1, fetched.2.put (loc % BYTES_PER_BLOCK) val) := by
    rw [← hafter, putByte]
    by_cases hcached : cached file (loc / BYTES_PER_BLOCK) = true
    · rw [if_pos hcached]
      exact ⟨_, Keeps.refl hok, hcached, rfl⟩
    · rw [if_neg hcached]
      exact ⟨_, fetch_keeps hgeometry hok hloc .dirty, fetch_cached .dirty (by decide), rfl⟩
  have hblock := (cached_iff.mp hcached).2
  rw [hput]
  refine ⟨⟨hkeeps.ok.allocMap, hkeeps.ok.nodup, hkeeps.ok.data, fun _ => ?_, fun h => nomatch h⟩,
    hkeeps.same, hkeeps.pathResult, hkeeps.path, ?_⟩
  · show fetched.2.cachedBlock < chain.length
    rw [hblock]
    exact hloc
  · intro pos hpos
    have hbyte := hkeeps.bytes pos hpos
    rw [put_contents hcached val, hbyte]

end EchidnaOS.Echfs
