import EchidnaOS.Echfs.Handle.Access
import EchidnaOS.Echfs.Image

namespace EchidnaOS.Echfs

open EchidnaOS.Lib.ByteStore EchidnaOS.Devfs

variable {m : Mount} {dev : DevFile} {file : CachedFile} {disk next : Store} {entries : List Entry}
  {name : CString} {parent index : Nat} {type : UInt8}

-- A lookup goes by the entries of the table only.
theorem Table.searchFrom_eq (htable : Table m disk entries) (hnext : Table m next entries)
    {fuel : Nat} (hindex : index ≤ entries.length) :
    searchFrom next m name parent type fuel index = searchFrom disk m name parent type fuel index := by
  induction fuel generalizing index with
  | zero => rfl
  | succ fuel ih =>
      unfold searchFrom
      dsimp only
      by_cases hlt : index < entries.length
      · rw [hnext.used index hlt, htable.used index hlt, ih (by omega)]
      · have hend : index = entries.length := by omega
        have hroom := htable.room
        rw [if_pos (hnext.free index (by omega) (by omega)), if_pos (htable.free index (by omega) (by omega))]

theorem Table.search_eq (htable : Table m disk entries) (hnext : Table m next entries) :
    search next m name parent type = search disk m name parent type :=
  htable.searchFrom_eq hnext (Nat.zero_le _)

theorem Table.found_eq (htable : Table m disk entries) (hnext : Table m next entries) {found : Nat}
    (hfound : search disk m name parent type = some found) : rdEntry next m found = rdEntry disk m found := by
  obtain ⟨hlt, -⟩ := htable.search_some hfound
  rw [htable.used found hlt, hnext.used found hlt]

theorem Table.resolveFrom_eq (htable : Table m disk entries) (hnext : Table m next entries) {start : Entry}
    {path : CString} :
    resolveFrom next m type start name path = resolveFrom disk m type start name path := by
  induction path generalizing start name with
  | nil =>
      simp only [resolveFrom, resolveLast, htable.search_eq hnext]
      split
      · rfl
      · rename_i found hfound
        rw [htable.found_eq hnext hfound]
  | cons char path ih =>
      simp only [resolveFrom, htable.search_eq hnext, ih]
      split
      · split
        · rfl
        · rename_i found hfound
          rw [htable.found_eq hnext hfound]
      · rfl

theorem Table.pathResolver_eq (htable : Table m disk entries) (hnext : Table m next entries) (path : Path)
    (type : UInt8) : pathResolver next m path type = pathResolver disk m path type := by
  unfold pathResolver
  rw [htable.resolveFrom_eq hnext]

-- The block in the cache that a read of another one writes back.
structure FlushOk (m : Mount) (dev : DevFile) (file : CachedFile) : Prop where
  device : DeviceOk m dev
  block : DataBlock m (file.block file.cachedBlock)

-- A disk with at most one data block written.
def OneBlock (m : Mount) (disk next : Store) : Prop :=
  next = disk ∨ ∃ block source, DataBlock m block ∧ next = blit disk (blockLoc block) BYTES_PER_BLOCK source

theorem rdAt_disk (dev : DevFile) (loc count : Nat) : (dev.rdAt loc count).2.disk = dev.disk := rfl

theorem readByte_clean (dev : DevFile) (hclean : file.cacheStatus ≠ .dirty) (loc : Nat) :
    (readByte handleAccess dev file loc).2.1.disk = dev.disk ∧
      (readByte handleAccess dev file loc).2.2.cacheStatus ≠ .dirty := by
  unfold readByte
  dsimp only
  split
  · exact ⟨rfl, hclean⟩
  · unfold fetch
    rw [if_neg hclean]
    exact ⟨rfl, by simp⟩

theorem readByte_flush (dev : DevFile) (hdirty : file.cacheStatus = .dirty) {loc : Nat}
    (hcached : cached file (loc / BYTES_PER_BLOCK) ≠ true) :
    (readByte handleAccess dev file loc).2.1.disk =
      (dev.wrAt (blockLoc (file.block file.cachedBlock)) BYTES_PER_BLOCK file.cache).disk ∧
      (readByte handleAccess dev file loc).2.2.cacheStatus ≠ .dirty := by
  unfold readByte
  dsimp only
  rw [if_neg hcached]
  unfold fetch
  rw [if_pos hdirty]
  refine ⟨?_, by simp⟩
  exact rdAt_disk (dev.wrAt _ BYTES_PER_BLOCK file.cache) _ BYTES_PER_BLOCK

theorem ureadBytes_clean {finish : Int} {len : Nat} {curLoc : Int} (hclean : file.cacheStatus ≠ .dirty) :
    (ureadBytes finish len dev file curLoc).2.1.disk = dev.disk := by
  induction len generalizing dev file curLoc with
  | zero => rfl
  | succ len ih =>
      unfold ureadBytes
      split
      · rfl
      · obtain ⟨hdisk, hnext⟩ := readByte_clean dev hclean curLoc.toNat
        exact (ih hnext).trans hdisk

-- Only the first byte outside the block in the cache can write something back.
theorem ureadBytes_flush (hgeometry : Geometry m) {finish : Int} {len : Nat} {curLoc : Int}
    (hflush : file.cacheStatus = .dirty → FlushOk m dev file) :
    OneBlock m dev.disk (ureadBytes finish len dev file curLoc).2.1.disk := by
  induction len generalizing curLoc with
  | zero => exact Or.inl rfl
  | succ len ih =>
      unfold ureadBytes
      split
      · exact Or.inl rfl
      dsimp only
      by_cases hcached : cached file (curLoc.toNat / BYTES_PER_BLOCK) = true
      · rw [readByte, if_pos hcached]
        exact ih
      · by_cases hdirty : file.cacheStatus = .dirty
        · obtain ⟨hdevice, hblock⟩ := hflush hdirty
          have hle := hdevice.block_le hgeometry hblock
          obtain ⟨hdisk, -⟩ := hdevice.wrAt (Nat.le_of_add_right_le hle) BYTES_PER_BLOCK file.cache
          right
          refine ⟨_, file.cache, hblock, ?_⟩
          obtain ⟨hwritten, hclean⟩ := readByte_flush dev hdirty hcached
          rw [ureadBytes_clean hclean, hwritten, hdisk]
        · left
          obtain ⟨hdisk, hnext⟩ := readByte_clean dev hdirty curLoc.toNat
          exact (ureadBytes_clean hnext).trans hdisk

theorem OneBlock.table (hone : OneBlock m disk next) (hgeometry : Geometry m) (htable : Table m disk entries) :
    Table m next entries := by
  rcases hone with rfl | ⟨block, source, hblock, rfl⟩
  · exact htable
  · refine htable.of_same hgeometry fun address hlow hhigh => ?_
    have habove := (data_above_directory hgeometry hblock).1
    unfold blit
    rw [if_neg (by omega)]

end EchidnaOS.Echfs
