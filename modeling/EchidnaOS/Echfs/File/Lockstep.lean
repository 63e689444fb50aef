import EchidnaOS.Echfs.Image
import Mathlib.Data.List.TakeWhile

namespace EchidnaOS.Echfs

open EchidnaOS.Lib.ByteStore

variable {σ : Type} {io : Access σ} {m : Mount} {index : Nat} {related : σ → Store → Entry → Prop}
  {dev : σ} {disk next : Store} {file : CachedFile} {entry : Entry} {block i count loc : Nat}

-- Two ways to reach a device that stay related: one is the byte accesses of the path calls.
-- The entry is the one the record of the file holds, which only those write to the disk.
structure Lockstep (m : Mount) (io : Access σ) (index : Nat) (related : σ → Store → Entry → Prop) :
    Prop where
  rdQword : ∀ {dev disk entry block}, related dev disk entry → block < m.blocks →
    (io.rdQword dev (fatLoc m block)).1 = fat disk m block ∧
      related (io.rdQword dev (fatLoc m block)).2 disk entry
  wrQword : ∀ {dev disk entry block} (x : Nat), related dev disk entry → block < m.blocks →
    related (io.wrQword dev (fatLoc m block) x) (wrQword disk (fatLoc m block) x) entry
  zeroBlock : ∀ {dev disk entry block}, related dev disk entry → DataBlock m block →
    related (io.zeroBlock dev (blockLoc block))
      (blit disk (blockLoc block) BYTES_PER_BLOCK fun _ => 0) entry
  rdBlock : ∀ {dev disk entry block}, related dev disk entry → DataBlock m block →
    (io.rdBlock dev (blockLoc block)).1 = (fun offset => disk (blockLoc block + offset)) ∧
      related (io.rdBlock dev (blockLoc block)).2 disk entry
  wrBlock : ∀ {dev disk entry block} (cache : Store), related dev disk entry → DataBlock m block →
    related (io.wrBlock dev (blockLoc block) cache)
      (blit disk (blockLoc block) BYTES_PER_BLOCK cache) entry
  wrTarget : ∀ {dev disk entry} {result : PathResult}, related dev disk entry →
    result.targetEntry = index → result.target.Fits →
    related (io.wrTarget dev result) (wrTargetEntry m disk result) result.target

namespace Lockstep

-- The records agree, and the devices are related for the entry of the record.
structure Agree (related : σ → Store → Entry → Prop) (left : σ × CachedFile)
    (right : Store × CachedFile) : Prop where
  file : left.2 = right.2
  device : related left.1 right.1 right.2.pathResult.target

theorem fetch (hlock : Lockstep m io index related)
    (hrelated : related dev disk file.pathResult.target)
    (hdirty : file.cacheStatus = .dirty → DataBlock m (file.block file.cachedBlock))
    (hblock : DataBlock m (file.block block)) (status : CacheStatus) :
    Agree related (Echfs.fetch io dev file block status)
      (Echfs.fetch (byteAccess m) disk file block status) := by
  obtain ⟨middle, store, hmiddle, hstore, hrelated⟩ : ∃ middle store,
      (if file.cacheStatus = .dirty then
        io.wrBlock dev (blockLoc (file.block file.cachedBlock)) file.cache else dev) = middle ∧
      (if file.cacheStatus = .dirty then (byteAccess m).wrBlock disk
        (blockLoc (file.block file.cachedBlock)) file.cache else disk) = store ∧
      related middle store file.pathResult.target := by
    by_cases hcase : file.cacheStatus = .dirty
    · rw [if_pos hcase, if_pos hcase]
      exact ⟨_, _, rfl, rfl, hlock.wrBlock file.cache hrelated (hdirty hcase)⟩
    · rw [if_neg hcase, if_neg hcase]
      exact ⟨_, _, rfl, rfl, hrelated⟩
  obtain ⟨hbytes, hloaded⟩ := hlock.rdBlock hrelated hblock
  unfold Echfs.fetch
  rw [hmiddle, hstore]
  refine ⟨?_, hloaded⟩
  dsimp only
  rw [hbytes]
  rfl

theorem putByte (hlock : Lockstep m io index related) (loc : Nat)
    (hrelated : related dev disk file.pathResult.target)
    (hdirty : file.cacheStatus = .dirty → DataBlock m (file.block file.cachedBlock))
    (hblock : DataBlock m (file.block (loc / BYTES_PER_BLOCK))) (val : UInt8) :
    Agree related (Echfs.putByte io dev file val loc)
      (Echfs.putByte (byteAccess m) disk file val loc) := by
  unfold Echfs.putByte
  dsimp only
  by_cases hcached : cached file (loc / BYTES_PER_BLOCK) = true
  · rw [if_pos hcached, if_pos hcached]
    exact ⟨rfl, hrelated⟩
  · rw [if_neg hcached, if_neg hcached]
    obtain ⟨hfile, hdevice⟩ := hlock.fetch hrelated hdirty hblock .dirty
    refine ⟨?_, hdevice⟩
    dsimp only
    rw [hfile]

-- The search for a free block, as far as a block of the image.
theorem freeBlockFrom (hlock : Lockstep m io index related) {fuel start tBlock : Nat}
    (hrelated : related dev disk entry)
    (hfound : Echfs.freeBlockFrom (byteAccess m) m fuel disk start = some (tBlock, disk))
    (hblock : tBlock < m.blocks) :
    ∃ after, Echfs.freeBlockFrom io m fuel dev start = some (tBlock, after) ∧
      related after disk entry := by
  induction fuel generalizing dev start with
  | zero => cases hfound
  | succ fuel ih =>
      have hle := (freeBlock_spec hfound).2.2.1
      obtain ⟨hvalue, hnext⟩ := hlock.rdQword hrelated (Nat.lt_of_le_of_lt hle hblock)
      rw [freeBlockFrom_succ] at hfound
      unfold Echfs.freeBlockFrom
      dsimp only
      rw [hvalue]
      by_cases hzero : fat disk m start = 0
      · rw [if_pos hzero] at hfound ⊢
        have hsame : start = tBlock := (Prod.mk.inj (Option.some.inj hfound)).1
        exact ⟨_, by rw [hsame], hnext⟩
      · rw [if_neg hzero] at hfound ⊢
        exact ih hnext hfound

theorem link (hlock : Lockstep m io index related) {tBlock : Nat}
    (hrelated : related dev disk file.pathResult.target)
    (hindex : file.pathResult.targetEntry = index) (hfits : file.pathResult.target.Fits)
    (htBlock : tBlock < 2 ^ 64) (hlast : i ≠ 0 → file.block (i - 1) < m.blocks) :
    Agree related (Echfs.link io m dev file i tBlock)
      (Echfs.link (byteAccess m) m disk file i tBlock) := by
  unfold Echfs.link
  by_cases hfirst : i = 0
  · rw [if_pos hfirst, if_pos hfirst]
    exact ⟨rfl, hlock.wrTarget hrelated hindex
      ⟨hfits.parentId_lt, htBlock, hfits.size_lt, hfits.name_lt, hfits.name_ne⟩⟩
  · rw [if_neg hfirst, if_neg hfirst]
    exact ⟨rfl, hlock.wrQword tBlock hrelated (hlast hfirst)⟩

theorem extend (hlock : Lockstep m io index related) (loc : Nat)
    (hrelated : related dev disk file.pathResult.target)
    (hindex : file.pathResult.targetEntry = index) (hfits : file.pathResult.target.Fits) :
    Agree related (Echfs.extend io dev file loc) (Echfs.extend (byteAccess m) disk file loc) := by
  unfold Echfs.extend
  by_cases hend : file.pathResult.target.size ≤ loc
  · rw [if_pos hend, if_pos hend]
    exact ⟨rfl, hlock.wrTarget hrelated hindex
      ⟨hfits.parentId_lt, hfits.payload_lt, Nat.mod_lt _ (Nat.two_pow_pos 64), hfits.name_lt,
        hfits.name_ne⟩⟩
  · rw [if_neg hend, if_neg hend]
    exact ⟨rfl, hrelated⟩

theorem zeroBlocks (hlock : Lockstep m io index related) {blocks : List Nat}
    (hblocks : ∀ block ∈ blocks, DataBlock m block) (hrelated : related dev disk entry) :
    related (blocks.foldl (fun dev block => io.zeroBlock dev (blockLoc block)) dev)
      (blocks.foldl (fun disk block => (byteAccess m).zeroBlock disk (blockLoc block)) disk) entry := by
  induction blocks generalizing dev disk with
  | nil => exact hrelated
  | cons head rest ih =>
      rw [List.foldl_cons, List.foldl_cons]
      exact ih (fun block hmem => hblocks block (List.mem_cons_of_mem _ hmem))
        (hlock.zeroBlock hrelated (hblocks head List.mem_cons_self))

end Lockstep

-- A change of one entry of the allocation table takes at most one free block.
theorem zeros_le_succ {limit : Nat} {table after : Nat → Nat} (changed : Nat)
    (hsame : ∀ block, block < limit → block ≠ changed → after block = table block) :
    ((List.range limit).countP fun block => table block = 0) ≤
      ((List.range limit).countP fun block => after block = 0) + 1 := by
  have hnodup : ((List.range limit).filter fun block => table block = 0).Nodup :=
    List.nodup_range.filter _
  have hsubset : ((List.range limit).filter fun block => table block = 0) ⊆
      changed :: (List.range limit).filter fun block => after block = 0 := by
    intro block hmem
    obtain ⟨hrange, hzero⟩ := List.mem_filter.mp hmem
    by_cases heq : block = changed
    · exact heq ▸ List.mem_cons_self
    · refine List.mem_cons_of_mem _ (List.mem_filter.mpr ⟨hrange, ?_⟩)
      rw [hsame block (List.mem_range.mp hrange) heq]
      exact hzero
  have hle := (List.subperm_of_subset hnodup hsubset).length_le
  rw [List.countP_eq_length_filter, List.countP_eq_length_filter]
  exact hle

theorem freeBlocks_le_succ (changed : Nat)
    (hsame : ∀ block, block < m.blocks → block ≠ changed → fat next m block = fat disk m block) :
    freeBlocks m disk ≤ freeBlocks m next + 1 := zeros_le_succ changed hsame

-- The record with a block at the end of `i` entries of its allocation map.
def CachedFile.place (file : CachedFile) (i tBlock : Nat) : CachedFile :=
  { file with allocMap := file.allocMap.take i ++ [tBlock] }

-- The record of the file in slot `index`, which has `count` blocks in its allocation map.
structure Placed (m : Mount) (index count : Nat) (file : CachedFile) : Prop where
  targetEntry : file.pathResult.targetEntry = index
  fits : file.pathResult.target.Fits
  length : count ≤ file.allocMap.length
  blocks : ∀ j, j < count → DataBlock m (file.block j)
  dirty : file.cacheStatus = .dirty → file.cachedBlock < count

-- The state of the loop that adds blocks: the file has `i` of them, and the image has the
-- free ones for `count` more.
structure Growing (m : Mount) (index i count : Nat) (state : Store × CachedFile) : Prop where
  placed : Placed m index i state.2
  reserved : ∀ block, block < m.datastart → fat state.1 m block ≠ 0
  space : count ≤ freeBlocks m state.1

theorem DataBlock.lt (hgeometry : Geometry m) (hdata : DataBlock m block) : block < 2 ^ 64 := by
  have hdevice := hgeometry.device_le
  have hlt := hdata.2
  simp only [BYTES_PER_BLOCK] at hdevice
  omega

-- The table after a link: at most the entry of a data block changed, to a block number.
theorem link_fat (disk : Store) (file : CachedFile) (hgeometry : Geometry m)
    (hindex : index < capacity m) {tBlock : Nat}
    (htBlock : DataBlock m tBlock) (hentry : file.pathResult.targetEntry = index)
    (hfits : file.pathResult.target.Fits) (hlast : i ≠ 0 → DataBlock m (file.block (i - 1))) :
    ∃ changed, ∀ block, block < m.blocks →
      fat (link (byteAccess m) m disk file i tBlock).1 m block =
        if block = changed ∧ i ≠ 0 then tBlock else fat disk m block := by
  refine ⟨file.block (i - 1), fun block hlt => ?_⟩
  unfold link
  by_cases hfirst : i = 0
  · rw [if_pos hfirst, if_neg (fun h => h.2 hfirst)]
    have hkeeps := wrTargetEntry_keeps hgeometry (hentry ▸ hindex) hfits.name_lt
    have hsame := hkeeps disk
      { file.pathResult with target := { file.pathResult.target with payload := tBlock } } rfl rfl
    exact fat_congr hgeometry hlt fun address hlow => hsame address (Or.inl hlow)
  · rw [if_neg hfirst]
    have hblock := hlast hfirst
    show fat (wrQword disk (fatLoc m (file.block (i - 1))) tBlock) m block = _
    rw [fat_wrQword hgeometry hlt hblock.2 (htBlock.lt hgeometry)]
    by_cases heq : block = file.block (i - 1)
    · rw [if_pos heq, if_pos ⟨heq, hfirst⟩]
    · rw [if_neg heq, if_neg fun h => heq h.1]

theorem link_record (io : Access σ) (m : Mount) (file : CachedFile) (i : Nat) (dev : σ) (tBlock : Nat) :
    (link io m dev file i tBlock).2 =
      if i = 0 then file.setTarget { file.pathResult.target with payload := tBlock } else file := by
  unfold link
  split
  · rfl
  · rfl

-- One turn: the block that is found becomes the next one of the file.
theorem Growing.turn (hgeometry : Geometry m) (hindex : index < capacity m)
    (hgrowing : Growing m index i (count + 1) (disk, file)) :
    ∃ tBlock, freeBlockFrom (byteAccess m) m FAT_LOOP disk 0 = some (tBlock, disk) ∧
      DataBlock m tBlock ∧ (i ≠ 0 → DataBlock m ((file.place i tBlock).block (i - 1))) ∧
      Growing m index (i + 1) count (link (byteAccess m) m disk (file.place i tBlock) i tBlock) := by
  obtain ⟨⟨hentry, hfits, hlength, hblocks, hdirty⟩, hreserved, hspace⟩ := hgrowing
  dsimp only at *
  obtain ⟨tBlock, hfound, hblock, hzero⟩ : ∃ tBlock,
      freeBlockFrom (byteAccess m) m FAT_LOOP disk 0 = some (tBlock, disk) ∧
        DataBlock m tBlock ∧ fat disk m tBlock = 0 :=
    freeBlock_found hgeometry hreserved (by omega) fun _ _ => rfl
  have hlow := hblock.1
  have hpos := hgeometry.data_pos
  have htake : (file.allocMap.take i).length = i := List.length_take_of_le hlength
  have hold : ∀ j, j < i → (file.allocMap.take i ++ [tBlock]).getD j 0 = file.block j := by
    intro j hj
    rw [List.getD_append _ _ _ _ (by omega), CachedFile.block, List.getD_eq_getElem?_getD,
      List.getD_eq_getElem?_getD, List.getElem?_take_of_lt hj]
  have hnew : (file.allocMap.take i ++ [tBlock]).getD i 0 = tBlock := by
    rw [List.getD_append_right _ _ _ _ (by omega), htake, Nat.sub_self]
    rfl
  have hmap : (link (byteAccess m) m disk (file.place i tBlock) i tBlock).2.allocMap =
      file.allocMap.take i ++ [tBlock] := link_allocMap _ _ _
  have hlast : i ≠ 0 → DataBlock m ((file.place i tBlock).block (i - 1)) := by
    intro hne
    show DataBlock m ((file.allocMap.take i ++ [tBlock]).getD (i - 1) 0)
    rw [hold (i - 1) (by omega)]
    exact hblocks (i - 1) (by omega)
  obtain ⟨changed, hfat⟩ := link_fat disk (file.place i tBlock) hgeometry hindex hblock hentry hfits hlast
  have hrecord := link_record (byteAccess m) m (file.place i tBlock) i disk tBlock
  refine ⟨tBlock, hfound, hblock, hlast, ?_⟩
  generalize link (byteAccess m) m disk (file.place i tBlock) i tBlock = linked at *
  obtain ⟨hlinkedEntry, hlinkedFits, hlinkedStatus, hlinkedCached⟩ :
      linked.2.pathResult.targetEntry = index ∧ linked.2.pathResult.target.Fits ∧
        linked.2.cacheStatus = file.cacheStatus ∧ linked.2.cachedBlock = file.cachedBlock := by
    rw [hrecord]
    split
    · exact ⟨hentry, ⟨hfits.parentId_lt, hblock.lt hgeometry, hfits.size_lt, hfits.name_lt,
        hfits.name_ne⟩, rfl, rfl⟩
    · exact ⟨hentry, hfits, rfl, rfl⟩
  refine ⟨⟨hlinkedEntry, hlinkedFits, ?_, ?_, ?_⟩, ?_, ?_⟩
  · rw [hmap, List.length_append, List.length_singleton, htake]
  · intro j hj
    rw [CachedFile.block, hmap]
    by_cases hlt : j < i
    · rw [hold j hlt]
      exact hblocks j hlt
    · obtain rfl : j = i := by omega
      rw [hnew]
      exact hblock
  · intro hstatus
    have hcached := hdirty (hlinkedStatus ▸ hstatus)
    omega
  · intro block hlt
    have hle := hgeometry.data_le
    rw [hfat block (by omega)]
    split
    · omega
    · exact hreserved block hlt
  · have hle : freeBlocks m disk ≤ freeBlocks m linked.1 + 1 := by
      refine freeBlocks_le_succ changed fun block hlt hne => ?_
      rw [hfat block hlt, if_neg fun h => hne h.1]
    omega

-- Setting the size leaves the blocks and the allocation table.
theorem extend_placed (hgeometry : Geometry m) (hindex : index < capacity m)
    (hplaced : Placed m index count file) (disk : Store) (loc : Nat) :
    Placed m index count (extend (byteAccess m) disk file loc).2 ∧
      ∀ block, block < m.blocks → fat (extend (byteAccess m) disk file loc).1 m block = fat disk m block := by
  obtain ⟨hentry, hfits, hlength, hblocks, hdirty⟩ := hplaced
  unfold extend
  by_cases hend : file.pathResult.target.size ≤ loc
  · rw [if_pos hend]
    refine ⟨⟨hentry, ⟨hfits.parentId_lt, hfits.payload_lt, Nat.mod_lt _ (Nat.two_pow_pos 64),
      hfits.name_lt, hfits.name_ne⟩, hlength, hblocks, hdirty⟩, ?_⟩
    have hkeeps := wrTargetEntry_keeps hgeometry (hentry ▸ hindex) hfits.name_lt
    have hsame := hkeeps disk { file.pathResult with target :=
      { file.pathResult.target with size := (loc + 1) % 2 ^ 64 } } rfl rfl
    intro block hlt
    exact fat_congr hgeometry hlt fun address hlow => hsame address (Or.inl hlow)
  · rw [if_neg hend]
    exact ⟨⟨hentry, hfits, hlength, hblocks, hdirty⟩, fun _ _ => rfl⟩

theorem putByte_pathResult (disk : Store) (file : CachedFile) (val : UInt8) (loc : Nat) :
    (putByte (byteAccess m) disk file val loc).2.pathResult = file.pathResult := by
  unfold putByte
  dsimp only
  split
  · rfl
  · rfl

namespace Lockstep

-- The loop that adds blocks.
theorem growBlocks (hlock : Lockstep m io index related) (hgeometry : Geometry m)
    (hindex : index < capacity m) (hrelated : related dev disk file.pathResult.target)
    (hgrowing : Growing m index i count (disk, file)) :
    ∃ left right, Echfs.growBlocks io m count dev file i = some left ∧
      Echfs.growBlocks (byteAccess m) m count disk file i = some right ∧
      Agree related left right ∧ Growing m index (i + count) 0 right := by
  induction count generalizing dev disk file i with
  | zero => exact ⟨(dev, file), (disk, file), rfl, rfl, ⟨rfl, hrelated⟩, hgrowing⟩
  | succ count ih =>
      obtain ⟨tBlock, hfound, hblock, hlast, hnext⟩ := hgrowing.turn hgeometry hindex
      obtain ⟨after, hafter, hafterRelated⟩ := hlock.freeBlockFrom hrelated hfound hblock.2
      have hlinked : Agree related (Echfs.link io m after (file.place i tBlock) i tBlock)
          (Echfs.link (byteAccess m) m disk (file.place i tBlock) i tBlock) :=
        hlock.link hafterRelated hgrowing.placed.targetEntry hgrowing.placed.fits (hblock.lt hgeometry)
          fun hne => (hlast hne).2
      have hleft : growBlock io m dev file i =
          some (Echfs.link io m after (file.place i tBlock) i tBlock) := by
        rw [growBlock, hafter]
        rfl
      have hright : growBlock (byteAccess m) m disk file i =
          some (Echfs.link (byteAccess m) m disk (file.place i tBlock) i tBlock) := by
        rw [growBlock, hfound]
        rfl
      generalize Echfs.link io m after (file.place i tBlock) i tBlock = left at *
      generalize Echfs.link (byteAccess m) m disk (file.place i tBlock) i tBlock = right at *
      obtain ⟨hfile, hdevice⟩ := hlinked
      obtain ⟨lastLeft, lastRight, hlastLeft, hlastRight, hagree, hdone⟩ := ih hdevice hnext
      refine ⟨lastLeft, lastRight, ?_, ?_, hagree, ?_⟩
      · rw [Echfs.growBlocks, hleft, Option.bind_some, hfile]
        exact hlastLeft
      · rw [Echfs.growBlocks, hright, Option.bind_some]
        exact hlastRight
      · have hsum : i + (count + 1) = i + 1 + count := by omega
        rw [hsum]
        exact hdone

-- The growth of a file by any number of blocks.
theorem grow (hlock : Lockstep m io index related) (hgeometry : Geometry m)
    (hindex : index < capacity m) (hrelated : related dev disk file.pathResult.target) {old new : Nat}
    (hgrowing : Growing m index old (new - old) (disk, file)) (hnew : old < new) :
    ∃ left right, Echfs.grow io m dev file old new = some left ∧
      Echfs.grow (byteAccess m) m disk file old new = some right ∧
      Agree related left right ∧ Placed m index new right.2 := by
  obtain ⟨left, right, hleft, hright, ⟨hfile, hdevice⟩, ⟨hplaced, -, -⟩⟩ :=
    hlock.growBlocks hgeometry hindex hrelated hgrowing
  have hsum : old + (new - old) = new := by omega
  rw [hsum] at hplaced
  obtain ⟨hentry, hfits, hlength, hblocks, hdirty⟩ := hplaced
  have htake : (right.2.allocMap.take new).length = new := List.length_take_of_le hlength
  have hplaces : ∀ j, j < new →
      (right.2.allocMap.take new ++ [END_OF_CHAIN]).getD j 0 = right.2.block j := by
    intro j hj
    rw [List.getD_append _ _ _ _ (by omega), CachedFile.block, List.getD_eq_getElem?_getD,
      List.getD_eq_getElem?_getD, List.getElem?_take_of_lt hj]
  have hadded : ∀ block ∈ ((right.2.allocMap.take new ++ [END_OF_CHAIN]).drop old).takeWhile
      (fun block => block ≠ END_OF_CHAIN), DataBlock m block := by
    intro block hmem
    have hne : block ≠ END_OF_CHAIN := by simpa using List.mem_takeWhile_imp hmem
    have hmap := List.mem_of_mem_drop (List.takeWhile_subset _ hmem)
    rcases List.mem_append.mp hmap with hold | hend
    · obtain ⟨j, hj, hget⟩ := List.mem_iff_getElem.mp hold
      have hplace := hplaces j (by omega)
      rw [List.getD_append _ _ _ _ hj, List.getD_eq_getElem _ _ hj, hget] at hplace
      rw [hplace]
      exact hblocks j (by omega)
    · exact absurd (List.mem_singleton.mp hend) hne
  have hlinked := hlock.wrQword END_OF_CHAIN hdevice (hblocks (new - 1) (by omega)).2
  have hzeroed := hlock.zeroBlocks hadded hlinked
  unfold Echfs.grow
  rw [hleft, hright, Option.map_some, Option.map_some]
  refine ⟨_, _, rfl, rfl, ⟨?_, ?_⟩, hentry, hfits, ?_, ?_, hdirty⟩
  · dsimp only
    rw [hfile]
  · dsimp only
    rw [hfile]
    exact hzeroed
  · rw [List.length_append, htake]
    exact Nat.le_add_right _ _
  · intro j hj
    show DataBlock m ((right.2.allocMap.take new ++ [END_OF_CHAIN]).getD j 0)
    rw [hplaces j hj]
    exact hblocks j hj

-- Writing a byte at any position for which the image has the blocks.
theorem writeByte (hlock : Lockstep m io index related) (hgeometry : Geometry m)
    (hindex : index < capacity m) (hrelated : related dev disk file.pathResult.target)
    (hplaced : Placed m index (blockCount file.pathResult.target.size) file)
    (hreserved : ∀ block, block < m.datastart → fat disk m block ≠ 0) (hloc : loc + 1 < 2 ^ 64)
    (hspace : blockCount (loc + 1) - blockCount file.pathResult.target.size ≤ freeBlocks m disk)
    (val : UInt8) :
    ∃ left right, Echfs.writeByte io m dev file val loc = some left ∧
      Echfs.writeByte (byteAccess m) m disk file val loc = some right ∧
      Agree related left right ∧ right.2.pathResult.targetEntry = index ∧
      right.2.pathResult.target.Fits := by
  obtain ⟨hextendedPlaced, hfat⟩ := extend_placed hgeometry hindex hplaced disk loc
  obtain ⟨hextendedFile, hextended⟩ :=
    hlock.extend loc hrelated hplaced.targetEntry hplaced.fits
  unfold Echfs.writeByte
  rw [Nat.mod_eq_of_lt hloc]
  generalize blockCount file.pathResult.target.size = old at *
  generalize Echfs.extend io dev file loc = first at *
  generalize Echfs.extend (byteAccess m) disk file loc = second at *
  have hfree : freeBlocks m second.1 = freeBlocks m disk := freeBlocks_congr hfat
  have hinside : loc / BYTES_PER_BLOCK < blockCount (loc + 1) := div_lt_blockCount (Nat.lt_succ_self loc)
  -- the state in which the byte is put
  obtain ⟨left, right, total, hleft, hright, ⟨hfile, hdevice⟩, hready, hblock⟩ :
      ∃ left right total,
        (if old < blockCount (loc + 1) then Echfs.grow io m first.1 first.2 old (blockCount (loc + 1))
          else some first) = some left ∧
        (if old < blockCount (loc + 1) then
          Echfs.grow (byteAccess m) m second.1 second.2 old (blockCount (loc + 1))
          else some second) = some right ∧
        Agree related left right ∧ Placed m index total right.2 ∧ loc / BYTES_PER_BLOCK < total := by
    by_cases hgrows : old < blockCount (loc + 1)
    · have hgrowing : Growing m index old (blockCount (loc + 1) - old) second := by
        refine ⟨hextendedPlaced, ?_, by omega⟩
        intro block hlow
        have hle := hgeometry.data_le
        rw [hfat block (by omega)]
        exact hreserved block hlow
      obtain ⟨left, right, hleft, hright, hagree, hdone⟩ :=
        hlock.grow hgeometry hindex hextended hgrowing hgrows
      rw [if_pos hgrows, if_pos hgrows, hextendedFile]
      exact ⟨left, right, _, hleft, hright, hagree, hdone, hinside⟩
    · rw [if_neg hgrows, if_neg hgrows]
      exact ⟨first, second, old, rfl, rfl, ⟨hextendedFile, hextended⟩, hextendedPlaced, by omega⟩
  have hput := hlock.putByte loc hdevice (fun hdirty => hready.blocks _ (hready.dirty hdirty))
    (hready.blocks _ hblock) val
  dsimp only
  rw [hleft, hright, Option.map_some, Option.map_some, hfile]
  refine ⟨_, _, rfl, rfl, hput, ?_, ?_⟩
  · rw [putByte_pathResult]
    exact hready.targetEntry
  · rw [putByte_pathResult]
    exact hready.fits

end Lockstep

end EchidnaOS.Echfs
