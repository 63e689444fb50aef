import EchidnaOS.Echfs.File.Contents

namespace EchidnaOS.Echfs

open EchidnaOS.Lib.ByteStore

variable {disk next : Store} {m : Mount} {file : CachedFile} {chain : List Nat}
  {block other tBlock pos : Nat} {wrTarget : Store → PathResult → Store}

-- The entry of a block in the allocation table.
def fat (disk : Store) (m : Mount) (block : Nat) : Nat := rdQword disk (fatLoc m block)

-- The blocks reached from `start` through the allocation table.
def Linked (disk : Store) (m : Mount) : Nat → List Nat → Prop
  | start, [] => start = END_OF_CHAIN
  | start, block :: rest => start = block ∧ Linked disk m (fat disk m block) rest

-- The two areas a directory write leaves alone.
def SameOutsideDirectory (m : Mount) (disk next : Store) : Prop :=
  ∀ address, address < m.dirstart * BYTES_PER_BLOCK ∨ m.datastart * BYTES_PER_BLOCK ≤ address →
    next address = disk address

-- Writing the entry of the file stays in the directory.
def KeepsToDirectory (m : Mount) (wrTarget : Store → PathResult → Store) (file : CachedFile) :
    Prop :=
  ∀ disk result, result.targetEntry = file.pathResult.targetEntry →
    result.target.name = file.pathResult.target.name →
    SameOutsideDirectory m disk (wrTarget disk result)

theorem fatLoc_eq (hgeometry : Geometry m) (hblock : block < m.blocks) :
    fatLoc m block = m.fatstart * BYTES_PER_BLOCK + block * 8 ∧
      fatLoc m block + 8 ≤ m.dirstart * BYTES_PER_BLOCK := by
  have hfat := hgeometry.fat_fits
  have hdirectory := hgeometry.directory_fits
  have hdata := hgeometry.data_le
  have hdevice := hgeometry.device_le
  have hloc : m.fatstart * BYTES_PER_BLOCK + block * 8 + 8 ≤ m.dirstart * BYTES_PER_BLOCK := by
    omega
  have hlt : m.fatstart * BYTES_PER_BLOCK + block * 8 < 2 ^ 64 := by
    simp only [BYTES_PER_BLOCK] at *
    omega
  unfold fatLoc
  rw [Nat.mod_eq_of_lt hlt]
  exact ⟨rfl, hloc⟩

theorem data_above_directory (hgeometry : Geometry m) (hdata : DataBlock m block) :
    m.datastart * BYTES_PER_BLOCK ≤ blockLoc block ∧
      m.dirstart * BYTES_PER_BLOCK ≤ blockLoc block := by
  have hdirectory := hgeometry.directory_fits
  have hlow := hdata.1
  rw [hdata.loc_eq hgeometry]
  simp only [BYTES_PER_BLOCK] at *
  omega

-- The allocation table stands below the directory.
theorem fat_congr (hgeometry : Geometry m) (hblock : block < m.blocks)
    (hsame : ∀ address, address < m.dirstart * BYTES_PER_BLOCK → next address = disk address) :
    fat next m block = fat disk m block := by
  have hfits := (fatLoc_eq hgeometry hblock).2
  unfold fat rdQword
  congr 1
  apply read_congr
  intro address _ hhigh
  exact hsame address (by omega)

theorem fat_wrQword (hgeometry : Geometry m) (hblock : block < m.blocks) (hother : other < m.blocks)
    {x : Nat} (hx : x < 2 ^ 64) :
    fat (wrQword disk (fatLoc m other) x) m block = if block = other then x else fat disk m block := by
  unfold fat
  by_cases heq : block = other
  · rw [if_pos heq, heq]
    exact rdQword_wrQword disk _ hx
  · rw [if_neg heq]
    unfold rdQword wrQword
    rw [read_write_disjoint]
    rw [(fatLoc_eq hgeometry hblock).1, (fatLoc_eq hgeometry hother).1, leBytes_length]
    omega

theorem wrQword_fat_data (hgeometry : Geometry m) (hother : other < m.blocks)
    (hdata : DataBlock m block) (x offset : Nat) :
    wrQword disk (fatLoc m other) x (blockLoc block + offset) = disk (blockLoc block + offset) := by
  have hfits := (fatLoc_eq hgeometry hother).2
  have habove := (data_above_directory hgeometry hdata).2
  apply write_outside
  rw [leBytes_length]
  omega

theorem freeBlockFrom_succ (fuel start : Nat) :
    freeBlockFrom (storeAccess wrTarget) m (fuel + 1) disk start =
      if fat disk m start = 0 then some (start, disk)
      else freeBlockFrom (storeAccess wrTarget) m fuel disk (start + 1) := rfl

theorem freeBlock_spec {fuel start : Nat} {found : Nat × Store}
    (hfound : freeBlockFrom (storeAccess wrTarget) m fuel disk start = some found) :
    found.2 = disk ∧ fat disk m found.1 = 0 ∧ start ≤ found.1 ∧
      ∀ block, start ≤ block → block < found.1 → fat disk m block ≠ 0 := by
  induction fuel generalizing start with
  | zero => cases hfound
  | succ fuel ih =>
      rw [freeBlockFrom_succ] at hfound
      by_cases hzero : fat disk m start = 0
      · rw [if_pos hzero] at hfound
        cases hfound
        refine ⟨rfl, hzero, Nat.le_refl _, ?_⟩
        intro block hlow hhigh
        exact absurd hhigh (Nat.not_lt.mpr hlow)
      · rw [if_neg hzero] at hfound
        obtain ⟨hdisk, hfree, hle, hbefore⟩ := ih hfound
        refine ⟨hdisk, hfree, by omega, ?_⟩
        intro block hlow hhigh
        by_cases heq : block = start
        · rw [heq]
          exact hzero
        · exact hbefore block (by omega) hhigh

-- With a free block ahead the search ends.
theorem freeBlock_exists {fuel start : Nat} (hfree : fat disk m block = 0) (hlow : start ≤ block)
    (hfuel : block - start < fuel) :
    ∃ found, freeBlockFrom (storeAccess wrTarget) m fuel disk start = some found := by
  induction fuel generalizing start with
  | zero => exact absurd hfuel (Nat.not_lt_zero _)
  | succ fuel ih =>
      rw [freeBlockFrom_succ]
      by_cases hzero : fat disk m start = 0
      · rw [if_pos hzero]
        exact ⟨_, rfl⟩
      · rw [if_neg hzero]
        have hne : start ≠ block := by
          intro heq
          rw [heq] at hzero
          exact hzero hfree
        exact ih (by omega) (by omega)

def freeBlocks (m : Mount) (disk : Store) : Nat :=
  (List.range m.blocks).countP fun block => fat disk m block = 0

-- With a free block in the image the search finds one of the data blocks.
theorem freeBlock_found (hgeometry : Geometry m)
    (hreserved : ∀ block, block < m.datastart → fat disk m block ≠ 0)
    (hfree : 0 < freeBlocks m disk)
    (hsame : ∀ block, block < m.blocks → fat next m block = fat disk m block) :
    ∃ tBlock, freeBlockFrom (storeAccess wrTarget) m FAT_LOOP next 0 = some (tBlock, next) ∧
      DataBlock m tBlock ∧ fat disk m tBlock = 0 := by
  obtain ⟨block, hmem, hzero⟩ := List.countP_pos_iff.mp hfree
  have hlt := List.mem_range.mp hmem
  have hzero : fat disk m block = 0 := of_decide_eq_true hzero
  have hdevice := hgeometry.device_le
  have hfuel : block - 0 < FAT_LOOP := by
    simp only [BYTES_PER_BLOCK, FAT_LOOP] at hdevice ⊢
    omega
  obtain ⟨⟨tBlock, dev⟩, hfound⟩ :
      ∃ found, freeBlockFrom (storeAccess wrTarget) m FAT_LOOP next 0 = some found :=
    freeBlock_exists ((hsame block hlt).trans hzero) (Nat.zero_le _) hfuel
  obtain ⟨hdev, hfree, -, hbefore⟩ := freeBlock_spec hfound
  have hle : tBlock ≤ block := by
    by_contra hgt
    exact hbefore block (Nat.zero_le _) (Nat.lt_of_not_le hgt) ((hsame block hlt).trans hzero)
  have htBlock : fat disk m tBlock = 0 := by
    rw [← hsame tBlock (by omega)]
    exact hfree
  refine ⟨tBlock, ?_, ⟨?_, by omega⟩, htBlock⟩
  · rw [hfound]
    exact congrArg some (Prod.ext rfl hdev)
  · by_contra hlow
    exact hreserved tBlock (by omega) htBlock

theorem freeBlocks_congr (hsame : ∀ block, block < m.blocks → fat next m block = fat disk m block) :
    freeBlocks m next = freeBlocks m disk := by
  unfold freeBlocks
  apply List.countP_congr
  intro block hmem
  rw [hsame block (List.mem_range.mp hmem)]

-- Taking a block leaves one free block less.
theorem freeBlocks_take (hlt : tBlock < m.blocks) (hzero : fat disk m tBlock = 0)
    (hused : fat next m tBlock ≠ 0)
    (hsame : ∀ block, block < m.blocks → block ≠ tBlock →
      (fat next m block = 0 ↔ fat disk m block = 0)) :
    freeBlocks m next + 1 = freeBlocks m disk := by
  have hnodup : ((List.range m.blocks).filter fun block => fat disk m block = 0).Nodup :=
    List.nodup_range.filter _
  have hmem : tBlock ∈ (List.range m.blocks).filter fun block => fat disk m block = 0 :=
    List.mem_filter.mpr ⟨List.mem_range.mpr hlt, decide_eq_true hzero⟩
  have herase : ((List.range m.blocks).filter fun block => fat next m block = 0) =
      ((List.range m.blocks).filter fun block => fat disk m block = 0).erase tBlock := by
    rw [hnodup.erase_eq_filter, List.filter_filter]
    apply List.filter_congr
    intro block hrange
    by_cases heq : block = tBlock
    · simp [heq, hused]
    · simp [heq, hsame block (List.mem_range.mp hrange) heq]
  unfold freeBlocks
  rw [List.countP_eq_length_filter, List.countP_eq_length_filter, herase,
    List.length_erase_of_mem hmem]
  have hpos := List.length_pos_of_mem hmem
  omega

theorem link_allocMap {σ : Type} (io : Access σ) (dev : σ) (i : Nat) :
    (link io m dev file i tBlock).2.allocMap = file.allocMap := by
  unfold link
  split
  · rfl
  · rfl

-- The growth of a file by one block.
theorem grow_one_eq {σ : Type} (io : Access σ) {dev found : σ} {linked : σ × CachedFile}
    (hmap : file.allocMap = chain ++ [END_OF_CHAIN]) (hend : tBlock ≠ END_OF_CHAIN)
    (hfound : freeBlockFrom io m FAT_LOOP dev 0 = some (tBlock, found))
    (hlinked : link io m found { file with allocMap := chain ++ [tBlock] } chain.length tBlock =
      linked) :
    grow io m dev file chain.length (chain.length + 1) =
      some (io.zeroBlock (io.wrQword linked.1 (fatLoc m tBlock) END_OF_CHAIN) (blockLoc tBlock),
        { linked.2 with allocMap := chain ++ [tBlock] ++ [END_OF_CHAIN] }) := by
  have hlinkedMap : linked.2.allocMap = chain ++ [tBlock] := by
    rw [← hlinked, link_allocMap]
  have hgrown : growBlocks io m (chain.length + 1 - chain.length) dev file chain.length =
      some linked := by
    rw [Nat.add_sub_cancel_left, growBlocks, growBlock, hfound, Option.map_some, hmap,
      List.take_left, hlinked]
    rfl
  have hlast : linked.2.block chain.length = tBlock := by
    rw [CachedFile.block, hlinkedMap, List.getD_append_right _ _ _ _ (Nat.le_refl _), Nat.sub_self]
    rfl
  have htake : linked.2.allocMap.take (chain.length + 1) = chain ++ [tBlock] := by
    rw [hlinkedMap, List.take_of_length_le (by simp)]
  have hadded : ((chain ++ [tBlock] ++ [END_OF_CHAIN]).drop chain.length).takeWhile
      (fun block => block ≠ END_OF_CHAIN) = [tBlock] := by
    rw [List.append_assoc, List.drop_left]
    simp [hend]
  rw [grow, hgrown, Option.map_some]
  dsimp only
  rw [Nat.add_sub_cancel, hlast, htake, hadded]
  rfl

-- What the link of a new block changes, whichever of the two it is.
structure LinkSpec (m : Mount) (wrTarget : Store → PathResult → Store) (chain : List Nat)
    (tBlock : Nat) (disk : Store) (file : CachedFile) (linked : Store × CachedFile) : Prop where
  data : ∀ block offset, DataBlock m block →
    linked.1 (blockLoc block + offset) = disk (blockLoc block + offset)
  fat : ∀ block, block < m.blocks →
    fat linked.1 m block = if chain.getLast? = some block then tBlock else fat disk m block
  directory : ∀ address, m.dirstart * BYTES_PER_BLOCK ≤ address →
    linked.1 address = (if chain = [] then wrTarget disk linked.2.pathResult else disk) address
  cachedBlock : linked.2.cachedBlock = file.cachedBlock
  cacheStatus : linked.2.cacheStatus = file.cacheStatus
  cache : linked.2.cache = file.cache
  path : linked.2.path = file.path
  pathResult : linked.2.pathResult =
    if chain = [] then
      { file.pathResult with target := { file.pathResult.target with payload := tBlock } }
    else file.pathResult

theorem link_spec (hgeometry : Geometry m) (hdata : ∀ block ∈ chain, DataBlock m block)
    (hblock : DataBlock m tBlock) (hkeeps : KeepsToDirectory m wrTarget file) :
    LinkSpec m wrTarget chain tBlock disk file
      (link (storeAccess wrTarget) m disk { file with allocMap := chain ++ [tBlock] }
        chain.length tBlock) := by
  have htBlock : tBlock < 2 ^ 64 := by
    have hdevice := hgeometry.device_le
    have hlt := hblock.2
    simp only [BYTES_PER_BLOCK] at hdevice
    omega
  by_cases hnil : chain = []
  · subst hnil
    have hsame := hkeeps disk
      { file.pathResult with target := { file.pathResult.target with payload := tBlock } } rfl rfl
    refine ⟨?_, ?_, fun _ _ => rfl, rfl, rfl, rfl, rfl, rfl⟩
    · intro block offset hblock
      have habove := (data_above_directory hgeometry hblock).1
      exact hsame _ (Or.inr (by omega))
    · intro block hlt
      rw [List.getLast?_nil, if_neg (by simp)]
      exact fat_congr hgeometry hlt fun address hlow => hsame address (Or.inl hlow)
  · have hlength : chain.length ≠ 0 := fun h => hnil (List.length_eq_zero_iff.mp h)
    have hlast : CachedFile.block { file with allocMap := chain ++ [tBlock] } (chain.length - 1) =
        chain.getLast hnil := by
      rw [CachedFile.block, List.getD_append _ _ _ _ (by omega),
        List.getD_eq_getElem _ _ (by omega), List.getLast_eq_getElem]
    have hmem := hdata _ (List.getLast_mem hnil)
    rw [link, if_neg hlength, hlast]
    refine ⟨?_, ?_, ?_, rfl, rfl, rfl, rfl, ?_⟩
    · intro block offset hblock
      exact wrQword_fat_data hgeometry hmem.2 hblock _ _
    · intro block hlt
      show fat (wrQword disk _ _) m block = _
      rw [fat_wrQword hgeometry hlt hmem.2 htBlock, List.getLast?_eq_getLast_of_ne_nil hnil]
      by_cases heq : block = chain.getLast hnil
      · rw [if_pos heq, if_pos (by rw [heq])]
      · rw [if_neg heq, if_neg]
        intro hsome
        exact heq (Option.some.inj hsome).symm
    · intro address hhigh
      have hbelow := (fatLoc_eq hgeometry hmem.2).2
      rw [if_neg hnil]
      exact write_outside _ _ _ _ (by rw [leBytes_length]; omega)
    · rw [if_neg hnil]

-- The file with a new block of zeros after the others.
structure Grew (m : Mount) (wrTarget : Store → PathResult → Store) (chain : List Nat) (tBlock : Nat)
    (before after : Store × CachedFile) : Prop where
  ok : FileOk m after.1 after.2 (chain ++ [tBlock])
  old : ∀ pos, pos / BYTES_PER_BLOCK < chain.length →
    contents after.1 after.2 pos = contents before.1 before.2 pos
  new : ∀ pos, pos / BYTES_PER_BLOCK = chain.length → contents after.1 after.2 pos = 0
  data : ∀ block, DataBlock m block → block ≠ tBlock → ∀ offset, offset < BYTES_PER_BLOCK →
    after.1 (blockLoc block + offset) = before.1 (blockLoc block + offset)
  fat : ∀ block, block < m.blocks → fat after.1 m block =
    if block = tBlock then END_OF_CHAIN
    else if chain.getLast? = some block then tBlock else fat before.1 m block
  directory : ∀ address, m.dirstart * BYTES_PER_BLOCK ≤ address →
    address < m.datastart * BYTES_PER_BLOCK → after.1 address =
      (if chain = [] then wrTarget before.1 after.2.pathResult else before.1) address
  path : after.2.path = before.2.path
  pathResult : after.2.pathResult =
    if chain = [] then
      { before.2.pathResult with target := { before.2.pathResult.target with payload := tBlock } }
    else before.2.pathResult

theorem LinkSpec.grew (hgeometry : Geometry m) (hok : FileOk m disk file chain)
    (hblock : DataBlock m tBlock) (hfresh : tBlock ∉ chain) {linked : Store × CachedFile}
    (hlink : LinkSpec m wrTarget chain tBlock disk file linked) :
    Grew m wrTarget chain tBlock (disk, file)
      (blit (wrQword linked.1 (fatLoc m tBlock) END_OF_CHAIN) (blockLoc tBlock) BYTES_PER_BLOCK
        fun _ => 0, { linked.2 with allocMap := chain ++ [tBlock] ++ [END_OF_CHAIN] }) := by
  obtain ⟨hdata, hfat, hdirectory, hcachedBlock, hstatus, hcache, hpath, hresult⟩ := hlink
  have hothers : ∀ block, DataBlock m block → block ≠ tBlock → ∀ offset, offset < BYTES_PER_BLOCK →
      blit (wrQword linked.1 (fatLoc m tBlock) END_OF_CHAIN) (blockLoc tBlock) BYTES_PER_BLOCK
        (fun _ => 0) (blockLoc block + offset) = disk (blockLoc block + offset) := by
    intro block hother hne offset hoffset
    rw [blit_other_block hgeometry hblock hother (Ne.symm hne) _ hoffset,
      wrQword_fat_data hgeometry hblock.2 hother, hdata block offset hother]
  -- the blocks the file had keep their bytes and their numbers
  have hsame : ∀ block ∈ chain, ∀ offset, offset < BYTES_PER_BLOCK →
      blit (wrQword linked.1 (fatLoc m tBlock) END_OF_CHAIN) (blockLoc tBlock) BYTES_PER_BLOCK
        (fun _ => 0) (blockLoc block + offset) = disk (blockLoc block + offset) :=
    fun block hmem => hothers block (hok.data block hmem) fun heq => hfresh (heq ▸ hmem)
  have hindex : ∀ index, index < chain.length →
      (chain ++ [tBlock] ++ [END_OF_CHAIN]).getD index 0 = file.block index := by
    intro index hlt
    rw [hok.block_eq hlt, List.append_assoc, List.getD_append _ _ _ _ hlt,
      List.getD_eq_getElem _ _ hlt]
  have hlast : (chain ++ [tBlock] ++ [END_OF_CHAIN]).getD chain.length 0 = tBlock := by
    rw [List.append_assoc, List.getD_append_right _ _ _ _ (Nat.le_refl _), Nat.sub_self]
    rfl
  have hcached : ∀ index, cached { linked.2 with
      allocMap := chain ++ [tBlock] ++ [END_OF_CHAIN] } index = cached file index := by
    intro index
    simp only [cached, hcachedBlock, hstatus]
  refine ⟨⟨rfl, ?_, ?_, ?_, ?_⟩, ?_, ?_, hothers, ?_, ?_, hpath, hresult⟩
  · exact List.nodup_append_comm.mp (List.nodup_cons.mpr ⟨hfresh, hok.nodup⟩)
  · intro block hmem
    rcases List.mem_append.mp hmem with hold | hnew
    · exact hok.data block hold
    · rw [List.mem_singleton.mp hnew]
      exact hblock
  · intro hready
    have hinside := hok.inside (hstatus ▸ hready)
    show linked.2.cachedBlock < (chain ++ [tBlock]).length
    rw [hcachedBlock, List.length_append]
    omega
  · intro hready offset hoffset
    have hready : file.cacheStatus = .ready := hstatus ▸ hready
    have hinside := hok.inside (by rw [hready]; decide)
    unfold CachedFile.block
    dsimp only
    rw [hcachedBlock, hindex _ hinside, hsame _ (hok.block_mem hinside) offset hoffset, hcache]
    exact hok.clean hready offset hoffset
  · intro pos hpos
    unfold contents
    dsimp only
    rw [hcached, hcache, CachedFile.block, hindex _ hpos,
      hsame _ (hok.block_mem hpos) _ (mod_block_lt pos)]
  · intro pos hpos
    unfold contents
    dsimp only
    rw [hcached, if_neg, CachedFile.block, hpos, hlast]
    · exact blit_inside _ _ _ _ _ (mod_block_lt pos)
    · intro hhit
      obtain ⟨hstatus, hindex⟩ := cached_iff.mp hhit
      have hinside := hok.inside hstatus
      omega
  · intro block hlt
    have hlow := data_above_directory hgeometry hblock
    have hbelow : ∀ address, address < m.dirstart * BYTES_PER_BLOCK →
        blit (wrQword linked.1 (fatLoc m tBlock) END_OF_CHAIN) (blockLoc tBlock) BYTES_PER_BLOCK
          (fun _ => 0) address = wrQword linked.1 (fatLoc m tBlock) END_OF_CHAIN address :=
      fun address haddress => blit_outside _ _ _ _ _ (by omega)
    rw [fat_congr hgeometry hlt hbelow, fat_wrQword hgeometry hlt hblock.2 (by decide), hfat block hlt]
  · intro address hlow hhigh
    have habove := (data_above_directory hgeometry hblock).1
    have hbelow := (fatLoc_eq hgeometry hblock.2).2
    rw [← hdirectory address hlow]
    dsimp only
    rw [blit_outside _ _ _ _ _ (by omega)]
    exact write_outside _ _ _ _ (by rw [leBytes_length]; omega)

theorem grow_one (hgeometry : Geometry m) (hok : FileOk m disk file chain)
    (hblock : DataBlock m tBlock) (hfresh : tBlock ∉ chain)
    (hkeeps : KeepsToDirectory m wrTarget file)
    (hfound : freeBlockFrom (storeAccess wrTarget) m FAT_LOOP disk 0 = some (tBlock, disk)) :
    ∃ after, grow (storeAccess wrTarget) m disk file chain.length (chain.length + 1) = some after ∧
      Grew m wrTarget chain tBlock (disk, file) after := by
  have hend := hblock.ne_end hgeometry
  exact ⟨_, grow_one_eq _ hok.allocMap hend hfound rfl,
    (link_spec hgeometry hok.data hblock hkeeps).grew hgeometry hok hblock hfresh⟩

-- The blocks added before stay where they are in the allocation map.
theorem growBlocks_take {σ : Type} (io : Access σ) {dev : σ} {count i : Nat} {after : σ × CachedFile}
    (hgrown : growBlocks io m count dev file i = some after) (hlength : i ≤ file.allocMap.length) :
    after.2.allocMap.take i = file.allocMap.take i := by
  induction count generalizing dev file i with
  | zero =>
      cases hgrown
      rfl
  | succ count ih =>
      rw [growBlocks, growBlock] at hgrown
      obtain ⟨linked, hlinked, hrest⟩ := Option.bind_eq_some_iff.mp hgrown
      obtain ⟨found, -, hlink⟩ := Option.map_eq_some_iff.mp hlinked
      have hmap : linked.2.allocMap = file.allocMap.take i ++ [found.1] := by
        rw [← hlink, link_allocMap]
      have hlen : (file.allocMap.take i).length = i := List.length_take_of_le hlength
      have hkept := ih hrest (by rw [hmap, List.length_append, hlen, List.length_singleton])
      have hprefix := congrArg (List.take i) hkept
      rw [List.take_take, List.take_take, Nat.min_eq_left (by omega), hmap,
        List.take_append_of_le_length (by omega), List.take_take, Nat.min_self] at hprefix
      exact hprefix

theorem putByte_allocMap {σ : Type} (io : Access σ) (dev : σ) (val : UInt8) (loc : Nat) :
    (putByte io dev file val loc).2.allocMap = file.allocMap := by
  unfold putByte
  dsimp only
  split
  · rfl
  · rfl

-- A block is not marked as used before its successor is linked, so the next turn of the
-- loop finds it again.
theorem freeBlock_again (hgeometry : Geometry m) (hblock : DataBlock m tBlock)
    (hfresh : tBlock ∉ chain) {linked : Store × CachedFile}
    (hlink : LinkSpec m wrTarget chain tBlock disk file linked)
    (hfound : freeBlockFrom (storeAccess wrTarget) m FAT_LOOP disk 0 = some (tBlock, disk))
    {again : Nat × Store}
    (hagain : freeBlockFrom (storeAccess wrTarget) m FAT_LOOP linked.1 0 = some again) :
    again.1 = tBlock := by
  obtain ⟨-, hfree, -, hbefore⟩ := freeBlock_spec hfound
  obtain ⟨-, hfree', -, hbefore'⟩ := freeBlock_spec hagain
  have hpos := hgeometry.data_pos
  have hlow := hblock.1
  have hlt := hblock.2
  have hstill : fat linked.1 m tBlock = 0 := by
    rw [hlink.fat tBlock hlt, if_neg]
    · exact hfree
    · intro hlast
      exact hfresh (List.mem_of_getLast? hlast)
  have hused : ∀ block, block < tBlock → fat linked.1 m block ≠ 0 := by
    intro block hless
    rw [hlink.fat block (by omega)]
    split
    · omega
    · exact hbefore block (Nat.zero_le _) hless
  rcases Nat.lt_trichotomy again.1 tBlock with hless | hsame | hmore
  · exact absurd hfree' (hused again.1 hless)
  · exact hsame
  · exact absurd hstill (hbefore' tBlock (Nat.zero_le _) hmore)

-- Growing by two blocks or more puts one block twice into the allocation map.
theorem grow_repeats (hgeometry : Geometry m) (hok : FileOk m disk file chain)
    (hblock : DataBlock m tBlock) (hfresh : tBlock ∉ chain)
    (hkeeps : KeepsToDirectory m wrTarget file)
    (hfound : freeBlockFrom (storeAccess wrTarget) m FAT_LOOP disk 0 = some (tBlock, disk))
    {new : Nat} (hnew : chain.length + 2 ≤ new) {after : Store × CachedFile}
    (hafter : grow (storeAccess wrTarget) m disk file chain.length new = some after) :
    after.2.allocMap.take (chain.length + 2) = chain ++ [tBlock] ++ [tBlock] := by
  obtain ⟨count, hcount⟩ : ∃ count, new - chain.length = count + 2 :=
    ⟨new - chain.length - 2, by omega⟩
  obtain ⟨grown, hgrown, hput⟩ := Option.map_eq_some_iff.mp hafter
  have hlink : LinkSpec m wrTarget chain tBlock disk file _ :=
    link_spec hgeometry hok.data hblock hkeeps
  have hfirst : (chain ++ [END_OF_CHAIN]).take chain.length = chain := List.take_left
  rw [hcount, growBlocks, growBlock, hfound, Option.map_some, Option.bind_some, hok.allocMap,
    hfirst] at hgrown
  have hmap : (link (storeAccess wrTarget) m disk { file with allocMap := chain ++ [tBlock] }
      chain.length tBlock).2.allocMap = chain ++ [tBlock] := link_allocMap _ _ _
  generalize link (storeAccess wrTarget) m disk { file with allocMap := chain ++ [tBlock] }
    chain.length tBlock = linked at hlink hgrown hmap
  rw [growBlocks, growBlock] at hgrown
  obtain ⟨second, hsecond, hrest⟩ := Option.bind_eq_some_iff.mp hgrown
  obtain ⟨found, hagain, hsecond⟩ := Option.map_eq_some_iff.mp hsecond
  have htwice : second.2.allocMap = chain ++ [tBlock] ++ [tBlock] := by
    rw [← hsecond, link_allocMap, freeBlock_again hgeometry hblock hfresh hlink hfound hagain]
    dsimp only
    rw [hmap, List.take_of_length_le (by simp)]
  have hlength : second.2.allocMap.length = chain.length + 2 := by
    rw [htwice]
    simp
  have hprefix := growBlocks_take _ hrest (by omega)
  rw [List.take_of_length_le (by omega : second.2.allocMap.length ≤ chain.length + 1 + 1),
    htwice] at hprefix
  have hlong : chain.length + 2 ≤ grown.2.allocMap.length := by
    have := congrArg List.length hprefix
    simp only [List.length_take, List.length_append, List.length_singleton] at this
    omega
  rw [← hput]
  dsimp only
  rw [List.take_append_of_le_length (by rw [List.length_take]; omega), List.take_take,
    Nat.min_eq_left hnew]
  exact hprefix

end EchidnaOS.Echfs
