import EchidnaOS.Echfs.Image
import EchidnaOS.Echfs.Directory.Ids
import Mathlib.Data.List.Perm.Subperm

namespace EchidnaOS.Echfs

open EchidnaOS.Lib.ByteStore

variable {disk next : Store} {m : Mount} {v : Volume} {entries : List Entry}
  {chains : Nat → List Nat} {chain : List Nat} {file : CachedFile} {path : Path}
  {entry target : Entry} {index block loc pos start : Nat}

-- What the driver keeps of a file that it has cached.
structure RecordOk (m : Mount) (disk : Store) (entries : List Entry) (chains : Nat → List Nat)
    (index : Nat) (file : CachedFile) : Prop where
  found : file.pathResult.notFound = false
  targetEntry : file.pathResult.targetEntry = index
  target : entries[index]? = some file.pathResult.target
  ok : FileOk m disk file (chains index)

-- A file of a well-formed image. If it is cached, its record is up to date.
structure Existing (m : Mount) (v : Volume) (entries : List Entry) (chains : Nat → List Nat)
    (path : Path) (index : Nat) : Prop where
  image : WellFormed m v.disk entries chains
  index_lt : index < entries.length
  isFile : entries[index].IsFile
  parentExists : (pathResolver v.disk m path FILE_TYPE).failure = false
  found : (pathResolver v.disk m path FILE_TYPE).notFound = false
  resolves : (pathResolver v.disk m path FILE_TYPE).targetEntry = index
  record : ∀ file ∈ v.cachedFiles, file.path = path → RecordOk m v.disk entries chains index file

-- The byte of the file at a position, as the driver finds it.
def fileByte (v : Volume) (m : Mount) (path : Path) (pos : Nat) : UInt8 :=
  ((cacheFile v m path).map fun found => contents v.disk found.2.1 pos).getD 0

-- The image is well formed, and the chain of the file has the blocks that `size` bytes need
-- and is the cached one.
def Stored (m : Mount) (v : Volume) (path : Path) (index size : Nat) : Prop :=
  ∃ entries chains, WellFormed m v.disk entries chains ∧
    ∃ h : index < entries.length, entries[index].IsFile ∧
      (chains index).length = blockCount size ∧ (chains index).Nodup ∧
      ∃ slot file, findCached v.cachedFiles path = some slot ∧ v.cachedFiles[slot]? = some file ∧
        file.allocMap = chains index ++ [END_OF_CHAIN]

-- What a write at `loc` owes, and zeros between the old end and `loc`.
structure Grown (m : Mount) (next : Volume) (path : Path) (index size loc : Nat) : Prop where
  stored : Stored m next path index (max size (loc + 1))
  zeros : ∀ pos, size ≤ pos → pos < loc → ∃ after, echfsRead next m path pos = some (0, after)

theorem RecordOk.entry_eq (hrecord : RecordOk m disk entries chains index file)
    (hindex : index < entries.length) : entries[index] = file.pathResult.target := by
  have htarget := hrecord.target
  rw [List.getElem?_eq_getElem hindex] at htarget
  exact Option.some.inj htarget

theorem allocMapFrom_linked (hlinked : Linked disk m start chain)
    (hne : ∀ block ∈ chain, block ≠ END_OF_CHAIN) {fuel : Nat} (hfuel : chain.length < fuel) :
    allocMapFrom disk m fuel start = some (chain ++ [END_OF_CHAIN]) := by
  induction chain generalizing start fuel with
  | nil =>
      obtain ⟨fuel, rfl⟩ := Nat.exists_eq_succ_of_ne_zero (Nat.ne_zero_of_lt hfuel)
      rw [allocMapFrom, if_pos (show start = END_OF_CHAIN from hlinked)]
      rfl
  | cons head rest ih =>
      obtain ⟨fuel, rfl⟩ := Nat.exists_eq_succ_of_ne_zero (Nat.ne_zero_of_lt hfuel)
      rw [List.length_cons] at hfuel
      have hrest := @ih _ hlinked.2 (fun block hmem => hne block (List.mem_cons_of_mem _ hmem)) fuel
        (by omega)
      have hhead := hne head List.mem_cons_self
      rw [allocMapFrom, hlinked.1, if_neg hhead]
      rw [fat] at hrest
      rw [hrest]
      rfl

-- The entry the path resolver finds is the one of the directory.
theorem Existing.target_eq (hfile : Existing m v entries chains path index) :
    entries[index]? = some (pathResolver v.disk m path FILE_TYPE).target := by
  have hroot : path.text ≠ [47] := by
    intro hslash
    have hparent := hfile.parentExists
    rw [pathResolver, if_neg (fun h => file_ne_directory h.1), if_pos ⟨rfl, hslash⟩] at hparent
    exact nomatch hparent
  have hresolved := pathResolver_resolved hfile.image.table hroot hfile.parentExists
  obtain ⟨hlt, hentry, -, -⟩ := hresolved.target hfile.found
  rw [← hentry, ← List.getElem?_eq_getElem hlt, hfile.resolves]

-- The record of a file that is cached for the first time.
theorem Existing.newRecord (hfile : Existing m v entries chains path index) :
    ∃ file, newCachedFile v.disk m path = some file ∧ file.path = path ∧
      RecordOk m v.disk entries chains index file := by
  have hgeometry := hfile.image.geometry
  have hindex := hfile.index_lt
  have hchain := hfile.image.files index hindex hfile.isFile
  have htarget := hfile.target_eq
  have hresolves := hfile.resolves
  have hfound := hfile.found
  unfold newCachedFile
  generalize pathResolver v.disk m path FILE_TYPE = result at *
  have hentry : entries[index] = result.target := by
    rw [List.getElem?_eq_getElem hindex] at htarget
    exact Option.some.inj htarget
  have hlength := chain_length_le hchain.data hchain.nodup
  have hdevice := hgeometry.device_le
  simp only [BYTES_PER_BLOCK] at hdevice
  have hmap : allocMapFrom v.disk m CHAIN_LOOP result.target.payload =
      some (chains index ++ [END_OF_CHAIN]) := by
    rw [← hentry]
    refine allocMapFrom_linked hchain.linked
      (fun block hmem => (hchain.data block hmem).ne_end hgeometry) ?_
    simp only [CHAIN_LOOP]
    omega
  dsimp only
  rw [hmap]
  refine ⟨_, rfl, rfl, hfound, hresolves, htarget, ⟨rfl, hchain.nodup, hchain.data, ?_, ?_⟩⟩
  · intro hstatus
    exact absurd rfl hstatus
  · intro hstatus
    cases hstatus

theorem Existing.cacheFile (hfile : Existing m v entries chains path index) :
    ∃ slot file after, cacheFile v m path = some (slot, file, after) ∧ after.disk = v.disk ∧
      RecordOk m v.disk entries chains index file ∧ file.path = path ∧
      after.cachedFiles[slot]? = some file ∧ findCached after.cachedFiles path = some slot := by
  unfold Echfs.cacheFile
  cases hcached : findCached v.cachedFiles path with
  | some slot =>
      obtain ⟨hlt, hpath, -⟩ := List.findIdx?_eq_some_iff_getElem.mp hcached
      have hpath : v.cachedFiles[slot].path = path := of_decide_eq_true hpath
      have hget : v.cachedFiles[slot]? = some v.cachedFiles[slot] := List.getElem?_eq_getElem hlt
      refine ⟨slot, v.cachedFiles[slot], v, ?_, rfl, ?_, hpath, hget, hcached⟩
      · simp only [hget, Option.map_some]
      · exact hfile.record _ (List.getElem_mem hlt) hpath
  | none =>
      obtain ⟨file, hnew, hpath, hrecord⟩ := hfile.newRecord
      refine ⟨v.cachedFiles.length, file, { v with cachedFiles := v.cachedFiles ++ [file] }, ?_, rfl,
        hrecord, hpath, ?_, ?_⟩
      · simp only [hnew, Option.map_some]
      · simp
      · unfold findCached at hcached ⊢
        rw [List.findIdx?_append, hcached]
        simp [hpath]

-- The blocks of a file and the free ones are distinct blocks of the image after the first.
theorem chain_add_free_lt (hwf : WellFormed m disk entries chains) (hindex : index < entries.length)
    (hisFile : entries[index].IsFile) :
    (chains index).length + freeBlocks m disk < m.blocks := by
  have hgeometry := hwf.geometry
  have hchain := hwf.files index hindex hisFile
  have hpos := hgeometry.data_pos
  have hle := hgeometry.data_le
  have hfree : ∀ block ∈ (List.range m.blocks).filter fun block => fat disk m block = 0,
      block < m.blocks ∧ fat disk m block = 0 := by
    intro block hmem
    obtain ⟨hlt, hzero⟩ := List.mem_filter.mp hmem
    exact ⟨List.mem_range.mp hlt, of_decide_eq_true hzero⟩
  have hnodup : (0 :: (chains index ++
      (List.range m.blocks).filter fun block => fat disk m block = 0)).Nodup := by
    refine List.nodup_cons.mpr ⟨?_, List.nodup_append'.mpr
      ⟨hchain.nodup, List.nodup_range.filter _, ?_⟩⟩
    · intro hmem
      rcases List.mem_append.mp hmem with hold | hnew
      · have := (hchain.data 0 hold).1
        omega
      · exact hwf.reserved 0 hpos (hfree 0 hnew).2
    · intro block hold hnew
      exact hchain.fat_ne_zero hgeometry hold (hfree block hnew).2
  have hsubset : 0 :: (chains index ++
      (List.range m.blocks).filter fun block => fat disk m block = 0) ⊆ List.range m.blocks := by
    intro block hmem
    rw [List.mem_range]
    rcases List.mem_cons.mp hmem with hzero | hrest
    · omega
    · rcases List.mem_append.mp hrest with hold | hnew
      · exact (hchain.data block hold).2
      · exact (hfree block hnew).1
  have hlength := (List.subperm_of_subset hnodup hsubset).length_le
  rw [List.length_cons, List.length_append, List.length_range, ← List.countP_eq_length_filter]
    at hlength
  exact hlength

-- A location the image has room for is far from the end of 64-bit numbers.
theorem Existing.loc_lt (hfile : Existing m v entries chains path index)
    (hspace : blockCount (loc + 1) - (chains index).length ≤ freeBlocks m v.disk) :
    loc + 1 < 2 ^ 64 := by
  have hroom := chain_add_free_lt hfile.image hfile.index_lt hfile.isFile
  have hdevice := hfile.image.geometry.device_le
  have hle := le_blockCount_mul (loc + 1)
  simp only [BYTES_PER_BLOCK] at hdevice hle
  omega

-- The state after the size of the file is set.
structure Extended (m : Mount) (entries : List Entry) (index : Nat) (chain : List Nat) (loc : Nat)
    (before after : Store × CachedFile) : Prop where
  ok : FileOk m after.1 after.2 chain
  bytes : ∀ pos, pos / BYTES_PER_BLOCK < chain.length →
    contents after.1 after.2 pos = contents before.1 before.2 pos
  fat : ∀ block, block < m.blocks → fat after.1 m block = fat before.1 m block
  table : Table m after.1 (entries.set index after.2.pathResult.target)
  path : after.2.path = before.2.path
  pathResult : after.2.pathResult = { before.2.pathResult with
    target := { before.2.pathResult.target with
      size := max before.2.pathResult.target.size (loc + 1) } }

theorem extend_spec (hwf : WellFormed m disk entries chains) (hindex : index < entries.length)
    (hrecord : RecordOk m disk entries chains index file) (hloc : loc + 1 < 2 ^ 64) :
    Extended m entries index (chains index) loc (disk, file)
      (extend (byteAccess m) disk file loc) := by
  have hgeometry := hwf.geometry
  have htarget := hrecord.entry_eq hindex
  have hfits := hwf.table.fits _ (List.getElem_mem hindex)
  have hparent := hwf.table.parents _ (List.getElem_mem hindex)
  have hroom := hwf.table.room
  rw [htarget] at hfits hparent
  unfold extend
  by_cases hgrows : file.pathResult.target.size ≤ loc
  · rw [if_pos hgrows, Nat.mod_eq_of_lt hloc]
    have hkeeps : KeepsToDirectory m (wrTargetEntry m) file :=
      wrTargetEntry_keeps hgeometry (by rw [hrecord.targetEntry]; omega) hfits.name_lt
    have hsame := hkeeps disk { file.pathResult with
      target := { file.pathResult.target with size := loc + 1 } } rfl rfl
    have hdata : ∀ block ∈ chains index, ∀ offset, offset < BYTES_PER_BLOCK →
        wrTargetEntry m disk { file.pathResult with
          target := { file.pathResult.target with size := loc + 1 } } (blockLoc block + offset) =
        disk (blockLoc block + offset) := by
      intro block hmem offset _
      have habove := (data_above_directory hgeometry (hrecord.ok.data block hmem)).1
      exact hsame _ (Or.inr (by omega))
    have hok : FileOk m disk (file.setTarget { file.pathResult.target with size := loc + 1 })
        (chains index) := ⟨hrecord.ok.allocMap, hrecord.ok.nodup, hrecord.ok.data,
      hrecord.ok.inside, hrecord.ok.clean⟩
    have hmax : max file.pathResult.target.size (loc + 1) = loc + 1 := by omega
    refine ⟨hok.of_disk hdata, ?_, ?_, ?_, rfl, ?_⟩
    · intro pos hpos
      exact hok.contents_of_disk hdata hpos
    · intro block hlt
      exact fat_congr hgeometry hlt fun address hlow => hsame address (Or.inl hlow)
    · show Table m (wrEntry disk m file.pathResult.targetEntry _) _
      rw [hrecord.targetEntry]
      exact hwf.table.set hgeometry.directoryFits hindex
        ⟨hfits.parentId_lt, hfits.payload_lt, hloc, hfits.name_lt, hfits.name_ne⟩ hparent
    · show CachedFile.pathResult _ = { file.pathResult with target :=
        { file.pathResult.target with size := max file.pathResult.target.size (loc + 1) } }
      rw [hmax]
      rfl
  · rw [if_neg hgrows]
    refine ⟨hrecord.ok, fun _ _ => rfl, fun _ _ => rfl, ?_, rfl, ?_⟩
    · rw [← htarget, List.set_getElem_self]
      exact hwf.table
    · have hmax : max file.pathResult.target.size (loc + 1) = file.pathResult.target.size := by omega
      show file.pathResult = { file.pathResult with target :=
        { file.pathResult.target with size := max file.pathResult.target.size (loc + 1) } }
      rw [hmax]

-- The state in which the byte is put: the file has the blocks `blocks` in place of `chain`.
structure Ready (m : Mount) (entries : List Entry) (index : Nat) (chain blocks : List Nat)
    (loc : Nat) (before ready : Store × CachedFile) : Prop where
  ok : FileOk m ready.1 ready.2 blocks
  old : ∀ pos, pos / BYTES_PER_BLOCK < chain.length →
    contents ready.1 ready.2 pos = contents before.1 before.2 pos
  new : ∀ pos, chain.length ≤ pos / BYTES_PER_BLOCK → pos / BYTES_PER_BLOCK < blocks.length →
    contents ready.1 ready.2 pos = 0
  table : Table m ready.1 (entries.set index ready.2.pathResult.target)
  linked : Linked ready.1 m ready.2.pathResult.target.payload blocks
  fat : ∀ block, block < m.blocks → block ∉ blocks → fat ready.1 m block = fat before.1 m block
  fresh : ∀ block ∈ blocks, block ∈ chain ∨ Echfs.fat before.1 m block = 0
  length : blocks.length = blockCount (max before.2.pathResult.target.size (loc + 1))
  target : ready.2.pathResult.target = { before.2.pathResult.target with
    size := max before.2.pathResult.target.size (loc + 1)
    payload := ready.2.pathResult.target.payload }
  found : ready.2.pathResult.notFound = before.2.pathResult.notFound
  path : ready.2.path = before.2.path

theorem Extended.ready (hchain : FileChain m disk entry chain)
    (hentry : entry = file.pathResult.target) (hgeometry : Geometry m) {after : Store × CachedFile}
    (hextended : Extended m entries index chain loc (disk, file) after)
    (hnew : blockCount (loc + 1) ≤ chain.length) :
    Ready m entries index chain chain loc (disk, file) after := by
  have hsize := hchain.length
  rw [hentry] at hsize
  obtain ⟨hok, hbytes, hfat, htable, hpath, hresult⟩ := hextended
  refine ⟨hok, hbytes, ?_, htable, ?_, ?_, ?_, ?_, ?_, ?_, hpath⟩
  · intro pos hlow hhigh
    omega
  · rw [hresult, ← hentry]
    exact hchain.linked.congr fun block hmem => hfat block (hchain.data block hmem).2
  · intro block hlt _
    exact hfat block hlt
  · exact fun block hmem => Or.inl hmem
  · rw [blockCount_max]
    dsimp only
    omega
  · rw [hresult]
  · rw [hresult]

theorem Grew.ready {tBlock : Nat} (hchain : FileChain m disk entry chain)
    (hentry : entry = file.pathResult.target) (hgeometry : Geometry m)
    (hindex : index < entries.length) (htargetEntry : file.pathResult.targetEntry = index)
    {extended after : Store × CachedFile}
    (hextended : Extended m entries index chain loc (disk, file) extended)
    (hgrew : Grew m (wrTargetEntry m) chain tBlock extended after)
    (hblock : DataBlock m tBlock) (hzero : Echfs.fat disk m tBlock = 0) (hfresh : tBlock ∉ chain)
    (hnew : blockCount (loc + 1) = chain.length + 1) :
    Ready m entries index chain (chain ++ [tBlock]) loc (disk, file) after := by
  have hsize := hchain.length
  rw [hentry] at hsize
  have hblocks : (chain ++ [tBlock]).length = chain.length + 1 := by simp
  have hextendedFat := hextended.fat
  have hfat := hgrew.fat
  have hresult := hgrew.pathResult
  have hextendedResult := hextended.pathResult
  -- the entry on disk is the one of the record, whether or not the first block was linked
  have htable : Table m after.1 (entries.set index after.2.pathResult.target) := by
    refine Table.of_same hgeometry ?_ hgrew.directory
    by_cases hnil : chain = []
    · rw [if_pos hnil]
      have hlt : index < (entries.set index extended.2.pathResult.target).length := by
        rw [List.length_set]
        exact hindex
      have hmem : extended.2.pathResult.target ∈ entries.set index extended.2.pathResult.target :=
        List.mem_set hindex _
      have hfits := hextended.table.fits _ hmem
      have hparent := hextended.table.parents _ hmem
      have hdevice := hgeometry.device_le
      have hless := hblock.2
      rw [if_pos hnil] at hresult
      have hafterFits : after.2.pathResult.target.Fits := by
        rw [hresult]
        refine ⟨hfits.parentId_lt, ?_, hfits.size_lt, hfits.name_lt, hfits.name_ne⟩
        simp only [BYTES_PER_BLOCK] at hdevice
        dsimp only
        omega
      have hafterParent : after.2.pathResult.target.parentId ≠ 0 := by
        rw [hresult]
        exact hparent
      have hwritten := hextended.table.set hgeometry.directoryFits hlt hafterFits hafterParent
      rw [List.set_set] at hwritten
      have hentryIndex : after.2.pathResult.targetEntry = index := by
        rw [hresult, hextendedResult]
        exact htargetEntry
      unfold wrTargetEntry
      rw [hentryIndex]
      exact hwritten
    · rw [if_neg hnil] at hresult ⊢
      rw [hresult]
      exact hextended.table
  refine ⟨hgrew.ok, ?_, ?_, htable, ?_, ?_, ?_, ?_, ?_, ?_, hgrew.path.trans hextended.path⟩
  · intro pos hpos
    rw [hgrew.old pos hpos]
    exact hextended.bytes pos hpos
  · intro pos hlow hhigh
    exact hgrew.new pos (by omega)
  · have hlinked : Linked extended.1 m file.pathResult.target.payload chain := by
      rw [← hentry]
      exact hchain.linked.congr fun block hmem => hextendedFat block (hchain.data block hmem).2
    have hsuccessors : ∀ block ∈ chain, Echfs.fat after.1 m block =
        if chain.getLast? = some block then tBlock else Echfs.fat extended.1 m block := by
      intro block hmem
      rw [hfat block (hchain.data block hmem).2, if_neg]
      intro heq
      exact hfresh (heq ▸ hmem)
    have happend := hlinked.append hchain.nodup hsuccessors (by rw [hfat tBlock hblock.2, if_pos rfl])
    by_cases hnil : chain = []
    · rw [if_pos hnil] at happend hresult
      rw [hresult]
      exact happend
    · rw [if_neg hnil] at happend hresult
      rw [hresult, hextendedResult]
      exact happend
  · intro block hlt hout
    rw [List.mem_append, List.mem_singleton, not_or] at hout
    rw [hfat block hlt, if_neg hout.2, if_neg]
    · exact hextendedFat block hlt
    · intro hlast
      exact hout.1 (List.mem_of_getLast? hlast)
  · intro block hmem
    rcases List.mem_append.mp hmem with hold | hnew
    · exact Or.inl hold
    · rw [List.mem_singleton.mp hnew]
      exact Or.inr hzero
  · rw [hblocks, blockCount_max]
    dsimp only
    omega
  · by_cases hnil : chain = []
    · rw [if_pos hnil] at hresult
      rw [hresult, hextendedResult]
    · rw [if_neg hnil] at hresult
      rw [hresult, hextendedResult]
  · by_cases hnil : chain = []
    · rw [if_pos hnil] at hresult
      rw [hresult, hextendedResult]
    · rw [if_neg hnil] at hresult
      rw [hresult, hextendedResult]

-- A change to one file that takes at most free blocks leaves the others as they are.
theorem WellFormed.update (hwf : WellFormed m disk entries chains) (hindex : index < entries.length)
    (hisFile : entries[index].IsFile) {blocks : List Nat}
    (htable : Table m next (entries.set index target))
    (hchain : FileChain m next target blocks)
    (hfat : ∀ block, block < m.blocks → block ∉ blocks → fat next m block = fat disk m block)
    (hfresh : ∀ block ∈ blocks, block ∈ chains index ∨ fat disk m block = 0) :
    WellFormed m next (entries.set index target) (Function.update chains index blocks) := by
  have hgeometry := hwf.geometry
  -- the blocks of another file are none of the new ones
  have hapart : ∀ other (hother : other < entries.length), entries[other].IsFile → other ≠ index →
      ∀ block ∈ chains other, block ∉ blocks := by
    intro other hother hfile hne block hmem hnew
    rcases hfresh block hnew with hold | hzero
    · exact hwf.disjoint other index hother hindex hfile hisFile hne hmem hold
    · exact (hwf.files other hother hfile).fat_ne_zero hgeometry hmem hzero
  refine ⟨hgeometry, htable, ?_, ?_, ?_⟩
  · intro block hlow
    have hle := hgeometry.data_le
    rw [hfat block (by omega)]
    · exact hwf.reserved block hlow
    · intro hmem
      have := (hchain.data block hmem).1
      omega
  · intro other hother hfile
    rw [List.length_set] at hother
    by_cases heq : other = index
    · subst heq
      rw [List.getElem_set_self, Function.update_self]
      exact hchain
    · rw [List.getElem_set_ne (Ne.symm heq)] at hfile ⊢
      rw [Function.update_of_ne heq]
      have hold := hwf.files other hother hfile
      refine ⟨hold.data, hold.linked.congr ?_, hold.nodup, hold.length⟩
      intro block hmem
      exact hfat block (hold.data block hmem).2 (hapart other hother hfile heq block hmem)
  · intro first second hfirst hsecond hfile hfile' hne
    rw [List.length_set] at hfirst hsecond
    by_cases hleft : first = index
    · have hright : second ≠ index := fun h => hne (hleft.trans h.symm)
      rw [List.getElem_set_ne (Ne.symm hright)] at hfile'
      rw [hleft, Function.update_self, Function.update_of_ne hright]
      intro block hmem hmem'
      exact hapart second hsecond hfile' hright block hmem' hmem
    · rw [List.getElem_set_ne (Ne.symm hleft)] at hfile
      rw [Function.update_of_ne hleft]
      by_cases hright : second = index
      · rw [hright, Function.update_self]
        exact hapart first hfirst hfile hleft
      · rw [List.getElem_set_ne (Ne.symm hright)] at hfile'
        rw [Function.update_of_ne hright]
        exact hwf.disjoint first second hfirst hsecond hfile hfile' hne

-- Data blocks stand above the directory and the allocation table.
theorem SameOutside.below (hgeometry : Geometry m) {blocks : List Nat}
    (hdata : ∀ block ∈ blocks, DataBlock m block) (hsame : SameOutside blocks disk next)
    {address : Nat} (hlow : address < m.datastart * BYTES_PER_BLOCK) :
    next address = disk address := by
  apply hsame address
  intro block hmem
  have habove := (data_above_directory hgeometry (hdata block hmem)).1
  omega

theorem findCached_set {files : List CachedFile} {slot : Nat}
    (hfound : findCached files path = some slot) (hpath : file.path = path) :
    findCached (files.set slot file) path = some slot ∧ (files.set slot file)[slot]? = some file := by
  obtain ⟨hlt, -, hbefore⟩ := List.findIdx?_eq_some_iff_getElem.mp hfound
  refine ⟨List.findIdx?_eq_some_iff_getElem.mpr ⟨by rw [List.length_set]; exact hlt, ?_, ?_⟩,
    List.getElem?_set_self hlt⟩
  · rw [List.getElem_set_self]
    exact decide_eq_true hpath
  · intro other hother
    rw [List.getElem_set_ne (by omega)]
    exact hbefore other hother

-- Reading a cached file below its size gives its byte.
theorem echfsRead_contents (hgeometry : Geometry m) {slot : Nat}
    (hfound : findCached v.cachedFiles path = some slot) (hslot : v.cachedFiles[slot]? = some file)
    (hnotFound : file.pathResult.notFound = false) (hok : FileOk m v.disk file chain)
    (hpos : pos < file.pathResult.target.size) (hblock : pos / BYTES_PER_BLOCK < chain.length) :
    ∃ after, echfsRead v m path pos = some (((contents v.disk file pos).toNat : Int), after) := by
  have hcache : cacheFile v m path = some (slot, file, v) := by
    unfold cacheFile
    rw [hfound]
    dsimp only
    rw [hslot, Option.map_some]
  unfold echfsRead
  rw [hcache, Option.map_some]
  dsimp only
  rw [hnotFound, if_neg Bool.false_ne_true, if_neg (by omega),
    (readByte_spec hgeometry hok hblock).1]
  exact ⟨_, rfl⟩

-- Writing into a file that is ready: the image stays well formed and every byte but the one
-- written reads back as it was.
theorem Ready.write (hfile : Existing m v entries chains path index) {slot : Nat} {volume : Volume}
    (hvolume : findCached volume.cachedFiles path = some slot)
    (hrecord : RecordOk m v.disk entries chains index file) (hpath : file.path = path)
    {blocks : List Nat} {ready : Store × CachedFile}
    (hready : Ready m entries index (chains index) blocks loc (v.disk, file) ready) (val : UInt8)
    {next : Volume}
    (hnext : next = volume.update slot (putByte (byteAccess m) ready.1 ready.2 val loc)) :
    Stored m next path index (max file.pathResult.target.size (loc + 1)) ∧
    ∀ pos, file.pathResult.target.size ≤ pos → pos < loc → ∃ byte : UInt8, ∃ after,
      echfsRead next m path pos = some ((byte.toNat : Int), after) ∧
      byte = if pos / BYTES_PER_BLOCK < (chains index).length then contents v.disk file pos else 0 := by
  have hgeometry := hfile.image.geometry
  have hlength : blocks.length = blockCount (max file.pathResult.target.size (loc + 1)) :=
    hready.length
  have hinside : ∀ pos, pos ≤ loc → pos / BYTES_PER_BLOCK < blocks.length := by
    intro pos hpos
    rw [hlength]
    exact div_lt_blockCount (by omega)
  obtain ⟨hok, hsame, hresult, hkept, hbytes⟩ :=
    putByte_spec hgeometry hready.ok (hinside loc (Nat.le_refl _)) val rfl
  generalize putByte (byteAccess m) ready.1 ready.2 val loc = after at *
  subst hnext
  have hbelow : ∀ address, address < m.datastart * BYTES_PER_BLOCK →
      after.1 address = ready.1 address :=
    fun address => hsame.below hgeometry hready.ok.data
  have hdirectory := hgeometry.directory_fits
  have hfat : ∀ block, block < m.blocks →
      Echfs.fat after.1 m block = Echfs.fat ready.1 m block := by
    intro block hlt
    refine fat_congr hgeometry hlt fun address hlow => hbelow address ?_
    have := Nat.mul_le_mul_right BYTES_PER_BLOCK (Nat.le_of_add_right_le hdirectory)
    omega
  have hindex := hfile.index_lt
  have htarget := hrecord.entry_eq hindex
  obtain ⟨hcached, hslot⟩ := findCached_set hvolume (hkept.trans (hready.path.trans hpath))
  constructor
  · have hchain : FileChain m after.1 ready.2.pathResult.target blocks := by
      refine ⟨hready.ok.data, hready.linked.congr fun block hmem =>
        hfat block (hready.ok.data block hmem).2, hready.ok.nodup, ?_⟩
      rw [hready.target]
      exact hlength
    have htable : Table m after.1 (entries.set index ready.2.pathResult.target) :=
      hready.table.of_same hgeometry fun address _ hhigh => hbelow address hhigh
    have hwf := hfile.image.update hfile.index_lt hfile.isFile htable hchain
      (fun block hlt hout => (hfat block hlt).trans (hready.fat block hlt hout)) hready.fresh
    refine ⟨_, _, hwf, by rw [List.length_set]; exact hfile.index_lt, ?_, ?_, ?_, ?_⟩
    · rw [List.getElem_set_self, hready.target]
      exact htarget ▸ hfile.isFile
    · rw [Function.update_self]
      exact hlength
    · rw [Function.update_self]
      exact hready.ok.nodup
    · rw [Function.update_self]
      exact ⟨slot, after.2, hcached, hslot, hok.allocMap⟩
  · intro pos hlow hhigh
    have hfound : after.2.pathResult.notFound = false := by
      rw [hresult, hready.found]
      exact hrecord.found
    have hsize : pos < after.2.pathResult.target.size := by
      rw [hresult, hready.target]
      show pos < max file.pathResult.target.size (loc + 1)
      omega
    obtain ⟨last, hread⟩ := echfsRead_contents (v := volume.update slot after) hgeometry hcached hslot
      hfound hok hsize (hinside pos (by omega))
    refine ⟨_, last, hread, ?_⟩
    show contents after.1 after.2 pos = _
    rw [hbytes pos (hinside pos (by omega)), if_neg (by omega)]
    by_cases hold : pos / BYTES_PER_BLOCK < (chains index).length
    · rw [if_pos hold]
      exact hready.old pos hold
    · rw [if_neg hold]
      exact hready.new pos (by omega) (hinside pos (by omega))

-- What the growth of a file finds: a free data block, and a record that is written inside
-- the directory.
theorem Existing.canGrow (hfile : Existing m v entries chains path index)
    (hrecord : RecordOk m v.disk entries chains index file) {extended : Store × CachedFile}
    (hextended : Extended m entries index (chains index) loc (v.disk, file) extended)
    (hfree : 0 < freeBlocks m v.disk) :
    KeepsToDirectory m (wrTargetEntry m) extended.2 ∧
      ∃ tBlock, freeBlockFrom (byteAccess m) m FAT_LOOP extended.1 0 = some (tBlock, extended.1) ∧
        DataBlock m tBlock ∧ fat v.disk m tBlock = 0 ∧ tBlock ∉ chains index := by
  have hwf := hfile.image
  have hindex := hfile.index_lt
  have hroom := hwf.table.room
  have hfits := hwf.table.fits _ (List.getElem_mem hindex)
  rw [hrecord.entry_eq hindex] at hfits
  constructor
  · refine wrTargetEntry_keeps hwf.geometry ?_ ?_
    · rw [hextended.pathResult]
      show file.pathResult.targetEntry < capacity m
      rw [hrecord.targetEntry]
      omega
    · rw [hextended.pathResult]
      exact hfits.name_lt
  · obtain ⟨tBlock, hfound, hblock, hzero⟩ :=
      freeBlock_found hwf.geometry hwf.reserved hfree hextended.fat
    refine ⟨tBlock, hfound, hblock, hzero, fun hmem => ?_⟩
    exact (hwf.files index hindex hfile.isFile).fat_ne_zero hwf.geometry hmem hzero

-- writeByte with its two block counts in terms of the chain.
theorem Existing.writeByte_eq (hfile : Existing m v entries chains path index)
    (hrecord : RecordOk m v.disk entries chains index file) (hloc : loc + 1 < 2 ^ 64) (val : UInt8)
    {extended : Store × CachedFile} (hextended : extend (byteAccess m) v.disk file loc = extended) :
    writeByte (byteAccess m) m v.disk file val loc =
      (if (chains index).length < blockCount (loc + 1) then
        grow (byteAccess m) m extended.1 extended.2 (chains index).length (blockCount (loc + 1))
      else some extended).map fun grown => putByte (byteAccess m) grown.1 grown.2 val loc := by
  have hchain := hfile.image.files index hfile.index_lt hfile.isFile
  have hold : blockCount file.pathResult.target.size = (chains index).length := by
    rw [hchain.length, hrecord.entry_eq hfile.index_lt]
  unfold writeByte
  rw [hold, Nat.mod_eq_of_lt hloc, hextended]

-- Up to one new block, the growth leads to a state that is ready.
theorem Existing.writeByte_ready (hfile : Existing m v entries chains path index)
    (hrecord : RecordOk m v.disk entries chains index file)
    (hspace : blockCount (loc + 1) - (chains index).length ≤ freeBlocks m v.disk)
    (hone : blockCount (loc + 1) ≤ (chains index).length + 1) (val : UInt8) :
    ∃ blocks ready, Ready m entries index (chains index) blocks loc (v.disk, file) ready ∧
      writeByte (byteAccess m) m v.disk file val loc =
        some (putByte (byteAccess m) ready.1 ready.2 val loc) := by
  have hgeometry := hfile.image.geometry
  have hindex := hfile.index_lt
  have hloc := hfile.loc_lt hspace
  have hchain := hfile.image.files index hindex hfile.isFile
  have hentry := hrecord.entry_eq hindex
  have hextended := extend_spec hfile.image hindex hrecord hloc
  rw [hfile.writeByte_eq hrecord hloc val rfl]
  generalize extend (byteAccess m) v.disk file loc = extended at *
  by_cases hgrows : (chains index).length < blockCount (loc + 1)
  · have hnew : blockCount (loc + 1) = (chains index).length + 1 := by omega
    obtain ⟨hkeeps, tBlock, hfound, hblock, hzero, hfresh⟩ :=
      hfile.canGrow hrecord hextended (by omega)
    obtain ⟨after, hgrown, hgrew⟩ := grow_one hgeometry hextended.ok hblock hfresh hkeeps hfound
    rw [if_pos hgrows, hnew, hgrown]
    exact ⟨_, after, hgrew.ready hchain hentry hgeometry hindex hrecord.targetEntry hextended hblock
      hzero hfresh hnew, rfl⟩
  · rw [if_neg hgrows]
    exact ⟨_, extended, hextended.ready hchain hentry hgeometry (by omega), rfl⟩

theorem growBlocks_path {σ : Type} (io : Access σ) {dev : σ} {count i : Nat} {after : σ × CachedFile}
    (hgrown : growBlocks io m count dev file i = some after) : after.2.path = file.path := by
  induction count generalizing dev file i with
  | zero =>
      cases hgrown
      rfl
  | succ count ih =>
      obtain ⟨linked, hlinked, hrest⟩ := Option.bind_eq_some_iff.mp hgrown
      obtain ⟨found, -, hlink⟩ := Option.map_eq_some_iff.mp hlinked
      rw [ih hrest, ← hlink]
      unfold link
      split
      · rfl
      · rfl

theorem writeByte_path {σ : Type} (io : Access σ) {dev : σ} {val : UInt8} {after : σ × CachedFile}
    (hafter : writeByte io m dev file val loc = some after) : after.2.path = file.path := by
  have hextend : (extend io dev file loc).2.path = file.path := by
    unfold extend
    split
    · rfl
    · rfl
  have hput : ∀ grown : σ × CachedFile,
      (putByte io grown.1 grown.2 val loc).2.path = grown.2.path := by
    intro grown
    unfold putByte
    dsimp only
    split
    · rfl
    · rfl
  unfold writeByte at hafter
  obtain ⟨grown, hgrown, hafter⟩ := Option.map_eq_some_iff.mp hafter
  rw [← hafter, hput]
  split at hgrown
  · obtain ⟨added, hadded, hgrown⟩ := Option.map_eq_some_iff.mp hgrown
    rw [← hgrown]
    exact (growBlocks_path io hadded).trans hextend
  · rw [← Option.some.inj hgrown]
    exact hextend

-- Beyond that, one block is linked twice.
theorem Existing.writeByte_repeats (hfile : Existing m v entries chains path index)
    (hrecord : RecordOk m v.disk entries chains index file)
    (hspace : blockCount (loc + 1) - (chains index).length ≤ freeBlocks m v.disk)
    (hmany : (chains index).length + 2 ≤ blockCount (loc + 1)) {val : UInt8}
    {after : Store × CachedFile}
    (hafter : writeByte (byteAccess m) m v.disk file val loc = some after) :
    ∃ tBlock, after.2.allocMap.take ((chains index).length + 2) =
      chains index ++ [tBlock] ++ [tBlock] := by
  have hgeometry := hfile.image.geometry
  have hloc := hfile.loc_lt hspace
  have hextended := extend_spec hfile.image hfile.index_lt hrecord hloc
  rw [hfile.writeByte_eq hrecord hloc val rfl] at hafter
  generalize extend (byteAccess m) v.disk file loc = extended at *
  obtain ⟨hkeeps, tBlock, hfound, hblock, -, hfresh⟩ := hfile.canGrow hrecord hextended (by omega)
  rw [if_pos (by omega)] at hafter
  obtain ⟨grown, hgrown, hput⟩ := Option.map_eq_some_iff.mp hafter
  refine ⟨tBlock, ?_⟩
  rw [← hput, putByte_allocMap]
  exact grow_repeats hgeometry hextended.ok hblock hfresh hkeeps hfound hmany hgrown

-- A chain cannot start with two equal blocks after `front`.
theorem not_nodup_of_take {blocks front : List Nat} {tBlock : Nat}
    (hlength : front.length + 2 ≤ blocks.length)
    (htake : (blocks ++ [END_OF_CHAIN]).take (front.length + 2) = front ++ [tBlock] ++ [tBlock]) :
    ¬ blocks.Nodup := by
  intro hnodup
  rw [List.take_append_of_le_length hlength] at htake
  have hprefix : (blocks.take (front.length + 2)).Nodup := hnodup.sublist (List.take_sublist _ _)
  rw [htake, List.append_assoc] at hprefix
  exact absurd (List.Nodup.of_append_right hprefix) (by simp)

-- A write that succeeds does what the file system promises exactly when it adds at most one
-- block and the last block of the file holds zeros up to `loc`.
theorem echfs_write_grows_iff (hfile : Existing m v entries chains path index) {size : Nat}
    (hsize : (entries[index]?).map (·.size) = some size)
    (hspace : blockCount (loc + 1) - blockCount size ≤ freeBlocks m v.disk) (val : UInt8) :
    (∃ next, echfsWrite v m path val loc = some (SUCCESS, next) ∧
      Grown m next path index size loc) ↔
    blockCount (loc + 1) ≤ blockCount size + 1 ∧
      ∀ pos, size ≤ pos → pos < loc → pos / BYTES_PER_BLOCK < blockCount size →
        fileByte v m path pos = 0 := by
  obtain ⟨slot, file, volume, hcache, hdisk, hrecord, hpath, -, hfound⟩ := hfile.cacheFile
  have hchain := hfile.image.files index hfile.index_lt hfile.isFile
  have hentry := hrecord.entry_eq hfile.index_lt
  have hsize : file.pathResult.target.size = size := by
    rw [List.getElem?_eq_getElem hfile.index_lt, Option.map_some, hentry] at hsize
    exact Option.some.inj hsize
  have hlength : (chains index).length = blockCount size := by
    rw [hchain.length, hentry, hsize]
  have hbyte : ∀ pos, fileByte v m path pos = contents v.disk file pos := by
    intro pos
    rw [fileByte, hcache]
    rfl
  have hwrite : echfsWrite v m path val loc =
      (writeByte (byteAccess m) m v.disk file val loc).map fun next =>
        (SUCCESS, volume.update slot next) := by
    rw [echfsWrite, hcache, Option.bind_some]
    dsimp only
    rw [hrecord.found, if_neg Bool.false_ne_true, hdisk]
  rw [← hlength] at hspace ⊢
  by_cases hone : blockCount (loc + 1) ≤ (chains index).length + 1
  · obtain ⟨blocks, ready, hready, hput⟩ := hfile.writeByte_ready hrecord hspace hone val
    obtain ⟨hstored, hreads⟩ := hready.write hfile hfound hrecord hpath val rfl
    rw [hsize] at hstored hreads
    rw [hwrite, hput, Option.map_some]
    constructor
    · rintro ⟨next, hnext, hgrown⟩
      refine ⟨hone, fun pos hlow hhigh hblock => ?_⟩
      obtain ⟨byte, after, hread, hvalue⟩ := hreads pos hlow hhigh
      obtain ⟨last, hzero⟩ := hgrown.zeros pos hlow hhigh
      rw [← (Prod.mk.inj (Option.some.inj hnext)).2, hread] at hzero
      rw [if_pos hblock] at hvalue
      rw [hbyte pos, ← hvalue]
      have htoNat : (byte.toNat : Int) = 0 := (Prod.mk.inj (Option.some.inj hzero)).1
      exact UInt8.toNat_inj.mp (Int.ofNat.inj htoNat)
    · rintro ⟨-, hslack⟩
      refine ⟨_, rfl, hstored, fun pos hlow hhigh => ?_⟩
      obtain ⟨byte, after, hread, hvalue⟩ := hreads pos hlow hhigh
      have hzero : byte = 0 := by
        rw [hvalue]
        split
        · rename_i hblock
          rw [← hbyte pos]
          exact hslack pos hlow hhigh hblock
        · rfl
      exact ⟨after, by rw [hread, hzero]; rfl⟩
  · constructor
    · rintro ⟨next, hnext, hgrown⟩
      rw [hwrite] at hnext
      obtain ⟨after, hafter, hupdate⟩ := Option.map_eq_some_iff.mp hnext
      obtain ⟨tBlock, htake⟩ := hfile.writeByte_repeats hrecord hspace (by omega) hafter
      obtain ⟨-, blocks, -, -, -, hcount, hnodup, other, record, hslot, hget, hmap⟩ := hgrown.stored
      obtain ⟨hcached, hlast⟩ := findCached_set hfound ((writeByte_path _ hafter).trans hpath)
      rw [← (Prod.mk.inj hupdate).2] at hslot hget
      have hsame : other = slot := Option.some.inj (hslot.symm.trans hcached)
      rw [hsame] at hget
      have hrecord : record = after.2 := Option.some.inj (hget.symm.trans hlast)
      rw [← hrecord, hmap] at htake
      refine absurd hnodup (not_nodup_of_take ?_ htake)
      rw [hcount, blockCount_max]
      omega
    · rintro ⟨hfew, -⟩
      exact absurd hfew hone

-- The image of 64 blocks whose only entry is the empty file /a.
def emptyFile : Entry :=
  { parentId := ROOT_ID, type := FILE_TYPE, name := [97], payload := END_OF_CHAIN }

def reservedDisk : Store := fun address =>
  if smallMount.fatstart * BYTES_PER_BLOCK ≤ address ∧
      address < smallMount.fatstart * BYTES_PER_BLOCK + smallMount.datastart * 8 then 255
  else 0

def smallDisk : Store := wrEntry reservedDisk smallMount 0 emptyFile

def pathA : Path := rootPath 97 a_ne_nul

theorem smallMount_geometry : Geometry smallMount :=
  ⟨by decide, by decide, by decide, by decide, by decide⟩

theorem emptyFile_fits : emptyFile.Fits :=
  ⟨by decide, by decide, by decide, by decide, by simp [emptyFile]⟩

-- The image whose only entry is a file with the blocks `chain`.
theorem EmptyTable.wellFormed (hempty : EmptyTable m disk) (hgeometry : Geometry m)
    (hfits : entry.Fits) (hparent : entry.parentId ≠ 0)
    (hreserved : ∀ block, block < m.datastart → fat (wrEntry disk m 0 entry) m block ≠ 0)
    (hchain : FileChain m (wrEntry disk m 0 entry) entry chain) :
    WellFormed m (wrEntry disk m 0 entry) [entry] fun _ => chain := by
  have hroom : ([] : List Entry).length + 1 < capacity m := by
    have hsize := hempty.1
    rw [List.length_nil]
    unfold capacity
    simp only [BYTES_PER_BLOCK, SIZEOF_ENTRY]
    omega
  have htable := hempty.table.append hgeometry.directoryFits hroom hfits hparent
  rw [List.length_nil, List.nil_append] at htable
  refine ⟨hgeometry, htable, hreserved, ?_, ?_⟩
  · intro index hindex _
    obtain rfl : index = 0 := by simpa using hindex
    exact hchain
  · intro first second hfirst hsecond _ _ hne
    rw [List.length_singleton] at hfirst hsecond
    omega

theorem smallDisk_wellFormed : WellFormed smallMount smallDisk [emptyFile] fun _ => [] := by
  have hempty : EmptyTable smallMount reservedDisk := by decide +kernel
  have hlength : ([] : List Nat).length = blockCount emptyFile.size := by decide
  exact hempty.wellFormed smallMount_geometry emptyFile_fits (by decide) (by decide +kernel)
    ⟨fun _ h => absurd h List.not_mem_nil, rfl, List.nodup_nil, hlength⟩

theorem WellFormed.existing (hwf : WellFormed m disk entries chains) (hindex : index < entries.length)
    (hisFile : entries[index].IsFile) {result : PathResult}
    (hresult : pathResolver disk m path FILE_TYPE = result) (hparent : result.failure = false)
    (hfound : result.notFound = false) (htarget : result.targetEntry = index) :
    Existing m { disk := disk } entries chains path index :=
  ⟨hwf, hindex, hisFile, by rw [hresult]; exact hparent, by rw [hresult]; exact hfound,
    by rw [hresult]; exact htarget, fun _ h => absurd h List.not_mem_nil⟩

theorem smallDisk_existing : Existing smallMount { disk := smallDisk } [emptyFile] (fun _ => [])
    pathA 0 := by
  have hresolved : pathResolver smallDisk smallMount pathA FILE_TYPE =
      { targetEntry := 0, target := emptyFile, parent := { payload := ROOT_ID }, name := [97] } := by
    decide +kernel
  exact smallDisk_wellFormed.existing (by decide) (by decide) hresolved rfl rfl rfl

theorem first_block_is_zeroed : ∃ next,
    echfsWrite { disk := smallDisk } smallMount pathA 7 5 = some (SUCCESS, next) ∧
      Grown smallMount next pathA 0 0 5 := by
  refine (echfs_write_grows_iff smallDisk_existing rfl (by decide +kernel) 7).mpr ⟨by decide, ?_⟩
  intro pos _ _ hblock
  exact absurd hblock (Nat.not_lt_zero _)

-- A write to the second block of the empty file.
theorem growth_by_two_links_one_block :
    Existing smallMount { disk := smallDisk } [emptyFile] (fun _ => []) pathA 0 ∧
      blockCount (32768 + 1) - blockCount emptyFile.size ≤ freeBlocks smallMount smallDisk ∧
      ∃ next, echfsWrite { disk := smallDisk } smallMount pathA 7 32768 = some (SUCCESS, next) ∧
        next.cachedFiles.map (·.allocMap) = [[18, 18, END_OF_CHAIN]] ∧
        ¬ Grown smallMount next pathA 0 emptyFile.size 32768 := by
  have hwrite : (echfsWrite { disk := smallDisk } smallMount pathA 7 32768).map
      (fun result => (result.1, result.2.cachedFiles.map (·.allocMap))) =
      some (SUCCESS, [[18, 18, END_OF_CHAIN]]) := by
    decide +kernel
  obtain ⟨⟨code, next⟩, hnext, hresult⟩ := Option.map_eq_some_iff.mp hwrite
  obtain ⟨hcode, hmaps⟩ := Prod.mk.inj hresult
  dsimp only at hcode hmaps
  refine ⟨smallDisk_existing, by decide +kernel, next, by rw [hnext, hcode], hmaps, ?_⟩
  intro hgrown
  obtain ⟨-, blocks, -, -, -, -, hnodup, slot, file, -, hget, hmap⟩ := hgrown.stored
  have hmem : file.allocMap ∈ next.cachedFiles.map (·.allocMap) :=
    List.mem_map_of_mem (List.mem_of_getElem? hget)
  rw [hmaps, List.mem_singleton, hmap] at hmem
  have hblocks : blocks 0 = [18, 18] := List.append_left_injective [END_OF_CHAIN] hmem
  rw [hblocks] at hnodup
  exact absurd hnodup (by decide)

end EchidnaOS.Echfs
