import EchidnaOS.Echfs.Driver
import EchidnaOS.Echfs.Handle.Splice

namespace EchidnaOS.Echfs

open EchidnaOS.Lib.ByteStore EchidnaOS.Lib.Run EchidnaOS.Devfs

variable {disk next : Store} {m : Mount} {chains : Nat → List Nat} {chain : List Nat} {entry : Entry}
  {file : CachedFile} {v : Volume} {s : Driver} {path : Path} {index start : Nat}

-- The loop of echfs_remove marks the blocks of the chain as free and nothing else.
theorem freeChain_linked (hgeometry : Geometry m) (hlinked : Linked disk m start chain)
    (hnodup : chain.Nodup) (hdata : ∀ block ∈ chain, DataBlock m block) {fuel : Nat}
    (hfuel : chain.length < fuel) :
    ∃ next, freeChain m fuel disk start = some next ∧
      (∀ block, block < m.blocks → fat next m block = if block ∈ chain then 0 else fat disk m block) ∧
      ∀ address, m.dirstart * BYTES_PER_BLOCK ≤ address → next address = disk address := by
  induction chain generalizing disk start fuel with
  | nil =>
      obtain ⟨fuel, rfl⟩ := Nat.exists_eq_succ_of_ne_zero (Nat.ne_zero_of_lt hfuel)
      rw [freeChain, if_pos (show start = END_OF_CHAIN from hlinked)]
      exact ⟨disk, rfl, by simp, fun _ _ => rfl⟩
  | cons head rest ih =>
      obtain ⟨fuel, rfl⟩ := Nat.exists_eq_succ_of_ne_zero (Nat.ne_zero_of_lt hfuel)
      obtain ⟨hstart, hrest⟩ := hlinked
      obtain ⟨hfresh, hnodup⟩ := List.nodup_cons.mp hnodup
      have hhead := hdata head List.mem_cons_self
      have hdata : ∀ block ∈ rest, DataBlock m block :=
        fun block hmem => hdata block (List.mem_cons_of_mem _ hmem)
      have hzeroed : ∀ block, block < m.blocks → fat (wrQword disk (fatLoc m head) 0) m block =
          if block = head then 0 else fat disk m block :=
        fun block hlt => fat_wrQword hgeometry hlt hhead.2 (by decide)
      have hkept : Linked (wrQword disk (fatLoc m head) 0) m (fat disk m head) rest := by
        refine hrest.congr fun block hmem => ?_
        rw [hzeroed block (hdata block hmem).2, if_neg]
        exact fun heq => hfresh (heq ▸ hmem)
      rw [List.length_cons] at hfuel
      obtain ⟨last, hlast, hfat, hout⟩ := ih hkept hnodup hdata (show rest.length < fuel by omega)
      refine ⟨last, ?_, ?_, ?_⟩
      · rw [freeChain, hstart, if_neg (hhead.ne_end hgeometry)]
        exact hlast
      · intro block hlt
        rw [hfat block hlt, hzeroed block hlt]
        by_cases heq : block = head
        · simp [heq]
        · simp [heq]
      · intro address hlow
        have hbelow := (fatLoc_eq hgeometry hhead.2).2
        rw [hout address hlow]
        exact write_outside _ _ _ _ (by rw [leBytes_length]; omega)

-- A slot with no entry in it.
def EmptySlot (m : Mount) (disk : Store) (index : Nat) : Prop :=
  index < capacity m ∧
    ((rdEntry disk m index).parentId = 0 ∨ (rdEntry disk m index).parentId = DELETED_ENTRY)

theorem findEmptyFrom_found {fuel : Nat} (hempty : EmptySlot m disk index) (hstart : start ≤ index)
    (hfuel : index - start < fuel) :
    ∃ found, findEmptyFrom disk m fuel start = some found ∧ EmptySlot m disk found := by
  obtain ⟨hlt, hparent⟩ := hempty
  induction fuel generalizing start with
  | zero => exact absurd hfuel (Nat.not_lt_zero _)
  | succ fuel ih =>
      unfold findEmptyFrom
      dsimp only
      by_cases hhere : (rdEntry disk m start).parentId = 0 ∨
          (rdEntry disk m start).parentId = DELETED_ENTRY
      · rw [if_pos hhere]
        exact ⟨start, rfl, by omega, hhere⟩
      · rw [if_neg hhere]
        have hne : start ≠ index := by
          intro heq
          rw [heq] at hhere
          exact hhere hparent
        exact ih (by omega) (by omega)

theorem EmptySlot.findEmpty (hgeometry : Geometry m) (hempty : EmptySlot m disk index) :
    ∃ found, findEmpty disk m = some found ∧ EmptySlot m disk found := by
  have hcapacity := Table.capacity_lt hgeometry.directoryFits
  have hlt := hempty.1
  exact findEmptyFrom_found hempty (Nat.zero_le _) (by omega)

theorem EmptySlot.not_live (hempty : EmptySlot m disk index) : ¬ LiveFile m disk index := by
  rintro ⟨-, hparent, -, hdeleted⟩
  rcases hempty.2 with hzero | hdel
  · exact hparent hzero
  · exact hdeleted hdel

-- Writing a slot through wr_entry.
theorem wrEntry_outside (disk : Store) (hgeometry : Geometry m) (hindex : index < capacity m)
    (hentry : entry.Fits) :
    SameOtherSlots m index disk (wrEntry disk m index entry) ∧
      (∀ block, block < m.blocks → fat (wrEntry disk m index entry) m block = fat disk m block) ∧
      ∀ block offset, DataBlock m block →
        wrEntry disk m index entry (blockLoc block + offset) = disk (blockLoc block + offset) := by
  obtain ⟨hstart, hend⟩ := entryLoc_end_le hgeometry hindex
  have houtside : ∀ address, address < entryLoc m index ∨ entryLoc m index + SIZEOF_ENTRY ≤ address →
      wrEntry disk m index entry address = disk address :=
    fun address hout => wrEntryAt_outside _ _ hentry.name_lt hout
  refine ⟨fun address _ _ hout => houtside address hout, ?_, ?_⟩
  · intro block hblock
    exact fat_congr hgeometry hblock fun address hlow => houtside address (Or.inl (by omega))
  · intro block offset hblock
    have habove := (data_above_directory hgeometry hblock).1
    exact houtside _ (Or.inr (by omega))

-- The new file is empty.
theorem Sound.create (hsound : Sound m disk chains) (hempty : EmptySlot m disk index)
    (hentry : entry.Fits) (hpayload : entry.payload = END_OF_CHAIN) (hsize : entry.size = 0) :
    SlotChange m chains index [] disk (wrEntry disk m index entry) := by
  have hgeometry := hsound.geometry
  have hle := hgeometry.data_le
  obtain ⟨hslots, hfat, -⟩ := wrEntry_outside disk hgeometry hempty.1 hentry
  have hread := rdEntry_wrEntry disk m index hentry
  refine ⟨hempty.1, hslots, ?_, ?_, ?_, ?_, ?_, ?_⟩
  · rw [hread]
    exact hentry.name_lt
  · intro _
    rw [hread]
    refine ⟨by simp, hpayload, List.nodup_nil, ?_⟩
    rw [hsize]
    rfl
  · intro other hother _ block hmem
    exact hfat block ((hsound.files other hother).data block hmem).2
  · intro block hlow
    exact hfat block (by omega)
  · intro _ other _ _
    simp
  · intro block hblock _ hothers
    rw [hfat block hblock.2]
    refine hsound.free block hblock fun other hother => ?_
    have hne : other ≠ index := by
      intro heq
      rw [heq] at hother
      exact hempty.not_live hother
    exact hothers other hother hne

theorem deletedEntry_fits : deletedEntry.Fits :=
  ⟨by decide, by decide, by decide, by decide, fun _ h => absurd h List.not_mem_nil⟩

-- The slot of a removed file is empty, and its blocks are free.
theorem Sound.remove (hsound : Sound m disk chains) (hlive : LiveFile m disk index) {freed : Store}
    (hfreed : ∀ block, block < m.blocks →
      fat freed m block = if block ∈ chains index then 0 else fat disk m block)
    (hout : ∀ address, m.dirstart * BYTES_PER_BLOCK ≤ address → freed address = disk address) :
    SlotChange m chains index [] disk (wrEntry freed m index deletedEntry) := by
  have hgeometry := hsound.geometry
  have hle := hgeometry.data_le
  have hchain := hsound.files index hlive
  obtain ⟨hslots, hfat, -⟩ := wrEntry_outside freed hgeometry hlive.1 deletedEntry_fits
  have hread := rdEntry_wrEntry freed m index deletedEntry_fits
  have hgone : ¬ LiveFile m (wrEntry freed m index deletedEntry) index := by
    rintro ⟨-, -, -, hdeleted⟩
    rw [hread] at hdeleted
    exact hdeleted rfl
  refine ⟨hlive.1, ?_, ?_, fun h => absurd h hgone, ?_, ?_, fun h => absurd h hgone, ?_⟩
  · intro address hlow hhigh haway
    rw [hslots address hlow hhigh haway]
    exact hout address hlow
  · rw [hread]
    exact deletedEntry_fits.name_lt
  · intro other hother hne block hmem
    have hlt := ((hsound.files other hother).data block hmem).2
    rw [hfat block hlt, hfreed block hlt, if_neg]
    exact fun hmem' => hsound.disjoint other index hother hlive hne hmem hmem'
  · intro block hlow
    rw [hfat block (by omega), hfreed block (by omega), if_neg]
    intro hmem
    have := (hchain.data block hmem).1
    omega
  · intro block hblock _ hothers
    rw [hfat block hblock.2, hfreed block hblock.2]
    by_cases hmem : block ∈ chains index
    · rw [if_pos hmem]
    · rw [if_neg hmem]
      refine hsound.free block hblock fun other hother => ?_
      by_cases heq : other = index
      · rw [heq]
        exact hmem
      · exact hothers other hother heq

-- The parent that is found is the root or an entry of the disk.
theorem resolveFrom_parent_lt {type : UInt8} {parent : Entry} {name text : CString}
    (hparent : parent.payload < 2 ^ 64) :
    (resolveFrom disk m type parent name text).parent.payload < 2 ^ 64 := by
  rcases resolveFrom_cases disk m type parent name text with hfailed | ⟨last, component, hlast, hfrom⟩
  · rw [hfailed]
    exact Nat.two_pow_pos 64
  · rw [hlast, resolveLast_parent]
    rcases hfrom with rfl | ⟨_, _, found, -, rfl⟩
    · exact hparent
    · exact rdQword_lt _ _

theorem pathResolver_notRoot (hfailure : (pathResolver disk m path FILE_TYPE).failure = false) :
    path.text ≠ [47] ∧ pathResolver disk m path FILE_TYPE =
      resolveFrom disk m FILE_TYPE { payload := ROOT_ID } [] (skipSlash path.text) := by
  have hroot : path.text ≠ [47] := by
    intro hslash
    rw [pathResolver, if_neg (fun h => file_ne_directory h.1), if_pos ⟨rfl, hslash⟩] at hfailure
    cases hfailure
  refine ⟨hroot, ?_⟩
  rw [pathResolver, if_neg (fun h => hroot h.2), if_neg (fun h => hroot h.2)]

theorem pathResolver_target (hfailure : (pathResolver disk m path FILE_TYPE).failure = false)
    (hfound : (pathResolver disk m path FILE_TYPE).notFound = false) :
    (pathResolver disk m path FILE_TYPE).target =
      rdEntry disk m (pathResolver disk m path FILE_TYPE).targetEntry := by
  have hresolved := (pathResolver_notRoot hfailure).2
  rw [hresolved] at hfailure hfound ⊢
  obtain ⟨_, _, -, htarget⟩ := resolveFrom_found hfailure hfound
  exact htarget

-- The state of the driver is well formed: the image is sound, every cached file is up to
-- date, and every handle has the device of the image open.
structure DriverOk (m : Mount) (s : Driver) (chains : Nat → List Nat) : Prop where
  sound : Sound m s.volume.disk chains
  cached : ∀ file ∈ s.volume.cachedFiles, ∃ index, Caches m s.volume.disk chains index file
  devices : ∀ entry ∈ s.handles, DeviceOk m { disk := s.volume.disk, handle := entry.dev }

-- No file is cached under two names.
def OneName (s : Driver) : Prop :=
  (s.volume.cachedFiles.map fun file => file.pathResult.targetEntry).Nodup

-- The calls of a run: a new file in an existing directory, a write up to the end of a file
-- with the blocks it needs, and the removal of a file without handles.
def Admissible (m : Mount) (s : Driver) : FileCall → Prop
  | .create path =>
      (pathResolver s.volume.disk m path FILE_TYPE).failure = false ∧
        (pathResolver s.volume.disk m path FILE_TYPE).notFound = true ∧
        ∃ index, EmptySlot m s.volume.disk index
  | .uwrite handle data => ∃ entry file, s.handles[handle]? = some entry ∧
      s.volume.record entry.path = some file ∧ 0 ≤ entry.ptr ∧ entry.ptr ≤ file.size ∧
      blockCount (entry.ptr.toNat + data.length) ≤ blockCount file.size + freeBlocks m s.volume.disk
  | .remove path =>
      (s.volume.removal m path).failure = false ∧ (s.volume.removal m path).notFound = false ∧
        LiveFile m s.volume.disk (s.volume.removal m path).targetEntry ∧
        ∀ entry ∈ s.handles, entry.path ≠ path

-- The file that is removed is cached under no other name.
def NamedOnce (m : Mount) (s : Driver) : FileCall → Prop
  | .remove path => ∀ file ∈ s.volume.cachedFiles,
      file.pathResult.targetEntry = (s.volume.removal m path).targetEntry → file.path = path
  | _ => True

-- One call from a well-formed state leads to a well-formed state.
def KeepsDriver (m : Mount) (s : Driver) (call : FileCall) : Prop :=
  ∃ next, s.step m call = some next ∧ OneName next ∧ ∃ chains, DriverOk m next chains

theorem DeviceOk.of_handle {dev other : DevFile} (hdevice : DeviceOk m dev)
    (hsame : other.handle = dev.handle) : DeviceOk m other := by
  obtain ⟨hinUse, hseekable, hbegin, hholds, hsmall⟩ := hdevice
  rw [← hsame] at hinUse hseekable hbegin hholds hsmall
  exact ⟨hinUse, hseekable, hbegin, hholds, hsmall⟩

-- A change of a slot that no cached file stands in.
theorem DriverOk.change (hok : DriverOk m s chains) {blocks : List Nat} {rest : List CachedFile}
    (hchange : SlotChange m chains index blocks s.volume.disk next)
    (hrest : ∀ file ∈ rest, file ∈ s.volume.cachedFiles ∧ file.pathResult.targetEntry ≠ index)
    (hdata : ∀ block offset, DataBlock m block →
      next (blockLoc block + offset) = s.volume.disk (blockLoc block + offset)) :
    DriverOk m { s with volume := { disk := next, cachedFiles := rest } }
      (Function.update chains index blocks) := by
  refine ⟨hok.sound.change hchange, ?_, ?_⟩
  · intro file hmem
    obtain ⟨hold, hne⟩ := hrest file hmem
    obtain ⟨other, hcaches⟩ := hok.cached file hold
    rw [hcaches.targetEntry] at hne
    refine ⟨other, hcaches.keep hok.sound hchange.slots hchange.index_lt hne ?_⟩
    intro block hblock offset _
    exact hdata block offset (hcaches.ok.data block hblock)
  · intro entry hmem
    exact (hok.devices entry hmem).of_handle rfl

theorem DriverOk.create (hok : DriverOk m s chains) (hone : OneName s)
    (hguard : Admissible m s (.create path)) : KeepsDriver m s (.create path) := by
  obtain ⟨hfailure, -, index, hempty⟩ := hguard
  have hgeometry := hok.sound.geometry
  obtain ⟨hroot, hresolved⟩ := pathResolver_notRoot hfailure
  obtain ⟨hname, hne⟩ := pathResolver_name hroot hfailure
  have hparent : (pathResolver s.volume.disk m path FILE_TYPE).parent.payload < 2 ^ 64 := by
    rw [hresolved]
    exact resolveFrom_parent_lt (show ROOT_ID < 2 ^ 64 by decide)
  obtain ⟨slot, hslot, hfree⟩ := hempty.findEmpty hgeometry
  obtain ⟨entry, hentry⟩ : ∃ entry : Entry, entry =
      { parentId := (pathResolver s.volume.disk m path FILE_TYPE).parent.payload
        type := FILE_TYPE
        name := (pathResolver s.volume.disk m path FILE_TYPE).name
        payload := END_OF_CHAIN } := ⟨_, rfl⟩
  have hcreate : echfsCreate s.volume.disk m path = some (some (wrEntry s.volume.disk m slot entry)) := by
    unfold echfsCreate addEntry
    dsimp only
    rw [hfailure, if_neg Bool.false_ne_true, hslot, hentry]
    rfl
  have hfits : entry.Fits := by
    rw [hentry]
    exact ⟨hparent, show END_OF_CHAIN < 2 ^ 64 by decide, Nat.two_pow_pos 64, hname, hne⟩
  have hpayload : entry.payload = END_OF_CHAIN := by rw [hentry]
  have hsize : entry.size = 0 := by rw [hentry]
  have hchange := hok.sound.create hfree hfits hpayload hsize
  obtain ⟨-, -, hdata⟩ := wrEntry_outside s.volume.disk hgeometry hfree.1 hfits
  have hstep : s.step m (.create path) = some { s with volume :=
      { disk := wrEntry s.volume.disk m slot entry, cachedFiles := s.volume.cachedFiles } } := by
    rw [Driver.step, hcreate]
    rfl
  refine ⟨_, hstep, hone, _, hok.change hchange ?_ hdata⟩
  intro file hmem
  obtain ⟨other, hcaches⟩ := hok.cached file hmem
  refine ⟨hmem, fun heq => hfree.not_live ?_⟩
  rw [← heq, hcaches.targetEntry]
  exact hcaches.live

-- The result the removal goes by is that of an entry, whether it was cached or not.
theorem DriverOk.removal (hok : DriverOk m s chains)
    (hfailure : (s.volume.removal m path).failure = false)
    (hfound : (s.volume.removal m path).notFound = false) :
    (s.volume.removal m path).target =
      rdEntry s.volume.disk m (s.volume.removal m path).targetEntry := by
  unfold Volume.removal at *
  cases hrecord : s.volume.record path with
  | some file =>
      obtain ⟨index, hcaches⟩ := hok.cached file (List.mem_of_find?_eq_some hrecord)
      dsimp only
      rw [hcaches.targetEntry]
      exact hcaches.target
  | none =>
      rw [hrecord] at hfailure hfound
      exact pathResolver_target hfailure hfound

-- The records that stay belong to other files than the one removed.
theorem OneName.rest (hone : OneName s) (hnamed : NamedOnce m s (.remove path)) {file : CachedFile}
    (hmem : file ∈ s.volume.cachedFiles.eraseP fun file => file.path = path) :
    file ∈ s.volume.cachedFiles ∧
      file.pathResult.targetEntry ≠ (s.volume.removal m path).targetEntry := by
  have hold : file ∈ s.volume.cachedFiles := List.mem_of_mem_eraseP hmem
  refine ⟨hold, fun htarget => ?_⟩
  have hpath := hnamed file hold htarget
  obtain ⟨first, front, back, hfront, hfirst, hlist, herase⟩ :=
    List.exists_of_eraseP (p := fun file => file.path = path) hold (decide_eq_true hpath)
  have hremoval : s.volume.removal m path = first.pathResult := by
    have hrecord : s.volume.record path = some first := by
      unfold Volume.record
      rw [hlist, List.find?_append, List.find?_eq_none.mpr hfront, Option.none_or, List.find?_cons,
        hfirst]
    rw [Volume.removal, hrecord]
  rw [herase] at hmem
  unfold OneName at hone
  rw [hlist, List.map_append, List.map_cons] at hone
  have hout := (List.nodup_cons.mp (List.nodup_middle.mp hone)).1
  apply hout
  rw [← List.map_append, List.mem_map]
  exact ⟨file, hmem, by rw [htarget, hremoval]⟩

-- The removal frees the blocks of the file and no others.
structure Removed (m : Mount) (chain : List Nat) (s next : Driver) : Prop where
  freed : ∀ block, block < m.blocks → fat next.volume.disk m block =
    if block ∈ chain then 0 else fat s.volume.disk m block
  oneName : OneName next
  driver : ∃ chains, DriverOk m next chains

theorem DriverOk.remove (hok : DriverOk m s chains) (hone : OneName s)
    (hguard : Admissible m s (.remove path)) (hnamed : NamedOnce m s (.remove path)) :
    ∃ next, s.step m (.remove path) = some next ∧
      Removed m (chains (s.volume.removal m path).targetEntry) s next := by
  obtain ⟨hfailure, hfound, hlive, -⟩ := hguard
  have hgeometry := hok.sound.geometry
  have htarget := hok.removal hfailure hfound
  have hrest : ∀ file ∈ s.volume.cachedFiles.eraseP fun file => file.path = path,
      file ∈ s.volume.cachedFiles ∧
        file.pathResult.targetEntry ≠ (s.volume.removal m path).targetEntry :=
    fun file hmem => hone.rest hnamed hmem
  generalize hresult : s.volume.removal m path = result at *
  have hchain := hok.sound.files _ hlive
  have hlength := chain_length_le hchain.data hchain.nodup
  have hdevice := hgeometry.device_le
  have hlinked := hchain.linked
  rw [← htarget] at hlinked
  have hfuel : (chains result.targetEntry).length < 2 ^ 61 + 1 := by
    simp only [BYTES_PER_BLOCK] at hdevice
    omega
  obtain ⟨freed, hfreed, hfat, hout⟩ :=
    freeChain_linked hgeometry hlinked hchain.nodup hchain.data hfuel
  have hchange := hok.sound.remove hlive hfat hout
  obtain ⟨-, hlast, hblocks⟩ := wrEntry_outside freed hgeometry hlive.1 deletedEntry_fits
  have hstep : s.step m (.remove path) = some { s with volume :=
      { disk := wrEntry freed m result.targetEntry deletedEntry
        cachedFiles := s.volume.cachedFiles.eraseP fun file => file.path = path } } := by
    rw [Driver.step, echfsRemove, hresult, removeResolved, hfound, if_neg Bool.false_ne_true, hfreed]
    rfl
  refine ⟨_, hstep, ?_, ?_, _, hok.change hchange hrest ?_⟩
  · intro block hlt
    show fat (wrEntry freed m result.targetEntry deletedEntry) m block = _
    rw [hlast block hlt, hfat block hlt]
  · exact hone.sublist (List.Sublist.map _ List.eraseP_sublist)
  · intro block offset hblock
    have habove := (data_above_directory hgeometry hblock).2
    rw [hblocks block offset hblock]
    exact hout _ (by omega)

theorem Volume.record_slot (hrecord : v.record path = some file) :
    ∃ slot, findCached v.cachedFiles path = some slot ∧ v.cachedFiles[slot]? = some file := by
  obtain ⟨hpath, slot, hlt, hslot, hbefore⟩ := List.find?_eq_some_iff_getElem.mp hrecord
  refine ⟨slot, List.findIdx?_eq_some_iff_getElem.mpr ⟨hlt, ?_, ?_⟩, ?_⟩
  · rw [hslot]
    exact hpath
  · intro other hother
    have hmiss := hbefore other hother
    rwa [Bool.not_eq_true', ← Bool.not_eq_true] at hmiss
  · rw [List.getElem?_eq_getElem hlt, hslot]

-- The record that a write leaves belongs to the same file.
theorem OneName.set (hone : OneName s) {slot : Nat} (hslot : s.volume.cachedFiles[slot]? = some file)
    {record : CachedFile} (htarget : record.pathResult.targetEntry = file.pathResult.targetEntry) :
    ((s.volume.cachedFiles.set slot record).map fun file => file.pathResult.targetEntry).Nodup := by
  have hsame : (s.volume.cachedFiles.set slot record).map (fun file => file.pathResult.targetEntry) =
      s.volume.cachedFiles.map fun file => file.pathResult.targetEntry := by
    apply List.ext_getElem?
    intro other
    rw [List.getElem?_map, List.getElem?_map, List.getElem?_set]
    by_cases heq : slot = other
    · subst heq
      rw [if_pos rfl, if_pos (List.getElem?_eq_some_iff.mp hslot).1, hslot]
      simp [htarget]
    · rw [if_neg heq]
  rw [hsame]
  exact hone

-- Another slot of the table holds another file.
theorem OneName.apart (hone : OneName s) {slot other : Nat}
    (hslot : s.volume.cachedFiles[slot]? = some file) {record : CachedFile}
    (hother : s.volume.cachedFiles[other]? = some record) (hne : other ≠ slot) :
    record.pathResult.targetEntry ≠ file.pathResult.targetEntry := by
  intro htarget
  have hlt : other < (s.volume.cachedFiles.map fun file => file.pathResult.targetEntry).length := by
    rw [List.length_map]
    exact (List.getElem?_eq_some_iff.mp hother).1
  refine hne ((List.getElem?_inj hlt hone).mp ?_)
  rw [List.getElem?_map, List.getElem?_map, hslot, hother, Option.map_some, Option.map_some, htarget]

-- A write through a handle works on the record that the path of the handle designates.
theorem DriverOk.uwrite_spliced (hok : DriverOk m s chains) {handle : Nat} {data : List UInt8}
    (hguard : Admissible m s (.uwrite handle data)) :
    ∃ entry file slot index next, s.handles[handle]? = some entry ∧
      s.volume.record entry.path = some file ∧ s.volume.cachedFiles[slot]? = some file ∧
      Caches m s.volume.disk chains index file ∧
      Spliced m chains index entry.ptr.toNat data (entry.openFile s.volume.disk file) next ∧
      s.step m (.uwrite handle data) = some
        { volume := s.volume.update slot (next.dev.disk, next.file)
          handles := s.handles.set handle (entry.after next) } := by
  obtain ⟨entry, file, hentry, hrecord, hpos, hle, hspace⟩ := hguard
  obtain ⟨slot, hcached, hslot⟩ := Volume.record_slot hrecord
  obtain ⟨index, hcaches⟩ := hok.cached file (List.mem_of_getElem? hslot)
  have hdevice : DeviceOk m (entry.openFile s.volume.disk file).dev :=
    (hok.devices entry (List.mem_of_getElem? hentry)).of_handle rfl
  have hptr : (entry.openFile s.volume.disk file).ptr = entry.ptr.toNat := by
    show entry.ptr = _
    omega
  have hp : entry.ptr.toNat ≤ (entry.openFile s.volume.disk file).file.size := by
    show entry.ptr.toNat ≤ file.size
    omega
  obtain ⟨next, hnext, hspliced⟩ :=
    Caches.uwrite (h := entry.openFile s.volume.disk file) hok.sound hcaches hdevice hptr hp hspace
  refine ⟨entry, file, slot, index, next, hentry, hrecord, hslot, hcaches, hspliced, ?_⟩
  rw [Driver.step, Driver.uwrite, hentry, Option.bind_some, hcached, Option.bind_some, hslot,
    Option.bind_some, hnext]
  rfl

theorem DriverOk.uwrite (hok : DriverOk m s chains) (hone : OneName s) {handle : Nat}
    {data : List UInt8} (hguard : Admissible m s (.uwrite handle data)) :
    KeepsDriver m s (.uwrite handle data) := by
  obtain ⟨entry, file, slot, index, next, -, -, hslot, hcaches, hspliced, hstep⟩ :=
    hok.uwrite_spliced hguard
  obtain ⟨blocks, hsound, hself, hothers⟩ := hspliced.image
  have htarget : next.file.pathResult.targetEntry = file.pathResult.targetEntry := by
    rw [hself.targetEntry, hcaches.targetEntry]
  refine ⟨_, hstep, hone.set hslot htarget, _, hsound, ?_, ?_⟩
  · intro record hmem
    obtain ⟨other, hother⟩ := List.mem_iff_getElem?.mp hmem
    rw [Volume.update, List.getElem?_set] at hother
    by_cases heq : slot = other
    · rw [if_pos heq, if_pos (List.getElem?_eq_some_iff.mp hslot).1] at hother
      rw [← Option.some.inj hother]
      exact ⟨index, hself⟩
    · rw [if_neg heq] at hother
      obtain ⟨last, hlast⟩ := hok.cached record (List.mem_of_getElem? hother)
      have hne := hone.apart hslot hother (Ne.symm heq)
      rw [hlast.targetEntry, hcaches.targetEntry] at hne
      exact ⟨last, (hothers last record hne hlast).1⟩
  · intro other hmem
    rcases List.mem_or_eq_of_mem_set hmem with hold | hnew
    · exact (hok.devices other hold).of_handle rfl
    · rw [hnew]
      exact hspliced.device.of_handle rfl

theorem DriverOk.step (hok : DriverOk m s chains) (hone : OneName s) {call : FileCall}
    (hguard : Admissible m s call) (hnamed : NamedOnce m s call) : KeepsDriver m s call := by
  cases call with
  | create path => exact hok.create hone hguard
  | uwrite handle data => exact hok.uwrite hone hguard
  | remove path =>
      obtain ⟨next, hnext, hremoved⟩ := hok.remove hone hguard hnamed
      exact ⟨next, hnext, hremoved.oneName, hremoved.driver⟩

theorem DriverOk.calls (hok : DriverOk m s chains) (hone : OneName s) {calls : List FileCall}
    (hguard : Guarded (Driver.step m) (fun s call => Admissible m s call ∧ NamedOnce m s call) s calls) :
    ∃ next, run (Driver.step m) s calls = some next ∧ OneName next ∧ ∃ chains, DriverOk m next chains := by
  induction calls generalizing s chains with
  | nil => exact ⟨s, rfl, hone, chains, hok⟩
  | cons call rest ih =>
      obtain ⟨⟨hcall, hnamed⟩, hrest⟩ := hguard
      obtain ⟨middle, hmiddle, hmiddleOne, blocks, hmiddleOk⟩ := hok.step hone hcall hnamed
      obtain ⟨next, hnext, hlast⟩ := ih hmiddleOk hmiddleOne (hrest middle hmiddle)
      refine ⟨next, ?_, hlast⟩
      rw [run, hmiddle, Option.bind_some]
      exact hnext

-- Every run of these calls from a well-formed state ends in a well-formed state, and a
-- removal frees exactly the blocks of the file, as long as no file has two names.
theorem calls_keep_the_image {calls : List FileCall} (hok : DriverOk m s chains) (hone : OneName s)
    (hguard : Guarded (Driver.step m) (fun s call => Admissible m s call ∧ NamedOnce m s call) s calls) :
    ∃ next after, run (Driver.step m) s calls = some next ∧ DriverOk m next after ∧
      ∀ path, Admissible m next (.remove path) → NamedOnce m next (.remove path) →
        ∃ last, next.step m (.remove path) = some last ∧
          Removed m (after (next.volume.removal m path).targetEntry) next last := by
  obtain ⟨next, hrun, hnextOne, after, hnext⟩ := hok.calls hone hguard
  exact ⟨next, after, hrun, hnext, fun path hremove hnamed => hnext.remove hnextOne hremove hnamed⟩

-- The first byte of an empty file.
theorem admissible_first_byte {handle : Nat} (entry : FileHandle) (hentry : s.handles[handle]? = some entry)
    (hrecord : s.volume.record entry.path = some file) (hptr : entry.ptr = 0) (hempty : file.size = 0)
    (hspace : 0 < freeBlocks m s.volume.disk) (val : UInt8) :
    Admissible m s (.uwrite handle [val]) := by
  have hone : blockCount (0 + 1) = 1 := by decide
  refine ⟨entry, file, hentry, hrecord, by omega, by omega, ?_⟩
  rw [hptr, hempty]
  show blockCount (0 + 1) ≤ blockCount 0 + freeBlocks m s.volume.disk
  omega

theorem smallDisk_sound : Sound smallMount smallDisk fun _ => [] := by
  have hfree : ∀ block, block < 64 → smallMount.datastart ≤ block →
      fat smallDisk smallMount block = 0 := by
    decide +kernel
  exact smallDisk_wellFormed.sound fun block hblock _ => hfree block hblock.2 hblock.1

-- A handle at the start of a file of the image.
def startHandle (m : Mount) (path : Path) : FileHandle where
  path := path
  flags := O_RDWR
  ptr := 0
  begin := 0
  finish := 0
  dev := { flags := O_RDWR, finish := m.blocks * BYTES_PER_BLOCK, isblock := false }

def oneRecord (disk : Store) (file : CachedFile) (entry : FileHandle) : Driver where
  volume := { disk := disk, cachedFiles := [file] }
  handles := [entry]

theorem oneRecord_ok (entry : FileHandle) (hsound : Sound m disk chains)
    (hcaches : Caches m disk chains index file)
    (hdevice : DeviceOk m { disk := disk, handle := entry.dev }) :
    DriverOk m (oneRecord disk file entry) chains ∧ OneName (oneRecord disk file entry) := by
  refine ⟨⟨hsound, ?_, ?_⟩, List.nodup_singleton _⟩
  · intro other hmem
    rw [List.mem_singleton.mp hmem]
    exact ⟨index, hcaches⟩
  · intro other hmem
    rw [List.mem_singleton.mp hmem]
    exact hdevice

theorem oneRecord_admissible (entry : FileHandle) (hentry : entry.path = file.path)
    (hptr : entry.ptr = 0) (hempty : file.size = 0) (hspace : 0 < freeBlocks m disk) (val : UInt8) :
    Admissible m (oneRecord disk file entry) (.uwrite 0 [val]) := by
  have hrecord : (oneRecord disk file entry).volume.record entry.path = some file :=
    List.find?_cons_of_pos (decide_eq_true hentry.symm)
  exact admissible_first_byte entry rfl hrecord hptr hempty hspace val

-- The first byte of the empty file /a.
theorem first_byte_keeps_the_image : ∃ s next : Driver, ∃ after,
    Admissible smallMount s (.uwrite 0 [7]) ∧
    run (Driver.step smallMount) s [.uwrite 0 [7]] = some next ∧ DriverOk smallMount next after ∧
    ∀ path, Admissible smallMount next (.remove path) → NamedOnce smallMount next (.remove path) →
      ∃ last, next.step smallMount (.remove path) = some last ∧
        Removed smallMount (after (next.volume.removal smallMount path).targetEntry) next last := by
  obtain ⟨file, hpath, hcaches, hsize⟩ := smallDisk_existing.newCaches
  dsimp only at hcaches
  obtain ⟨hok, hone⟩ := oneRecord_ok (startHandle smallMount pathA) smallDisk_sound hcaches
    ⟨rfl, rfl, rfl, Nat.le_refl _, by decide⟩
  have hspace : 0 < freeBlocks smallMount smallDisk := by decide +kernel
  have hguard := oneRecord_admissible (startHandle smallMount pathA) hpath.symm rfl
    (Option.some.inj hsize) hspace 7
  have hcalls : Guarded (Driver.step smallMount)
      (fun s call => Admissible smallMount s call ∧ NamedOnce smallMount s call)
      (oneRecord smallDisk file (startHandle smallMount pathA)) [.uwrite 0 [7]] :=
    ⟨⟨hguard, trivial⟩, fun _ _ => trivial⟩
  obtain ⟨next, after, hrun, hnext⟩ := calls_keep_the_image hok hone hcalls
  exact ⟨_, next, after, hguard, hrun, hnext⟩

-- A write that adds a block leaves every other record of the file out of date.
theorem Spliced.stale {h last : OpenFile} {p : Nat} {data : List UInt8}
    (hspliced : Spliced m chains index p data h last) (hsound : Sound m h.dev.disk chains)
    (hrecord : Caches m h.dev.disk chains index file)
    (hgrew : blockCount file.size < blockCount last.file.size) {after : Nat → List Nat}
    (hafter : Sound m last.dev.disk after) :
    LiveFile m last.dev.disk index ∧ file.allocMap ≠ after index ++ [END_OF_CHAIN] := by
  have hlive := hrecord.live.resize hspliced.entry
  have hbefore := (hsound.files index hrecord.live).length
  have hnow := (hafter.files index hlive).length
  rw [hspliced.entry] at hnow
  rw [← hrecord.target] at hbefore
  refine ⟨hlive, fun hmap => ?_⟩
  rw [hrecord.ok.allocMap] at hmap
  have hchains := List.append_left_injective [END_OF_CHAIN] hmap
  rw [hchains, hnow] at hbefore
  exact absurd hbefore (Nat.ne_of_gt hgrew)

-- The empty file /a under the name a as well.
def bareA : Path where
  text := [97]
  ends := by simp
  length_lt := by decide
  names := by decide

theorem bareA_existing : Existing smallMount { disk := smallDisk } [emptyFile] (fun _ => []) bareA 0 := by
  have hresolved : pathResolver smallDisk smallMount bareA FILE_TYPE =
      { targetEntry := 0, target := emptyFile, parent := { payload := ROOT_ID }, name := [97] } := by
    decide +kernel
  exact smallDisk_wellFormed.existing (by decide) (by decide) hresolved rfl rfl rfl

def twoRecords (disk : Store) (first second : CachedFile) (entry : FileHandle) : Driver where
  volume := { disk := disk, cachedFiles := [first, second] }
  handles := [entry]

theorem twoRecords_ok {first second : CachedFile} (entry : FileHandle) (hsound : Sound m disk chains)
    (hfirst : Caches m disk chains index first) (hsecond : Caches m disk chains index second)
    (hdevice : DeviceOk m { disk := disk, handle := entry.dev }) :
    DriverOk m (twoRecords disk first second entry) chains := by
  refine ⟨hsound, ?_, ?_⟩
  · intro file hmem
    rcases List.mem_pair.mp hmem with hfile | hfile
    · exact ⟨index, hfile ▸ hfirst⟩
    · exact ⟨index, hfile ▸ hsecond⟩
  · intro other hmem
    rw [List.mem_singleton.mp hmem]
    exact hdevice

-- Two records of one empty file, and a byte through a handle on the first of them.
theorem DriverOk.second_name {first second : CachedFile} {entry : FileHandle}
    (hok : DriverOk m (twoRecords disk first second entry) chains)
    (hsame : second.pathResult.targetEntry = first.pathResult.targetEntry) (hname : first.path ≠ second.path)
    (hentry : entry.path = first.path) (hptr : entry.ptr = 0) (hfirst : first.size = 0)
    (hsecond : second.size = 0) (hspace : 0 < freeBlocks m disk) (val : UInt8) :
    Admissible m (twoRecords disk first second entry) (.uwrite 0 [val]) ∧
      ∃ next, (twoRecords disk first second entry).step m (.uwrite 0 [val]) = some next ∧
        ∀ after, Sound m next.volume.disk after → ∃ file ∈ next.volume.cachedFiles,
          LiveFile m next.volume.disk file.pathResult.targetEntry ∧
          file.allocMap ≠ after file.pathResult.targetEntry ++ [END_OF_CHAIN] := by
  have hrecord : (twoRecords disk first second entry).volume.record entry.path = some first :=
    List.find?_cons_of_pos (decide_eq_true hentry.symm)
  have hguard : Admissible m (twoRecords disk first second entry) (.uwrite 0 [val]) :=
    admissible_first_byte entry rfl hrecord hptr hfirst hspace val
  refine ⟨hguard, ?_⟩
  obtain ⟨handle, file, slot, index, next, hhandle, hfile, hslot, hcaches, hspliced, hstep⟩ :=
    hok.uwrite_spliced hguard
  obtain rfl : entry = handle := Option.some.inj hhandle
  obtain rfl : first = file := Option.some.inj (hrecord.symm.trans hfile)
  obtain ⟨other, hother⟩ := hok.cached second (by simp [twoRecords])
  obtain rfl : other = index := by
    rw [← hother.targetEntry, hsame, hcaches.targetEntry]
  have hsize : next.file.size = 1 := by
    have hempty : fileContents disk first = [] := by
      rw [← List.length_eq_zero_iff, fileContents_length]
      exact hfirst
    have hlength := congrArg List.length hspliced.contents
    rw [fileContents_length] at hlength
    rw [hlength]
    show (splice (fileContents disk first) entry.ptr.toNat [val]).length = 1
    rw [hempty, hptr]
    rfl
  have hgrew : blockCount second.size < blockCount next.file.size := by
    rw [hsecond, hsize]
    decide
  refine ⟨_, hstep, fun after hafter => ⟨second, ?_, ?_⟩⟩
  · have hslotNe : slot ≠ 1 := by
      rintro rfl
      exact hname (congrArg CachedFile.path (Option.some.inj hslot)).symm
    apply List.mem_of_getElem? (i := 1)
    show ([first, second].set slot next.file)[1]? = some second
    rw [List.getElem?_set_ne hslotNe]
    rfl
  · rw [hother.targetEntry]
    exact hspliced.stale hok.sound hother hgrew hafter

-- The first byte of /a gives the file a block that the record of a does not know.
theorem second_name_goes_stale : ∃ s : Driver, DriverOk smallMount s (fun _ => []) ∧
    Admissible smallMount s (.uwrite 0 [7]) ∧
    ∃ next, s.step smallMount (.uwrite 0 [7]) = some next ∧
      ∀ after, Sound smallMount next.volume.disk after → ∃ file ∈ next.volume.cachedFiles,
        LiveFile smallMount next.volume.disk file.pathResult.targetEntry ∧
        file.allocMap ≠ after file.pathResult.targetEntry ++ [END_OF_CHAIN] := by
  obtain ⟨first, hfirstPath, hfirst, hfirstSize⟩ := smallDisk_existing.newCaches
  obtain ⟨second, hsecondPath, hsecond, hsecondSize⟩ := bareA_existing.newCaches
  dsimp only at hfirst hsecond
  have hok := twoRecords_ok (startHandle smallMount pathA) smallDisk_sound hfirst hsecond
    ⟨rfl, rfl, rfl, Nat.le_refl _, by decide⟩
  have hsame : second.pathResult.targetEntry = first.pathResult.targetEntry := by
    rw [hsecond.targetEntry, hfirst.targetEntry]
  have hname : first.path ≠ second.path := by
    rw [hfirstPath, hsecondPath]
    decide
  exact ⟨_, hok, hok.second_name hsame hname hfirstPath.symm rfl (Option.some.inj hfirstSize)
    (Option.some.inj hsecondSize) (by decide +kernel) 7⟩

end EchidnaOS.Echfs
