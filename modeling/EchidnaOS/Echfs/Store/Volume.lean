import EchidnaOS.Echfs.Handle.Flush
import EchidnaOS.Echfs.Store.Names
import EchidnaOS.Echfs.Store.Write
import EchidnaOS.Lib.Cells

namespace EchidnaOS.Echfs

open EchidnaOS.Lib.ByteStore

-- The calls that name a file by its path.
inductive PathCall where
  | create (path : Path)
  | read (path : Path) (loc : Nat)
  | write (path : Path) (val : UInt8) (loc : Nat)
  | remove (path : Path)
  | getMetadata (path : Path)

def PathCall.path : PathCall → Path
  | .create path => path
  | .read path _ => path
  | .write path _ _ => path
  | .remove path => path
  | .getMetadata path => path

-- What a call returns, and the size that echfs_get_metadata reports.
structure Reply where
  code : Int
  size : Option Nat := none
  deriving DecidableEq

-- `none` is a call that never returns.
def Volume.call (m : Mount) (v : Volume) : PathCall → Option (Reply × Volume)
  | .create path =>
      (echfsCreate v.disk m path).map fun
        | none => ({ code := FAILURE }, v)
        | some disk => ({ code := SUCCESS }, { v with disk := disk })
  | .read path loc => (echfsRead v m path loc).map fun result => ({ code := result.1 }, result.2)
  | .write path val loc =>
      (echfsWrite v m path val loc).map fun result => ({ code := result.1 }, result.2)
  | .remove path => (echfsRemove v m path).map fun result => ({ code := result.1 }, result.2)
  | .getMetadata path =>
      match echfsGetMetadata v.disk m path FILE_TYPE with
      | none => some ({ code := FAILURE }, v)
      | some metadata => some ({ code := SUCCESS, size := some metadata.size }, v)

-- What a file is to the callers: no file, or its bytes.
def fileCell : Option (List UInt8) → PathCall → Reply × Option (List UInt8)
  | _, .create _ => ({ code := SUCCESS }, some [])
  | none, _ => ({ code := FAILURE }, none)
  | some bytes, .read _ loc =>
      ({ code := (bytes[loc]?.map fun byte => (byte.toNat : Int)).getD EOF }, some bytes)
  | some bytes, .write _ val loc => ({ code := SUCCESS }, some (splice bytes loc [val]))
  | some _, .remove _ => ({ code := SUCCESS }, none)
  | some bytes, .getMetadata _ => ({ code := SUCCESS, size := some bytes.length }, some bytes)

theorem noPath_ends : ∀ char ∈ ([] : CString), char ≠ 0 := List.forall_mem_nil _

theorem noPath_length_lt : ([] : CString).length < 1024 := by decide

theorem noPath_names : NamesFit 0 (skipSlash []) := by decide

-- The empty path, which stands for no name.
def noPath : Path := ⟨[], noPath_ends, noPath_length_lt, noPath_names⟩

-- The record the driver would make of the file in a slot.
def slotRecord (disk : Store) (m : Mount) (index : Nat) : CachedFile where
  path := noPath
  pathResult := { targetEntry := index, target := rdEntry disk m index }
  allocMap := (allocMapFrom disk m CHAIN_LOOP (rdEntry disk m index).payload).getD []

-- The record of the file in a slot, in the cache if there is one.
def Volume.recordAt (v : Volume) (m : Mount) (index : Nat) : CachedFile :=
  (v.cachedFiles.find? fun file => file.pathResult.targetEntry = index).getD (slotRecord v.disk m index)

def Volume.contentsAt (v : Volume) (m : Mount) (index : Nat) : List UInt8 :=
  fileContents v.disk (v.recordAt m index)

-- The files of the image by their names. DELETED_ENTRY is no directory.
def Volume.files (v : Volume) (m : Mount) (name : FileName) : Option (List UInt8) :=
  if name.parent = DELETED_ENTRY then none
  else (search v.disk m name.name name.parent FILE_TYPE).map (v.contentsAt m)

-- The file of a name is in a slot of the table.
def NamedFile (entries : List Entry) (name : FileName) (index : Nat) : Prop :=
  ∃ entry, entries[index]? = some entry ∧ entry.IsFile ∧ entry.parentId = name.parent ∧
    entry.name = name.name

-- The path leads to the file in a slot.
structure Leads (disk : Store) (m : Mount) (path : Path) (index : Nat) : Prop where
  failure : (pathResolver disk m path FILE_TYPE).failure = false
  search : search disk m (fileName disk m path).name (fileName disk m path).parent FILE_TYPE = some index

-- A well-formed image whose entries search reaches, no two of them files of one name.
structure ImageOk (m : Mount) (disk : Store) (entries : List Entry) (chains : Nat → List Nat) :
    Prop where
  table : Table m disk entries
  inside : entries.length ≤ searchEnd m
  sound : Sound m disk chains
  ids : DirectoryIds entries
  single : ∀ name first second, NamedFile entries name first → NamedFile entries name second →
    first = second

-- The records of the cache are up to date and belong to different files.
structure VolumeOk (m : Mount) (v : Volume) (entries : List Entry) (chains : Nat → List Nat) : Prop
    extends ImageOk m v.disk entries chains where
  cached : ∀ file ∈ v.cachedFiles, Caches m v.disk chains file.pathResult.targetEntry file
  leads : ∀ file ∈ v.cachedFiles, Leads v.disk m file.path file.pathResult.targetEntry
  oneName : (v.cachedFiles.map fun file => file.pathResult.targetEntry).Nodup

variable {disk next : Store} {m : Mount} {v w : Volume} {entries after : List Entry}
  {chains later : Nat → List Nat} {chain : List Nat} {file record : CachedFile} {entry : Entry}
  {path : Path} {name : FileName} {index other slot : Nat}

-- The chain of a file, as the loop of a lookup copies it.
theorem FileChain.allocMap (hgeometry : Geometry m) (hchain : FileChain m disk entry chain) :
    allocMapFrom disk m CHAIN_LOOP entry.payload = some (chain ++ [END_OF_CHAIN]) := by
  have hlength := chain_length_le hchain.data hchain.nodup
  have hdevice := hgeometry.device_le
  refine allocMapFrom_linked hchain.linked
    (fun block hmem => (hchain.data block hmem).ne_end hgeometry) ?_
  simp only [BYTES_PER_BLOCK, CHAIN_LOOP] at *
  omega

theorem Sound.slotRecord (hsound : Sound m disk chains) (hlive : LiveFile m disk index) :
    Caches m disk chains index (slotRecord disk m index) := by
  have hchain := hsound.files index hlive
  refine ⟨hlive, rfl, rfl, rfl, ⟨?_, hchain.nodup, hchain.data, ?_, ?_⟩⟩
  · rw [Echfs.slotRecord, hchain.allocMap hsound.geometry]
    rfl
  · intro hstatus
    exact absurd rfl hstatus
  · intro hstatus
    cases hstatus

-- The record of a file that keeps its entry and its chain.
theorem Sound.slotRecord_keep (hsound : Sound m disk chains) (hnext : Sound m next later)
    (hlive : LiveFile m disk index) (hlater : LiveFile m next index)
    (hentry : rdEntry next m index = rdEntry disk m index) (hchain : later index = chains index) :
    Echfs.slotRecord next m index = Echfs.slotRecord disk m index := by
  have hmap := (hsound.files index hlive).allocMap hsound.geometry
  have hmapLater := (hnext.files index hlater).allocMap hnext.geometry
  rw [hchain] at hmapLater
  unfold Echfs.slotRecord
  rw [hmapLater, hmap, hentry]

-- A record that has nothing in its cache yet.
theorem fileContents_notReady (hstatus : file.cacheStatus = .notReady)
    (hother : record.cacheStatus = .notReady) (hmap : file.allocMap = record.allocMap)
    (hsize : file.size = record.size) : fileContents disk file = fileContents disk record := by
  unfold fileContents
  rw [hsize]
  apply fileBytes_congr
  intro pos _ _
  simp [contents, cached, hstatus, hother, CachedFile.block, hmap]

-- Bytes that stay where they are.
theorem Caches.contents_keep (hcaches : Caches m disk chains index record) (hsound : Sound m disk chains)
    (hbytes : ∀ block ∈ chains index, ∀ offset, offset < BYTES_PER_BLOCK →
      next (blockLoc block + offset) = disk (blockLoc block + offset)) :
    fileContents next record = fileContents disk record := by
  have hlength : (chains index).length = blockCount record.size := by
    rw [CachedFile.size, hcaches.target]
    exact (hsound.files index hcaches.live).length
  unfold fileContents
  apply fileBytes_congr
  intro pos _ hpos
  refine hcaches.ok.contents_of_disk hbytes ?_
  rw [hlength]
  exact div_lt_blockCount (by omega)

theorem namedFile_iff : NamedFile entries name index ↔ ∃ h : index < entries.length,
    entries[index].IsFile ∧ entries[index].parentId = name.parent ∧ entries[index].name = name.name := by
  constructor
  · rintro ⟨entry, hentry, hfile⟩
    obtain ⟨hlt, rfl⟩ := List.getElem?_eq_some_iff.mp hentry
    exact ⟨hlt, hfile⟩
  · rintro ⟨hlt, hfile⟩
    exact ⟨_, List.getElem?_eq_getElem hlt, hfile⟩

theorem EntryWritten.namedFile (hwritten : EntryWritten slot entry entries after) (hne : index ≠ slot) :
    NamedFile after name index ↔ NamedFile entries name index := by
  unfold NamedFile
  rw [hwritten.getElem?_other hne]

namespace ImageOk

theorem wellFormed (hok : ImageOk m disk entries chains) : WellFormed m disk entries chains := by
  have hroom := hok.table.room
  have hlive : ∀ index (h : index < entries.length), entries[index].IsFile → LiveFile m disk index := by
    intro index h hfile
    rw [← hok.table.used index h] at hfile
    exact ⟨by omega, hok.table.parentId_ne h, hfile⟩
  refine ⟨hok.sound.geometry, hok.table, hok.sound.reserved, ?_, ?_⟩
  · intro index h hfile
    rw [← hok.table.used index h]
    exact hok.sound.files index (hlive index h hfile)
  · intro first second hfirst hsecond hleft hright hne
    exact hok.sound.disjoint first second (hlive first hfirst hleft) (hlive second hsecond hright) hne

theorem live_iff (hok : ImageOk m disk entries chains) :
    LiveFile m disk index ↔ ∃ h : index < entries.length, entries[index].IsFile :=
  hok.wellFormed.live_iff

theorem live (hok : ImageOk m disk entries chains) (hnamed : NamedFile entries name index) :
    LiveFile m disk index := by
  obtain ⟨hlt, hfile, -⟩ := namedFile_iff.mp hnamed
  exact hok.live_iff.mpr ⟨hlt, hfile⟩

theorem formed (hok : ImageOk m disk entries chains) : DirectoryFormed m disk :=
  hok.table.formed hok.sound.geometry.directoryFits hok.ids

theorem search_iff (hok : ImageOk m disk entries chains) (hlive : name.parent ≠ DELETED_ENTRY) :
    search disk m name.name name.parent FILE_TYPE = some index ↔ NamedFile entries name index := by
  have hnamed : ∀ {i} (hi : i < entries.length),
      decide (entries[i].Named name.name name.parent FILE_TYPE) = true → NamedFile entries name i := by
    intro i hi hmatch
    obtain ⟨hparent, htype, hname⟩ := of_decide_eq_true hmatch
    refine namedFile_iff.mpr ⟨hi, ⟨htype, ?_⟩, hparent, hname⟩
    rw [hparent]
    exact hlive
  rw [hok.table.search_findIdx hok.inside, findIdx?_eq_some_iff_of_single]
  · constructor
    · rintro ⟨hlt, hmatch⟩
      exact hnamed hlt hmatch
    · intro hfile
      obtain ⟨hlt, hisFile, hparent, hname⟩ := namedFile_iff.mp hfile
      exact ⟨hlt, decide_eq_true ⟨hparent, hisFile.1, hname⟩⟩
  · intro i j hi hj hfirst hsecond
    exact hok.single name i j (hnamed hi hfirst) (hnamed hj hsecond)

-- A path whose file exists leads to it.
theorem leads_iff (hok : ImageOk m disk entries chains) : Leads disk m path index ↔
    (pathResolver disk m path FILE_TYPE).failure = false ∧
      NamedFile entries (fileName disk m path) index := by
  constructor
  · rintro ⟨hfailure, hsearch⟩
    obtain ⟨⟨-, hlive⟩, -⟩ := hok.formed.pathResolver_last hfailure
    exact ⟨hfailure, (hok.search_iff hlive).mp hsearch⟩
  · rintro ⟨hfailure, hnamed⟩
    obtain ⟨⟨-, hlive⟩, -⟩ := hok.formed.pathResolver_last hfailure
    exact ⟨hfailure, (hok.search_iff hlive).mpr hnamed⟩

-- A path that fails has the name of no file.
theorem failure_of_file (hok : ImageOk m disk entries chains)
    (hnamed : NamedFile entries (fileName disk m path) index) :
    (pathResolver disk m path FILE_TYPE).failure = false := by
  cases hfailure : (pathResolver disk m path FILE_TYPE).failure with
  | false => rfl
  | true =>
      have hparent : (fileName disk m path).parent = 0 := by
        unfold fileName
        unfold pathResolver at hfailure ⊢
        rw [if_neg (fun h => file_ne_directory h.1)] at hfailure ⊢
        by_cases hroot : FILE_TYPE = FILE_TYPE ∧ path.text = [47]
        · rw [if_pos hroot]
        · rw [if_neg hroot] at hfailure ⊢
          rcases resolveFrom_cases disk m FILE_TYPE { payload := ROOT_ID } [] (skipSlash path.text)
            with hfailed | ⟨parent, last, hlast, -⟩
          · rw [hfailed]
          · rw [hlast] at hfailure
            rcases resolveLast_cases disk m FILE_TYPE parent last with ⟨-, heq⟩ | ⟨_, -, heq⟩
            · rw [heq] at hfailure
              cases hfailure
            · rw [heq] at hfailure
              cases hfailure
      obtain ⟨hlt, -, heq, -⟩ := namedFile_iff.mp hnamed
      exact absurd (heq.trans hparent) (hok.table.parents _ (List.getElem_mem hlt))

theorem leads_of_file (hok : ImageOk m disk entries chains)
    (hnamed : NamedFile entries (fileName disk m path) index) : Leads disk m path index :=
  hok.leads_iff.mpr ⟨hok.failure_of_file hnamed, hnamed⟩

-- Where the resolver ends.
theorem resolved (hok : ImageOk m disk entries chains) (hleads : Leads disk m path index) :
    (pathResolver disk m path FILE_TYPE).notFound = false ∧
      (pathResolver disk m path FILE_TYPE).targetEntry = index ∧
      (pathResolver disk m path FILE_TYPE).target = rdEntry disk m index := by
  obtain ⟨hfailure, hsearch⟩ := hleads
  obtain ⟨-, parent, hparent, hlast⟩ := hok.formed.pathResolver_last hfailure
  rw [← hparent] at hsearch
  rw [hlast, resolveLast, hsearch]
  exact ⟨rfl, rfl, rfl⟩

end ImageOk

namespace VolumeOk

-- The files are those of the table.
theorem files_eq_some (hok : VolumeOk m v entries chains) {bytes : List UInt8} :
    v.files m name = some bytes ↔ ∃ index, NamedFile entries name index ∧ v.contentsAt m index = bytes := by
  unfold Volume.files
  by_cases hdeleted : name.parent = DELETED_ENTRY
  · rw [if_pos hdeleted]
    constructor
    · intro hnone
      cases hnone
    · rintro ⟨index, ⟨entry, -, hfile, hparent, -⟩, -⟩
      exact absurd (hparent.trans hdeleted) hfile.2
  · rw [if_neg hdeleted, Option.map_eq_some_iff]
    exact exists_congr fun index => and_congr_left fun _ => hok.search_iff hdeleted

theorem files_eq_none (hok : VolumeOk m v entries chains) :
    v.files m name = none ↔ ∀ index, ¬ NamedFile entries name index := by
  rw [Option.eq_none_iff_forall_ne_some]
  constructor
  · intro hnone index hnamed
    exact hnone _ (hok.files_eq_some.mpr ⟨index, hnamed, rfl⟩)
  · intro hnone bytes hbytes
    obtain ⟨index, hnamed, -⟩ := hok.files_eq_some.mp hbytes
    exact hnone index hnamed

theorem missing (hok : VolumeOk m v entries chains)
    (hfailure : (pathResolver v.disk m path FILE_TYPE).failure = false)
    (hnone : v.files m (fileName v.disk m path) = none) :
    (pathResolver v.disk m path FILE_TYPE).notFound = true := by
  obtain ⟨⟨-, hlive⟩, parent, hparent, hlast⟩ := hok.formed.pathResolver_last hfailure
  have hsearch : search v.disk m (fileName v.disk m path).name (fileName v.disk m path).parent
      FILE_TYPE = none := by
    rw [Option.eq_none_iff_forall_ne_some]
    intro index hfound
    exact hok.files_eq_none.mp hnone index ((hok.search_iff hlive).mp hfound)
  rw [← hparent] at hsearch
  rw [hlast, resolveLast, hsearch]

-- A record of the cache is the one of its file.
theorem find_record (hok : VolumeOk m v entries chains) :
    (v.cachedFiles.find? fun file => file.pathResult.targetEntry = index) = some record ↔
      record ∈ v.cachedFiles ∧ record.pathResult.targetEntry = index := by
  constructor
  · intro hfound
    have htarget := List.find?_some hfound
    exact ⟨List.mem_of_find?_eq_some hfound, of_decide_eq_true htarget⟩
  · rintro ⟨hmem, htarget⟩
    cases hfound : v.cachedFiles.find? fun file => file.pathResult.targetEntry = index with
    | none => exact absurd (decide_eq_true htarget) (List.find?_eq_none.mp hfound record hmem)
    | some other =>
        have htest := List.find?_some hfound
        have hother : other.pathResult.targetEntry = index := of_decide_eq_true htest
        have hsame : other = record :=
          List.inj_on_of_nodup_map hok.oneName (List.mem_of_find?_eq_some hfound) hmem
            (hother.trans htarget.symm)
        rw [hsame]

theorem recordAt_of_mem (hok : VolumeOk m v entries chains) (hmem : record ∈ v.cachedFiles) :
    v.recordAt m record.pathResult.targetEntry = record := by
  unfold Volume.recordAt
  rw [hok.find_record.mpr ⟨hmem, rfl⟩, Option.getD_some]

theorem recordAt (hok : VolumeOk m v entries chains) (hlive : LiveFile m v.disk index) :
    Caches m v.disk chains index (v.recordAt m index) := by
  unfold Volume.recordAt
  cases hfound : v.cachedFiles.find? fun file => file.pathResult.targetEntry = index with
  | none => exact hok.sound.slotRecord hlive
  | some record =>
      obtain ⟨hmem, rfl⟩ := hok.find_record.mp hfound
      exact hok.cached record hmem

-- The bytes of a file whose entry, chain, record and blocks stay.
theorem contentsAt_keep (hok : VolumeOk m v entries chains) (hnext : VolumeOk m w after later)
    (hlive : LiveFile m v.disk index) (hlater : LiveFile m w.disk index)
    (hentry : rdEntry w.disk m index = rdEntry v.disk m index) (hchain : later index = chains index)
    (hrecords : ∀ record, record.pathResult.targetEntry = index →
      (record ∈ w.cachedFiles ↔ record ∈ v.cachedFiles))
    (hbytes : ∀ block ∈ chains index, ∀ offset, offset < BYTES_PER_BLOCK →
      w.disk (blockLoc block + offset) = v.disk (blockLoc block + offset)) :
    w.contentsAt m index = v.contentsAt m index := by
  have hfind : (w.cachedFiles.find? fun file => file.pathResult.targetEntry = index) =
      v.cachedFiles.find? fun file => file.pathResult.targetEntry = index := by
    refine Option.ext fun record => ?_
    rw [hnext.find_record, hok.find_record]
    exact and_congr_left fun htarget => hrecords record htarget
  have hrecord : w.recordAt m index = v.recordAt m index := by
    unfold Volume.recordAt
    rw [hfind, hok.sound.slotRecord_keep hnext.sound hlive hlater hentry hchain]
  unfold Volume.contentsAt
  rw [hrecord]
  exact (hok.recordAt hlive).contents_keep hok.sound hbytes

-- A call that works on one slot changes the file of one name only.
theorem files_update (hok : VolumeOk m v entries chains) (hnext : VolumeOk m w after later)
    (hothers : ∀ name index, index ≠ slot → (NamedFile after name index ↔ NamedFile entries name index))
    (hbefore : ∀ other, NamedFile entries other slot → other = name)
    (hafter : ∀ other, NamedFile after other slot → other = name)
    (hcontents : ∀ other index, index ≠ slot → NamedFile entries other index →
      w.contentsAt m index = v.contentsAt m index) :
    w.files m = Function.update (v.files m) name (w.files m name) := by
  funext other
  by_cases heq : other = name
  · rw [heq, Function.update_self]
  · rw [Function.update_of_ne heq]
    have hnamed : ∀ index, NamedFile after other index ↔ NamedFile entries other index := by
      intro index
      by_cases hslot : index = slot
      · rw [hslot]
        exact iff_of_false (fun h => heq (hafter other h)) fun h => heq (hbefore other h)
      · exact hothers other index hslot
    refine Option.ext fun bytes => ?_
    rw [hnext.files_eq_some, hok.files_eq_some]
    constructor
    · rintro ⟨index, hfile, hbytes⟩
      have hold := (hnamed index).mp hfile
      have hslot : index ≠ slot := fun h => heq (hbefore other (h ▸ hold))
      exact ⟨index, hold, (hcontents other index hslot hold).symm.trans hbytes⟩
    · rintro ⟨index, hfile, hbytes⟩
      have hslot : index ≠ slot := fun h => heq (hbefore other (h ▸ hfile))
      exact ⟨index, (hnamed index).mpr hfile, (hcontents other index hslot hfile).trans hbytes⟩

end VolumeOk

end EchidnaOS.Echfs
