import EchidnaOS.Echfs.Store.Volume

namespace EchidnaOS.Echfs

open EchidnaOS.Lib.ByteStore

variable {m : Mount} {v w : Volume} {entries after : List Entry} {chains : Nat → List Nat}
  {blocks : List Nat} {file record : CachedFile} {entry : Entry} {path : Path} {name : FileName}
  {index slot : Nat}

-- A call that works on the file in one slot: the entry of the slot, its blocks and its record.
structure SlotStep (m : Mount) (v w : Volume) (entries after : List Entry) (chains : Nat → List Nat)
    (slot : Nat) (blocks : List Nat) (entry : Entry) : Prop where
  written : EntryWritten slot entry entries after
  table : Table m w.disk after
  inside : after.length ≤ searchEnd m
  change : SlotChange m chains slot blocks v.disk w.disk
  newFile : entry.type ≠ DIRECTORY_TYPE
  oldFile : ∀ h : slot < entries.length,
    entries[slot].parentId = DELETED_ENTRY ∨ entries[slot].type ≠ DIRECTORY_TYPE
  unique : ∀ name, NamedFile after name slot → ∀ index, index ≠ slot → ¬ NamedFile entries name index
  data : ∀ other, LiveFile m v.disk other → other ≠ slot → ∀ block ∈ chains other, ∀ offset,
    offset < BYTES_PER_BLOCK → w.disk (blockLoc block + offset) = v.disk (blockLoc block + offset)
  records : ∀ record, record.pathResult.targetEntry ≠ slot →
    (record ∈ w.cachedFiles ↔ record ∈ v.cachedFiles)
  own : ∀ record ∈ w.cachedFiles, record.pathResult.targetEntry = slot →
    Caches m w.disk (Function.update chains slot blocks) slot record ∧
      NamedFile after (fileName v.disk m record.path) slot
  oneName : (w.cachedFiles.map fun file => file.pathResult.targetEntry).Nodup

namespace SlotStep

theorem sameDirectories (hstep : SlotStep m v w entries after chains slot blocks entry)
    (himage : ImageOk m v.disk entries chains) : SameDirectories m v.disk w.disk :=
  hstep.written.sameDirectories himage.table himage.inside hstep.table hstep.inside hstep.newFile
    hstep.oldFile

-- No path changes the file it stands for.
theorem fileName (hstep : SlotStep m v w entries after chains slot blocks entry)
    (himage : ImageOk m v.disk entries chains) (path : Path) :
    (pathResolver w.disk m path FILE_TYPE).failure = (pathResolver v.disk m path FILE_TYPE).failure ∧
      Echfs.fileName w.disk m path = Echfs.fileName v.disk m path :=
  (hstep.sameDirectories himage).pathResolver himage.formed path

theorem imageOk (hstep : SlotStep m v w entries after chains slot blocks entry)
    (himage : ImageOk m v.disk entries chains) :
    ImageOk m w.disk after (Function.update chains slot blocks) := by
  have hwritten := hstep.written
  refine ⟨hstep.table, hstep.inside, himage.sound.change hstep.change, ?_, ?_⟩
  · intro other hmem htype
    obtain ⟨index, hindex⟩ := List.mem_iff_getElem?.mp hmem
    by_cases heq : index = slot
    · rw [heq, hwritten.getElem?_self] at hindex
      obtain rfl := Option.some.inj hindex
      exact absurd htype hstep.newFile
    · rw [hwritten.getElem?_other heq] at hindex
      exact himage.ids other (List.mem_of_getElem? hindex) htype
  · intro name first second hfirst hsecond
    by_cases hleft : first = slot
    · by_cases hright : second = slot
      · rw [hleft, hright]
      · rw [hleft] at hfirst
        exact absurd ((hwritten.namedFile hright).mp hsecond) (hstep.unique name hfirst second hright)
    · have hold := (hwritten.namedFile hleft).mp hfirst
      by_cases hright : second = slot
      · rw [hright] at hsecond
        exact absurd hold (hstep.unique name hsecond first hleft)
      · exact himage.single name first second hold ((hwritten.namedFile hright).mp hsecond)

theorem volumeOk (hstep : SlotStep m v w entries after chains slot blocks entry)
    (hok : VolumeOk m v entries chains) :
    VolumeOk m w after (Function.update chains slot blocks) := by
  have himage := hstep.imageOk hok.toImageOk
  have hnames := hstep.fileName hok.toImageOk
  refine ⟨himage, ?_, ?_, hstep.oneName⟩
  · intro record hmem
    by_cases heq : record.pathResult.targetEntry = slot
    · rw [heq]
      exact (hstep.own record hmem heq).1
    · have hold := hok.cached record ((hstep.records record heq).mp hmem)
      refine hold.keep hok.sound hstep.change.slots hstep.change.index_lt heq ?_
      exact hstep.data _ hold.live heq
  · intro record hmem
    obtain ⟨hfailure, hname⟩ := hnames record.path
    by_cases heq : record.pathResult.targetEntry = slot
    · have hnamed := (hstep.own record hmem heq).2
      rw [heq]
      exact himage.leads_of_file (hname ▸ hnamed)
    · have hold := hok.leads record ((hstep.records record heq).mp hmem)
      obtain ⟨hresolves, hnamed⟩ := hok.leads_iff.mp hold
      refine himage.leads_iff.mpr ⟨hfailure.trans hresolves, ?_⟩
      rw [hname]
      exact (hstep.written.namedFile heq).mpr hnamed

-- The files after the call are those before it, but for one name.
theorem files (hstep : SlotStep m v w entries after chains slot blocks entry)
    (hok : VolumeOk m v entries chains) (hbefore : ∀ other, NamedFile entries other slot → other = name)
    (hafter : ∀ other, NamedFile after other slot → other = name) :
    w.files m = Function.update (v.files m) name (w.files m name) := by
  have hnext := hstep.volumeOk hok
  refine hok.files_update hnext (fun _ _ hne => hstep.written.namedFile hne) hbefore hafter ?_
  intro other index hne hnamed
  have hlive := hok.live hnamed
  have hlater := hnext.live ((hstep.written.namedFile hne).mpr hnamed)
  refine hok.contentsAt_keep hnext hlive hlater ?_ (Function.update_of_ne hne _ _) ?_
    (hstep.data index hlive hne)
  · exact hok.sound.slot_same hstep.change.slots hstep.change.index_lt hlive.1 hne hlive.2.1
  · intro record htarget
    exact hstep.records record (htarget.trans_ne hne)

end SlotStep

-- What a call leaves: a well-formed volume in which the file of one name has changed to `cell`
-- and every path stands for the file it stood for.
structure Served (m : Mount) (v w : Volume) (name : FileName) (cell : Option (List UInt8)) : Prop where
  ok : ∃ entries chains, VolumeOk m w entries chains
  files : w.files m = Function.update (v.files m) name cell
  names : ∀ path, fileName w.disk m path = fileName v.disk m path

theorem SlotStep.served (hstep : SlotStep m v w entries after chains slot blocks entry)
    (hok : VolumeOk m v entries chains) {cell : Option (List UInt8)}
    (hbefore : ∀ other, NamedFile entries other slot → other = name)
    (hafter : ∀ other, NamedFile after other slot → other = name)
    (hcell : w.files m name = cell) : Served m v w name cell := by
  refine ⟨⟨_, _, hstep.volumeOk hok⟩, ?_, fun path => (hstep.fileName hok.toImageOk path).2⟩
  rw [← hcell]
  exact hstep.files hok hbefore hafter

-- No record of the cache belongs to the file under another path.
def OneSpelling (v : Volume) (m : Mount) (path : Path) : Prop :=
  ∀ file ∈ v.cachedFiles, fileName v.disk m file.path = fileName v.disk m path → file.path = path

-- A table of records in which `record` is the one of the file in `slot`.
structure RecordPut (slot : Nat) (record : CachedFile) (before after : List CachedFile) : Prop where
  others : ∀ other, other.pathResult.targetEntry ≠ slot → (other ∈ after ↔ other ∈ before)
  own : ∀ other ∈ after, other.pathResult.targetEntry = slot → other = record
  mem : record ∈ after
  oneName : (after.map fun file => file.pathResult.targetEntry).Nodup

-- The name of a file is that of its entry.
theorem NamedFile.name_eq {other : FileName} (hnamed : NamedFile entries name index)
    (hother : NamedFile entries other index) : other = name := by
  obtain ⟨entry, hentry, -, hparent, hname⟩ := hnamed
  obtain ⟨entry', hentry', -, hparent', hname'⟩ := hother
  obtain rfl : entry = entry' := Option.some.inj (hentry.symm.trans hentry')
  rcases name with ⟨parent, name⟩
  rcases other with ⟨parent', name'⟩
  simp_all

theorem recordPut_set {files : List CachedFile} {position : Nat}
    (honeName : (files.map fun file => file.pathResult.targetEntry).Nodup)
    (hposition : files[position]? = some file) (hfile : file.pathResult.targetEntry = slot)
    (hrecord : record.pathResult.targetEntry = slot) :
    RecordPut slot record files (files.set position record) := by
  obtain ⟨hlt, hget⟩ := List.getElem?_eq_some_iff.mp hposition
  have hunique : ∀ other (h : other < files.length),
      files[other].pathResult.targetEntry = slot → other = position := by
    intro other h htarget
    have hother : other < (files.map fun file => file.pathResult.targetEntry).length := by
      rw [List.length_map]
      exact h
    refine (List.getElem?_inj hother honeName).mp ?_
    rw [List.getElem?_map, List.getElem?_map, hposition, List.getElem?_eq_getElem h, Option.map_some,
      Option.map_some, htarget, hfile]
  refine ⟨?_, ?_, List.mem_set hlt record, ?_⟩
  · intro other hne
    constructor
    · intro hmem
      rcases List.mem_or_eq_of_mem_set hmem with hold | rfl
      · exact hold
      · exact absurd hrecord hne
    · intro hmem
      obtain ⟨place, hplace⟩ := List.mem_iff_getElem?.mp hmem
      have hapart : position ≠ place := by
        rintro rfl
        obtain rfl : file = other := Option.some.inj (hposition.symm.trans hplace)
        exact hne hfile
      exact List.mem_of_getElem? ((List.getElem?_set_ne hapart).trans hplace)
  · intro other hmem htarget
    obtain ⟨place, hplace⟩ := List.mem_iff_getElem?.mp hmem
    by_cases heq : position = place
    · rw [← heq, List.getElem?_set_self hlt] at hplace
      exact (Option.some.inj hplace).symm
    · rw [List.getElem?_set_ne heq] at hplace
      obtain ⟨hplaceLt, rfl⟩ := List.getElem?_eq_some_iff.mp hplace
      exact absurd (hunique place hplaceLt htarget).symm heq
  · have hsame : (files.set position record).map (fun file => file.pathResult.targetEntry) =
        files.map fun file => file.pathResult.targetEntry :=
      calc (files.set position record).map (fun file => file.pathResult.targetEntry)
        _ = (files.set position files[position]).map fun file => file.pathResult.targetEntry := by
          rw [List.map_set, List.map_set, hrecord, hget, hfile]
        _ = files.map fun file => file.pathResult.targetEntry := by rw [List.set_getElem_self]
    rw [hsame]
    exact honeName

theorem recordPut_append {files : List CachedFile}
    (honeName : (files.map fun file => file.pathResult.targetEntry).Nodup)
    (hfresh : ∀ other ∈ files, other.pathResult.targetEntry ≠ slot)
    (hrecord : record.pathResult.targetEntry = slot) :
    RecordPut slot record files (files ++ [record]) := by
  refine ⟨?_, ?_, by simp, ?_⟩
  · intro other hne
    constructor
    · intro hmem
      rcases List.mem_append.mp hmem with hold | hnew
      · exact hold
      · rw [List.mem_singleton.mp hnew] at hne
        exact absurd hrecord hne
    · intro hmem
      exact List.mem_append_left _ hmem
  · intro other hmem htarget
    rcases List.mem_append.mp hmem with hold | hnew
    · exact absurd htarget (hfresh other hold)
    · exact List.mem_singleton.mp hnew
  · rw [List.map_append, List.map_singleton, hrecord]
    refine List.nodup_append'.mpr ⟨honeName, List.nodup_singleton _, ?_⟩
    intro target hmem hmem'
    obtain ⟨other, hother, rfl⟩ := List.mem_map.mp hmem
    exact hfresh other hother (List.mem_singleton.mp hmem')

-- The record that a call by the path works on.
structure Fetched (m : Mount) (v : Volume) (chains : Nat → List Nat) (path : Path) (index : Nat)
    (position : Nat) (file : CachedFile) (cached : Volume) : Prop where
  disk : cached.disk = v.disk
  caches : Caches m v.disk chains index file
  path : file.path = path
  slot : cached.cachedFiles[position]? = some file
  contents : fileContents v.disk file = v.contentsAt m index
  put : ∀ record : CachedFile, record.pathResult.targetEntry = index →
    RecordPut index record v.cachedFiles (cached.cachedFiles.set position record)

section Records

variable (hok : VolumeOk m v entries chains) (hleads : Leads v.disk m path index)

include hok hleads

-- A record under the path is the one of the file the path leads to.
theorem VolumeOk.target_of_path (hmem : record ∈ v.cachedFiles) (hpath : record.path = path) :
    record.pathResult.targetEntry = index := by
  have hsearch := (hok.leads record hmem).search
  rw [hpath, hleads.search] at hsearch
  exact (Option.some.inj hsearch).symm

-- The converse takes a file with one spelling.
theorem VolumeOk.path_of_target (hspelling : OneSpelling v m path) (hmem : record ∈ v.cachedFiles)
    (htarget : record.pathResult.targetEntry = index) : record.path = path := by
  obtain ⟨-, hnamed⟩ := hok.leads_iff.mp hleads
  obtain ⟨-, hother⟩ := hok.leads_iff.mp (hok.leads record hmem)
  rw [htarget] at hother
  exact hspelling record hmem (hnamed.name_eq hother)

end Records

theorem VolumeOk.fetched (hok : VolumeOk m v entries chains) (hleads : Leads v.disk m path index)
    (hspelling : OneSpelling v m path) :
    ∃ position file cached, cacheFile v m path = some (position, file, cached) ∧
      Fetched m v chains path index position file cached := by
  obtain ⟨hfailure, hnamed⟩ := hok.leads_iff.mp hleads
  have hlive := hok.live hnamed
  unfold cacheFile
  cases hfound : findCached v.cachedFiles path with
  | some position =>
      obtain ⟨hlt, hpath, -⟩ := List.findIdx?_eq_some_iff_getElem.mp hfound
      have hpath : v.cachedFiles[position].path = path := of_decide_eq_true hpath
      have hposition : v.cachedFiles[position]? = some v.cachedFiles[position] :=
        List.getElem?_eq_getElem hlt
      have hmem := List.getElem_mem hlt
      generalize v.cachedFiles[position] = file at hpath hposition hmem
      have htarget := hok.target_of_path hleads hmem hpath
      have hcaches := hok.cached file hmem
      have hrecord := hok.recordAt_of_mem hmem
      rw [htarget] at hcaches hrecord
      refine ⟨position, file, v, by dsimp only; rw [hposition]; rfl, rfl, hcaches, hpath,
        hposition, ?_, ?_⟩
      · rw [Volume.contentsAt, hrecord]
      · intro record hindex
        exact recordPut_set hok.oneName hposition htarget hindex
  | none =>
      have hmiss : ∀ file ∈ v.cachedFiles, file.path ≠ path := by
        intro file hmem hpath
        have hnone := List.findIdx?_eq_none_iff.mp hfound file hmem
        rw [decide_eq_false_iff_not] at hnone
        exact hnone hpath
      have hfresh : ∀ file ∈ v.cachedFiles, file.pathResult.targetEntry ≠ index := by
        intro file hmem htarget
        exact hmiss file hmem (hok.path_of_target hleads hspelling hmem htarget)
      obtain ⟨hnotFound, htargetEntry, htarget⟩ := hok.resolved hleads
      have hchain := hok.sound.files index hlive
      have hmap := hchain.allocMap hok.sound.geometry
      rw [← htarget] at hmap
      have hslot := hok.sound.slotRecord hlive
      have hnew : newCachedFile v.disk m path = some
          { path := path, pathResult := pathResolver v.disk m path FILE_TYPE
            allocMap := chains index ++ [END_OF_CHAIN] } := by
        unfold newCachedFile
        dsimp only
        rw [hmap, Option.map_some]
      have hslotMap : (slotRecord v.disk m index).allocMap = chains index ++ [END_OF_CHAIN] :=
        hslot.ok.allocMap
      rw [hnew]
      refine ⟨_, _, _, rfl, rfl, ⟨hlive, hnotFound, htargetEntry, htarget, ?_⟩, rfl, by simp,
        ?_, ?_⟩
      · refine ⟨rfl, hchain.nodup, hchain.data, ?_, ?_⟩
        · intro hstatus
          exact absurd rfl hstatus
        · intro hstatus
          cases hstatus
      · have hnone : (v.cachedFiles.find? fun file => file.pathResult.targetEntry = index) = none := by
          rw [List.find?_eq_none]
          intro file hmem
          rw [decide_eq_true_eq]
          exact hfresh file hmem
        unfold Volume.contentsAt Volume.recordAt
        rw [hnone, Option.getD_none]
        refine fileContents_notReady rfl rfl hslotMap.symm ?_
        show (pathResolver v.disk m path FILE_TYPE).target.size = (rdEntry v.disk m index).size
        rw [htarget]
      · intro record hindex
        dsimp only
        rw [List.set_append_right _ _ (Nat.le_refl _), Nat.sub_self, List.set_cons_zero]
        exact recordPut_append hok.oneName hfresh hindex

end EchidnaOS.Echfs
