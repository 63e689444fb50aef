import EchidnaOS.Echfs.Store.Calls

namespace EchidnaOS.Echfs

open EchidnaOS.Lib.ByteStore

variable {m : Mount} {v : Volume} {entries : List Entry} {chains : Nat → List Nat}
  {file : CachedFile} {path : Path} {index loc : Nat} {bytes : List UInt8} {disk next : Store}

-- A write of data blocks of one file, which keeps its chain and its entry.
theorem SameOutside.slotChange (hsound : Sound m disk chains) (hlive : LiveFile m disk index)
    (hsame : SameOutside (chains index) disk next) :
    SlotChange m chains index (chains index) disk next := by
  have hgeometry := hsound.geometry
  have hdirectory := hgeometry.directory_fits
  have hle := hgeometry.data_le
  have hchain := hsound.files index hlive
  have hbelow : ∀ address, address < m.datastart * BYTES_PER_BLOCK → next address = disk address :=
    fun address hlow => hsame.below hgeometry hchain.data hlow
  have hfat : ∀ block, block < m.blocks → fat next m block = fat disk m block := by
    intro block hlt
    refine fat_congr hgeometry hlt fun address hlow => hbelow address ?_
    have := Nat.mul_le_mul_right BYTES_PER_BLOCK (Nat.le_of_add_right_le hdirectory)
    omega
  have hname := hsound.names index hlive.1 hlive.2.1
  have hentry : rdEntry next m index = rdEntry disk m index := by
    have hend := (entryLoc_end_le hgeometry hlive.1).2
    exact rdEntry_congr hname fun address _ hhigh => hbelow address (by omega)
  refine ⟨hlive.1, fun address _ hhigh _ => hbelow address hhigh, ?_, ?_, ?_, ?_, ?_, ?_⟩
  · rw [hentry]
    exact hname
  · intro _
    rw [hentry]
    exact ⟨hchain.data, hchain.linked.congr fun block hmem => hfat block (hchain.data block hmem).2,
      hchain.nodup, hchain.length⟩
  · intro other hother _ block hmem
    exact hfat block ((hsound.files other hother).data block hmem).2
  · intro block hlow
    exact hfat block (by omega)
  · intro _ other hother hne
    exact hsound.disjoint index other hlive hother (Ne.symm hne)
  · intro block hblock hout hothers
    rw [hfat block hblock.2]
    refine hsound.free block hblock fun other hother => ?_
    by_cases heq : other = index
    · have hlast : LiveFile m next index := by
        unfold LiveFile
        rw [hentry]
        exact hlive
      rw [heq]
      exact hout hlast
    · exact hothers other hother heq

namespace VolumeOk

-- The state after a call that leaves the record `record` in slot `index` with the disk `next`.
theorem put (hok : VolumeOk m v entries chains) (hnamed : NamedFile entries (fileName v.disk m path) index)
    {blocks : List Nat} {position : Nat} {record : CachedFile} {cached : Volume}
    (hfetched : Fetched m v chains path index position file cached)
    (hchange : SlotChange m chains index blocks v.disk next)
    (hcaches : Caches m next (Function.update chains index blocks) index record)
    (htable : Table m next (entries.set index record.pathResult.target))
    (hentry : record.pathResult.target.parentId = file.pathResult.target.parentId ∧
      record.pathResult.target.type = file.pathResult.target.type ∧
      record.pathResult.target.name = file.pathResult.target.name)
    (hpath : record.path = file.path)
    (hdata : ∀ other, LiveFile m v.disk other → other ≠ index → ∀ block ∈ chains other, ∀ offset,
      offset < BYTES_PER_BLOCK → next (blockLoc block + offset) = v.disk (blockLoc block + offset)) :
    Served m v (cached.update position (next, record)) (fileName v.disk m path)
      (some (fileContents next record)) := by
  obtain ⟨hlt, hisFile, hparent, hname⟩ := namedFile_iff.mp hnamed
  have hput := hfetched.put record hcaches.targetEntry
  have htarget : file.pathResult.target = entries[index] := by
    rw [hfetched.caches.target, hok.table.used index hlt]
  rw [htarget] at hentry
  obtain ⟨hentryParent, hentryType, hentryName⟩ := hentry
  have hwritten : EntryWritten index record.pathResult.target entries
      (entries.set index record.pathResult.target) := .overwrite hlt
  have hnew : NamedFile (entries.set index record.pathResult.target) (fileName v.disk m path) index := by
    refine ⟨_, hwritten.getElem?_self, ⟨hentryType.trans hisFile.1, ?_⟩, hentryParent.trans hparent,
      hentryName.trans hname⟩
    rw [hentryParent]
    exact hisFile.2
  have hstep : SlotStep m v (cached.update position (next, record)) entries
      (entries.set index record.pathResult.target) chains index blocks record.pathResult.target := by
    refine ⟨hwritten, htable, by rw [List.length_set]; exact hok.inside, hchange, ?_, ?_, ?_, hdata,
      hput.others, ?_, hput.oneName⟩
    · rw [hentryType, hisFile.1]
      exact file_ne_directory
    · intro h
      rw [hisFile.1]
      exact Or.inr file_ne_directory
    · intro other hother first hne hold
      rw [hnew.name_eq hother] at hold
      exact hne (hok.single _ first index hold hnamed)
    · intro other hmem hother
      obtain rfl := hput.own other hmem hother
      rw [hpath, hfetched.path]
      exact ⟨hcaches, hnew⟩
  refine hstep.served hok (fun other h => hnamed.name_eq h) (fun other h => hnew.name_eq h) ?_
  have hnext := hstep.volumeOk hok
  refine hnext.files_eq_some.mpr ⟨index, hnew, ?_⟩
  have hrecord := hnext.recordAt_of_mem hput.mem
  rw [hcaches.targetEntry] at hrecord
  rw [Volume.contentsAt, hrecord]
  rfl

theorem write (hok : VolumeOk m v entries chains)
    (hfile : v.files m (fileName v.disk m path) = some bytes) (hspelling : OneSpelling v m path)
    (hloc : loc ≤ bytes.length)
    (hspace : blockCount (loc + 1) ≤ blockCount bytes.length + freeBlocks m v.disk) (val : UInt8) :
    ∃ w, v.call m (.write path val loc) = some ({ code := SUCCESS }, w) ∧
      Served m v w (fileName v.disk m path) (some (splice bytes loc [val])) := by
  obtain ⟨index, hnamed, hleads, hbytes⟩ := hok.file_of_some hfile
  obtain ⟨position, file, cached, hcache, hfetched⟩ := hok.fetched hleads hspelling
  have hcaches := hfetched.caches
  have hcontents : fileContents v.disk file = bytes := hfetched.contents.trans hbytes
  rw [← hcontents] at hloc hspace ⊢
  rw [fileContents_length] at hloc hspace
  obtain ⟨after, hafter, hwritten⟩ := (hok.existing hleads).byteWritten hok.sound
    (hcaches.record hok.toImageOk) hloc hspace val
  obtain ⟨blocks, hchange, hnext, hdata⟩ := hwritten.image
  have hcall : v.call m (.write path val loc) =
      some ({ code := SUCCESS }, cached.update position after) := by
    rw [Volume.call, echfsWrite, hcache, Option.bind_some]
    dsimp only
    rw [hcaches.found, if_neg Bool.false_ne_true, hfetched.disk, hafter]
    rfl
  refine ⟨_, hcall, ?_⟩
  rw [← hwritten.contents]
  refine hok.put hnamed hfetched hchange hnext hwritten.table ?_ hwritten.path hdata
  rw [hwritten.target]
  exact ⟨rfl, rfl, rfl⟩

section Read

variable {position : Nat} {cached : Volume}

theorem chain_length (hok : VolumeOk m v entries chains)
    (hfetched : Fetched m v chains path index position file cached) :
    (chains index).length = blockCount file.size := by
  rw [CachedFile.size, hfetched.caches.target]
  exact (hok.sound.files index hfetched.caches.live).length

-- An access that keeps the bytes of the file, on the disk or in the cached block.
theorem keeps (hok : VolumeOk m v entries chains)
    (hnamed : NamedFile entries (fileName v.disk m path) index)
    (hfetched : Fetched m v chains path index position file cached) {record : CachedFile}
    (hkeeps : Keeps m (chains index) (v.disk, file) (next, record)) :
    Served m v (cached.update position (next, record)) (fileName v.disk m path)
      (some (fileContents v.disk file)) := by
  obtain ⟨hokNext, hsame, hbytesNext, hresult, hpath⟩ := hkeeps
  dsimp only at hokNext hsame hbytesNext hresult hpath
  obtain ⟨hlt, -⟩ := namedFile_iff.mp hnamed
  have hgeometry := hok.sound.geometry
  have hcaches := hfetched.caches
  have hlive := hcaches.live
  have hchange := hsame.slotChange hok.sound hlive
  have htarget : file.pathResult.target = entries[index] := by
    rw [hcaches.target, hok.table.used index hlt]
  have hsize : record.size = file.size := by rw [CachedFile.size, hresult, CachedFile.size]
  have hsameBytes : fileContents next record = fileContents v.disk file := by
    unfold fileContents
    rw [hsize]
    apply fileBytes_congr
    intro pos _ hpos
    refine hbytesNext pos ?_
    rw [hok.chain_length hfetched]
    exact div_lt_blockCount (by omega)
  have htable : Table m next (entries.set index record.pathResult.target) := by
    rw [hresult, htarget, List.set_getElem_self]
    exact hok.table.of_same hgeometry fun address _ hhigh => hsame.below hgeometry hcaches.ok.data hhigh
  have hlast := htable.used index (by rw [List.length_set]; exact hlt)
  rw [List.getElem_set_self] at hlast
  have hnextLive : LiveFile m next index := by
    unfold LiveFile
    rw [hlast, hresult, hcaches.target]
    exact hlive
  rw [← hsameBytes]
  refine hok.put hnamed hfetched hchange ⟨hnextLive, ?_, ?_, hlast.symm, ?_⟩ htable ?_ hpath ?_
  · rw [hresult]
    exact hcaches.found
  · rw [hresult]
    exact hcaches.targetEntry
  · rw [Function.update_self]
    exact hokNext
  · rw [hresult]
    exact ⟨rfl, rfl, rfl⟩
  · intro other hother hne block hmem offset hoffset
    have hwrite : FileWrite m index (chains index) v.disk next :=
      hsame.fileWrite hgeometry hcaches.ok.data
    refine hwrite.data block ((hok.sound.files other hother).data block hmem) (fun hmem' => ?_)
      offset hoffset
    exact hok.sound.disjoint other index hother hlive hne hmem hmem'

end Read

-- A read gives the byte, or says that the file ends before it.
theorem read (hok : VolumeOk m v entries chains)
    (hfile : v.files m (fileName v.disk m path) = some bytes) (hspelling : OneSpelling v m path)
    (loc : Nat) :
    ∃ w, v.call m (.read path loc) =
        some ({ code := (bytes[loc]?.map fun byte => (byte.toNat : Int)).getD EOF }, w) ∧
      Served m v w (fileName v.disk m path) (some bytes) := by
  obtain ⟨index, hnamed, hleads, hbytes⟩ := hok.file_of_some hfile
  obtain ⟨position, file, cached, hcache, hfetched⟩ := hok.fetched hleads hspelling
  have hcaches := hfetched.caches
  have hcontents : fileContents v.disk file = bytes := hfetched.contents.trans hbytes
  have hlength := hok.chain_length hfetched
  rw [← hcontents]
  have hget : (fileContents v.disk file)[loc]? =
      if loc < file.size then some (contents v.disk file loc) else none := by
    rw [fileContents, fileBytes_getElem?, Nat.zero_add]
  by_cases hend : loc < file.size
  · have hinside : loc / BYTES_PER_BLOCK < (chains index).length := by
      rw [hlength]
      exact div_lt_blockCount hend
    have hread : (readByte (byteAccess m) v.disk file loc).1 = contents v.disk file loc ∧
        Keeps m (chains index) (v.disk, file) (readByte (byteAccess m) v.disk file loc).2 :=
      readByte_spec hok.sound.geometry hcaches.ok hinside
    obtain ⟨hbyte, hkeeps⟩ := hread
    have hcall : v.call m (.read path loc) = some ({ code := (contents v.disk file loc).toNat },
        cached.update position (readByte (byteAccess m) v.disk file loc).2) := by
      have hsize : ¬ file.pathResult.target.size ≤ loc := Nat.not_le.mpr hend
      rw [Volume.call, echfsRead, hcache, Option.map_some]
      dsimp only
      rw [hcaches.found, if_neg Bool.false_ne_true, if_neg hsize, hfetched.disk, hbyte]
      rfl
    refine ⟨_, ?_, hok.keeps hnamed hfetched hkeeps⟩
    rw [hcall, hget, if_pos hend]
    rfl
  · have hcall : v.call m (.read path loc) = some ({ code := EOF },
        cached.update position (v.disk, file)) := by
      have hsize : file.pathResult.target.size ≤ loc := Nat.le_of_not_lt hend
      have hupdate : cached.update position (v.disk, file) = cached := by
        have hself : cached.cachedFiles.set position file = cached.cachedFiles := by
          obtain ⟨hlt, hgetElem⟩ := List.getElem?_eq_some_iff.mp hfetched.slot
          rw [← hgetElem, List.set_getElem_self]
        rw [Volume.update, hself, ← hfetched.disk]
      rw [Volume.call, echfsRead, hcache, Option.map_some, hupdate]
      dsimp only
      rw [hcaches.found, if_neg Bool.false_ne_true, if_pos hsize]
      rfl
    refine ⟨_, ?_, hok.keeps hnamed hfetched (Keeps.refl hcaches.ok)⟩
    rw [hcall, hget, if_neg hend]
    rfl

theorem getMetadata (hok : VolumeOk m v entries chains) (path : Path) :
    v.call m (.getMetadata path) =
      some ((fileCell (v.files m (fileName v.disk m path)) (.getMetadata path)).1, v) := by
  have hroot : ¬ ((path.text = [47] ∨ path.text = []) ∧ FILE_TYPE = DIRECTORY_TYPE) :=
    fun h => file_ne_directory h.2
  cases hfile : v.files m (fileName v.disk m path) with
  | some bytes =>
      obtain ⟨index, hnamed, hleads, hbytes⟩ := hok.file_of_some hfile
      obtain ⟨hfound, -, htarget⟩ := hok.resolved hleads
      have hlength := hok.contentsAt_length (hok.live hnamed)
      rw [Volume.call, echfsGetMetadata, if_neg hroot]
      dsimp only
      rw [hleads.failure, hfound, if_neg Bool.false_ne_true, if_neg Bool.false_ne_true, htarget,
        ← hlength, hbytes]
      rfl
  | none =>
      rw [Volume.call, echfsGetMetadata, if_neg hroot]
      dsimp only
      cases hfailure : (pathResolver v.disk m path FILE_TYPE).failure with
      | true => rfl
      | false =>
          rw [hok.missing hfailure hfile]
          rfl

end VolumeOk

end EchidnaOS.Echfs
