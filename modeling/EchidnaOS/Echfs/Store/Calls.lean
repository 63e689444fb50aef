import EchidnaOS.Echfs.Store.Step

namespace EchidnaOS.Echfs

open EchidnaOS.Lib.ByteStore

variable {m : Mount} {v w : Volume} {entries : List Entry} {chains : Nat → List Nat}
  {blocks : List Nat} {file : CachedFile} {entry : Entry} {path : Path} {index slot loc : Nat}
  {bytes : List UInt8} {disk next : Store}

theorem Caches.record (hcaches : Caches m disk chains index file) (himage : ImageOk m disk entries chains) :
    RecordOk m disk entries chains index file := by
  obtain ⟨hlive, hfound, htargetEntry, htarget, hok⟩ := hcaches
  obtain ⟨hlt, -⟩ := himage.live_iff.mp hlive
  refine ⟨hfound, htargetEntry, ?_, hok⟩
  rw [htarget, himage.table.used index hlt, List.getElem?_eq_getElem hlt]

namespace VolumeOk

theorem contentsAt_length (hok : VolumeOk m v entries chains) (hlive : LiveFile m v.disk index) :
    (v.contentsAt m index).length = (rdEntry v.disk m index).size := by
  rw [Volume.contentsAt, fileContents_length, CachedFile.size, (hok.recordAt hlive).target]

theorem existing (hok : VolumeOk m v entries chains) (hleads : Leads v.disk m path index) :
    Existing m v entries chains path index := by
  obtain ⟨hfailure, hnamed⟩ := hok.leads_iff.mp hleads
  obtain ⟨hfound, htarget, -⟩ := hok.resolved hleads
  obtain ⟨hlt, hfile, -⟩ := namedFile_iff.mp hnamed
  refine ⟨hok.wellFormed, hlt, hfile, hfailure, hfound, htarget, ?_⟩
  intro file hmem hpath
  have hcaches := hok.cached file hmem
  rw [hok.target_of_path hleads hmem hpath] at hcaches
  exact hcaches.record hok.toImageOk

-- The file that a call finds under the path.
theorem file_of_some (hok : VolumeOk m v entries chains)
    (hfile : v.files m (fileName v.disk m path) = some bytes) :
    ∃ index, NamedFile entries (fileName v.disk m path) index ∧ Leads v.disk m path index ∧
      v.contentsAt m index = bytes := by
  obtain ⟨index, hnamed, hbytes⟩ := hok.files_eq_some.mp hfile
  exact ⟨index, hnamed, hok.leads_of_file hnamed, hbytes⟩

section Create

theorem findEmpty_slot (hok : VolumeOk m v entries chains) (hempty : findEmpty v.disk m = some slot)
    (hslot : slot < searchEnd m) :
    EmptySlot m v.disk slot ∧ slot + 1 < capacity m ∧ ∀ entry : Entry, entry.Fits → entry.parentId ≠ 0 →
      ∃ after, EntryWritten slot entry entries after ∧ Table m (wrEntry v.disk m slot entry) after ∧
        after.length ≤ searchEnd m := by
  have hfits := hok.sound.geometry.directoryFits
  have hcapacity : slot + 1 < capacity m := by
    rw [searchEnd_eq hfits] at hslot
    simp only [capacity, BYTES_PER_BLOCK, SIZEOF_ENTRY, ENTRIES_PER_BLOCK] at *
    omega
  have hfirst := hok.table.findEmpty hfits
  rw [hempty, Option.some.injEq] at hfirst
  by_cases hlt : slot < entries.length
  · have hdeleted : entries[slot].parentId = DELETED_ENTRY := by
      subst hfirst
      exact of_decide_eq_true (List.findIdx_getElem (w := hlt))
    refine ⟨⟨by omega, Or.inr ?_⟩, hcapacity, fun entry hentry hparent => ?_⟩
    · rw [hok.table.used slot hlt]
      exact hdeleted
    · refine ⟨_, .overwrite hlt, hok.table.set hfits hlt hentry hparent, ?_⟩
      rw [List.length_set]
      exact hok.inside
  · have hend : slot = entries.length := by
      have hle : slot ≤ entries.length := hfirst ▸ List.findIdx_le_length
      omega
    refine ⟨⟨by omega, Or.inl ?_⟩, hcapacity, fun entry hentry hparent => ?_⟩
    · rw [hend]
      exact hok.table.terminator
    · subst hend
      refine ⟨_, .append rfl, hok.table.append hfits hcapacity hentry hparent, ?_⟩
      rw [List.length_append, List.length_singleton]
      omega

theorem create (hok : VolumeOk m v entries chains)
    (hfailure : (pathResolver v.disk m path FILE_TYPE).failure = false)
    (hnone : v.files m (fileName v.disk m path) = none) (hempty : findEmpty v.disk m = some slot)
    (hslot : slot < searchEnd m) :
    ∃ w, v.call m (.create path) = some ({ code := SUCCESS }, w) ∧
      Served m v w (fileName v.disk m path) (some []) := by
  have hgeometry := hok.sound.geometry
  obtain ⟨hroot, hresolved⟩ := pathResolver_notRoot hfailure
  obtain ⟨hnameLt, hnameNe⟩ := pathResolver_name hroot hfailure
  obtain ⟨⟨hparentNe, hparentLive⟩, -⟩ := hok.formed.pathResolver_last hfailure
  have hparentLt : (fileName v.disk m path).parent < 2 ^ 64 := by
    rw [fileName, hresolved]
    exact resolveFrom_parent_lt (show ROOT_ID < 2 ^ 64 by decide)
  obtain ⟨name, hname⟩ : ∃ name, name = fileName v.disk m path := ⟨_, rfl⟩
  obtain ⟨entry, hentry⟩ : ∃ entry : Entry, entry =
      { parentId := name.parent, type := FILE_TYPE, name := name.name, payload := END_OF_CHAIN } :=
    ⟨_, rfl⟩
  have hcreate : v.call m (.create path) = some ({ code := SUCCESS },
      { v with disk := wrEntry v.disk m slot entry }) := by
    rw [Volume.call, echfsCreate, hfailure, if_neg Bool.false_ne_true, addEntry, hempty, hentry, hname]
    rfl
  rw [← hname] at hparentNe hparentLive hparentLt hnone ⊢
  have hfits : entry.Fits := by
    rw [hentry, hname]
    exact ⟨hname ▸ hparentLt, show END_OF_CHAIN < 2 ^ 64 by decide, Nat.two_pow_pos 64, hnameLt, hnameNe⟩
  have hfile : entry.IsFile ∧ entry.parentId = name.parent ∧ entry.name = name.name := by
    rw [hentry]
    exact ⟨⟨rfl, hparentLive⟩, rfl, rfl⟩
  obtain ⟨hfree, -, hwrite⟩ := hok.findEmpty_slot hempty hslot
  obtain ⟨after, hwritten, htable, hinside⟩ := hwrite entry hfits (by rw [hfile.2.1]; exact hparentNe)
  have hchange := hok.sound.create hfree hfits (by rw [hentry]) (by rw [hentry])
  obtain ⟨-, -, hdata⟩ := wrEntry_outside v.disk hgeometry hfree.1 hfits
  have hnamed : NamedFile after name slot := ⟨entry, hwritten.getElem?_self, hfile⟩
  have hfresh : ∀ record ∈ v.cachedFiles, record.pathResult.targetEntry ≠ slot := by
    intro record hmem htarget
    have hlive := (hok.cached record hmem).live
    rw [htarget] at hlive
    exact hfree.not_live hlive
  have hbefore : ∀ other, ¬ NamedFile entries other slot := fun other h => hfree.not_live (hok.live h)
  have hafter : ∀ other, NamedFile after other slot → other = name := fun other h => hnamed.name_eq h
  have hstep : SlotStep m v { v with disk := wrEntry v.disk m slot entry } entries after chains slot []
      entry := by
    refine ⟨hwritten, htable, hinside, hchange, ?_, ?_, ?_, ?_, fun _ _ => Iff.rfl, ?_, hok.oneName⟩
    · rw [hfile.1.1]
      exact file_ne_directory
    · intro h
      rcases hfree.2 with hzero | hdeleted
      · exact absurd hzero (hok.table.parentId_ne h)
      · rw [hok.table.used slot h] at hdeleted
        exact Or.inl hdeleted
    · intro other hother other' hne hold
      rw [hafter other hother] at hold
      exact hok.files_eq_none.mp hnone other' hold
    · intro other hlive _ block hmem offset _
      exact hdata block offset ((hok.sound.files other hlive).data block hmem)
    · intro record hmem htarget
      exact absurd htarget (hfresh record hmem)
  refine ⟨_, hcreate, hstep.served hok (fun other h => absurd h (hbefore other)) hafter ?_⟩
  have hnext := hstep.volumeOk hok
  refine hnext.files_eq_some.mpr ⟨slot, hnamed, ?_⟩
  rw [← List.length_eq_zero_iff, hnext.contentsAt_length (hnext.live hnamed)]
  show (rdEntry (wrEntry v.disk m slot entry) m slot).size = 0
  rw [rdEntry_wrEntry _ _ _ hfits, hentry]

end Create

section Remove

-- The result the removal goes by.
theorem removal_file (hok : VolumeOk m v entries chains) (hleads : Leads v.disk m path index) :
    (v.removal m path).notFound = false ∧ (v.removal m path).targetEntry = index ∧
      (v.removal m path).target = rdEntry v.disk m index := by
  unfold Volume.removal
  cases hrecord : v.record path with
  | none => exact hok.resolved hleads
  | some file =>
      have hmem := List.mem_of_find?_eq_some hrecord
      have hpath : file.path = path := by
        have htest := List.find?_some hrecord
        exact of_decide_eq_true htest
      have htarget := hok.target_of_path hleads hmem hpath
      have hcaches := hok.cached file hmem
      rw [htarget] at hcaches
      exact ⟨hcaches.found, htarget, hcaches.target⟩

-- The records that the removal of a file leaves.
theorem erased_records (hok : VolumeOk m v entries chains) (hleads : Leads v.disk m path index)
    (hspelling : OneSpelling v m path) :
    (∀ record, record.pathResult.targetEntry ≠ index →
      (record ∈ v.cachedFiles.eraseP (fun file => file.path = path) ↔ record ∈ v.cachedFiles)) ∧
    ∀ record ∈ v.cachedFiles.eraseP (fun file => file.path = path),
      record.pathResult.targetEntry ≠ index := by
  constructor
  · intro record hne
    refine ⟨List.mem_of_mem_eraseP, fun hmem => ?_⟩
    rw [List.mem_eraseP_of_neg]
    · exact hmem
    · rw [decide_eq_true_eq]
      exact fun hpath => hne (hok.target_of_path hleads hmem hpath)
  · intro record hmem htarget
    have hold := List.mem_of_mem_eraseP hmem
    obtain ⟨first, front, back, -, hfirst, hlist, herase⟩ :=
      List.exists_of_eraseP (p := fun file => file.path = path) hold
        (decide_eq_true (hok.path_of_target hleads hspelling hold htarget))
    have hfirstMem : first ∈ v.cachedFiles := by
      rw [hlist]
      exact List.mem_append_right front List.mem_cons_self
    have hfirstTarget := hok.target_of_path hleads hfirstMem (of_decide_eq_true hfirst)
    have hnodup := hok.oneName
    rw [hlist, List.map_append, List.map_cons] at hnodup
    have hout := (List.nodup_cons.mp (List.nodup_middle.mp hnodup)).1
    rw [herase] at hmem
    apply hout
    rw [← List.map_append, List.mem_map]
    exact ⟨record, hmem, by rw [htarget, hfirstTarget]⟩

theorem remove (hok : VolumeOk m v entries chains)
    (hfile : v.files m (fileName v.disk m path) = some bytes) (hspelling : OneSpelling v m path) :
    ∃ w, v.call m (.remove path) = some ({ code := SUCCESS }, w) ∧
      Served m v w (fileName v.disk m path) none := by
  obtain ⟨index, hnamed, hleads, -⟩ := hok.file_of_some hfile
  have hgeometry := hok.sound.geometry
  have hlive := hok.live hnamed
  obtain ⟨hlt, hisFile, -⟩ := namedFile_iff.mp hnamed
  obtain ⟨hfound, htargetEntry, htarget⟩ := hok.removal_file hleads
  obtain ⟨hothers, hown⟩ := hok.erased_records hleads hspelling
  have hchain := hok.sound.files index hlive
  have hlength := chain_length_le hchain.data hchain.nodup
  have hdevice := hgeometry.device_le
  have hfuel : (chains index).length < 2 ^ 61 + 1 := by
    simp only [BYTES_PER_BLOCK] at hdevice
    omega
  obtain ⟨freed, hfreed, hfat, hout⟩ :=
    freeChain_linked hgeometry hchain.linked hchain.nodup hchain.data hfuel
  obtain ⟨w, hw⟩ : ∃ w : Volume, w =
      { disk := wrEntry freed m index deletedEntry
        cachedFiles := v.cachedFiles.eraseP fun file => file.path = path } := ⟨_, rfl⟩
  have hremove : v.call m (.remove path) = some ({ code := SUCCESS }, w) := by
    rw [hw, Volume.call, echfsRemove, removeResolved, hfound, if_neg Bool.false_ne_true, htarget,
      htargetEntry, hfreed]
    rfl
  have htable : Table m (wrEntry freed m index deletedEntry) (entries.set index deletedEntry) :=
    (hok.table.of_same hgeometry fun address hlow _ => hout address hlow).set hgeometry.directoryFits
      hlt deletedEntry_fits (by decide)
  have hchange := hok.sound.remove hlive hfat hout
  obtain ⟨-, -, hblocks⟩ := wrEntry_outside freed hgeometry hlive.1 deletedEntry_fits
  have hwritten : EntryWritten index deletedEntry entries (entries.set index deletedEntry) := .overwrite hlt
  have hgone : ∀ other, ¬ NamedFile (entries.set index deletedEntry) other index := by
    rintro other ⟨entry, hentry, hentryFile, -⟩
    rw [hwritten.getElem?_self] at hentry
    obtain rfl := Option.some.inj hentry
    exact hentryFile.2 rfl
  have hstep : SlotStep m v w entries (entries.set index deletedEntry) chains index [] deletedEntry := by
    subst hw
    refine ⟨hwritten, htable, by rw [List.length_set]; exact hok.inside, hchange, ?_, ?_, ?_, ?_,
      hothers, ?_, hok.oneName.sublist (List.Sublist.map _ List.eraseP_sublist)⟩
    · exact file_ne_directory
    · intro h
      rw [hisFile.1]
      exact Or.inr file_ne_directory
    · intro other hother
      exact absurd hother (hgone other)
    · intro other hother _ block hmem offset _
      have hblock := (hok.sound.files other hother).data block hmem
      have habove := (data_above_directory hgeometry hblock).2
      dsimp only
      rw [hblocks block offset hblock]
      exact hout _ (by omega)
    · intro record hmem htarget
      exact absurd htarget (hown record hmem)
  refine ⟨_, hremove, hstep.served hok (fun other h => hnamed.name_eq h)
    (fun other h => absurd h (hgone other)) ?_⟩
  rw [(hstep.volumeOk hok).files_eq_none]
  intro other hother
  by_cases hne : other = index
  · exact hgone _ (hne ▸ hother)
  · exact hne (hok.single _ other index ((hwritten.namedFile hne).mp hother) hnamed)

-- Removing what is not there fails and changes nothing.
theorem remove_missing (hok : VolumeOk m v entries chains)
    (hfailure : (pathResolver v.disk m path FILE_TYPE).failure = false)
    (hnone : v.files m (fileName v.disk m path) = none) :
    v.call m (.remove path) = some ({ code := FAILURE }, v) := by
  have hmiss : ∀ file ∈ v.cachedFiles, file.path ≠ path := by
    intro file hmem hpath
    obtain ⟨-, hnamed⟩ := hok.leads_iff.mp (hok.leads file hmem)
    rw [hpath] at hnamed
    exact hok.files_eq_none.mp hnone _ hnamed
  have hrecord : v.record path = none := by
    rw [Volume.record, List.find?_eq_none]
    intro file hmem
    rw [decide_eq_true_eq]
    exact hmiss file hmem
  have hsame : v.cachedFiles.eraseP (fun file => file.path = path) = v.cachedFiles := by
    apply List.eraseP_of_forall_not
    intro file hmem
    rw [decide_eq_true_eq]
    exact hmiss file hmem
  rw [Volume.call, echfsRemove, Volume.removal, hrecord, removeResolved, hok.missing hfailure hnone,
    if_pos rfl, hsame]
  rfl

end Remove

end VolumeOk

end EchidnaOS.Echfs
