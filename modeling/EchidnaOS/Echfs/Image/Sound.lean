import EchidnaOS.Echfs.Image.Frame

namespace EchidnaOS.Echfs

open EchidnaOS.Lib.ByteStore

variable {disk next : Store} {m : Mount} {chains : Nat → List Nat} {blocks : List Nat}
  {file : CachedFile} {index other block : Nat}

-- A slot of the directory area that holds a file.
def LiveFile (m : Mount) (disk : Store) (index : Nat) : Prop :=
  index < capacity m ∧ (rdEntry disk m index).parentId ≠ 0 ∧ (rdEntry disk m index).IsFile

-- The allocation table agrees with the directory: it links the blocks of each file and
-- marks every other data block as free.
structure Sound (m : Mount) (disk : Store) (chains : Nat → List Nat) : Prop where
  geometry : Geometry m
  reserved : ∀ block, block < m.datastart → fat disk m block ≠ 0
  names : ∀ index, index < capacity m → (rdEntry disk m index).parentId ≠ 0 →
    (rdEntry disk m index).name.length < FILENAME_LEN
  files : ∀ index, LiveFile m disk index → FileChain m disk (rdEntry disk m index) (chains index)
  disjoint : ∀ first second, LiveFile m disk first → LiveFile m disk second → first ≠ second →
    (chains first).Disjoint (chains second)
  free : ∀ block, DataBlock m block → (∀ index, LiveFile m disk index → block ∉ chains index) →
    fat disk m block = 0

-- The record of the file in slot `index` is up to date.
structure Caches (m : Mount) (disk : Store) (chains : Nat → List Nat) (index : Nat)
    (file : CachedFile) : Prop where
  live : LiveFile m disk index
  found : file.pathResult.notFound = false
  targetEntry : file.pathResult.targetEntry = index
  target : file.pathResult.target = rdEntry disk m index
  ok : FileOk m disk file (chains index)

-- Two images whose directories differ in one slot only.
def SameOtherSlots (m : Mount) (index : Nat) (disk next : Store) : Prop :=
  ∀ address, m.dirstart * BYTES_PER_BLOCK ≤ address → address < m.datastart * BYTES_PER_BLOCK →
    address < entryLoc m index ∨ entryLoc m index + SIZEOF_ENTRY ≤ address →
    next address = disk address

namespace SameOtherSlots

-- The bytes of another slot.
theorem slot (hgeometry : Geometry m) (hsame : SameOtherSlots m index disk next)
    (hindex : index < capacity m) (hother : other < capacity m) (hne : other ≠ index) :
    ∀ address, entryLoc m other ≤ address → address < entryLoc m other + SIZEOF_ENTRY →
      next address = disk address := by
  intro address hlow hhigh
  obtain ⟨hstart, hend⟩ := entryLoc_end_le hgeometry hother
  have hapart := entryLoc_apart hgeometry.directoryFits hindex hother hne
  exact hsame address (by omega) (by omega) (by omega)

theorem parentId (hgeometry : Geometry m) (hsame : SameOtherSlots m index disk next)
    (hindex : index < capacity m) (hother : other < capacity m) (hne : other ≠ index) :
    (rdEntry next m other).parentId = (rdEntry disk m other).parentId := by
  show leValue (read _ _ 8) = leValue (read _ _ 8)
  congr 1
  apply read_congr
  intro address hlow hhigh
  apply hsame.slot hgeometry hindex hother hne address hlow
  simp only [SIZEOF_ENTRY]
  omega

theorem rdEntry (hgeometry : Geometry m) (hsame : SameOtherSlots m index disk next)
    (hindex : index < capacity m) (hother : other < capacity m) (hne : other ≠ index)
    (hname : (rdEntry disk m other).name.length < FILENAME_LEN) :
    Echfs.rdEntry next m other = Echfs.rdEntry disk m other :=
  rdEntry_congr hname (hsame.slot hgeometry hindex hother hne)

end SameOtherSlots

-- A change of slot `index`, whose file has the blocks `blocks` if it holds one after it.
structure SlotChange (m : Mount) (chains : Nat → List Nat) (index : Nat) (blocks : List Nat)
    (disk next : Store) : Prop where
  index_lt : index < capacity m
  slots : SameOtherSlots m index disk next
  name_lt : (rdEntry next m index).name.length < FILENAME_LEN
  file : LiveFile m next index → FileChain m next (rdEntry next m index) blocks
  fat : ∀ other, LiveFile m disk other → other ≠ index → ∀ block ∈ chains other,
    fat next m block = fat disk m block
  reserved : ∀ block, block < m.datastart → Echfs.fat next m block = Echfs.fat disk m block
  disjoint : LiveFile m next index → ∀ other, LiveFile m disk other → other ≠ index →
    blocks.Disjoint (chains other)
  free : ∀ block, DataBlock m block → (LiveFile m next index → block ∉ blocks) →
    (∀ other, LiveFile m disk other → other ≠ index → block ∉ chains other) →
    Echfs.fat next m block = 0

-- The other slots hold the files they held.
theorem Sound.slot_same (hsound : Sound m disk chains)
    (hsame : SameOtherSlots m index disk next) (hindex : index < capacity m)
    (hother : other < capacity m) (hne : other ≠ index)
    (hparent : (rdEntry disk m other).parentId ≠ 0) : rdEntry next m other = rdEntry disk m other :=
  hsame.rdEntry hsound.geometry hindex hother hne (hsound.names other hother hparent)

theorem Sound.live_iff (hsound : Sound m disk chains) (hsame : SameOtherSlots m index disk next)
    (hindex : index < capacity m) (hne : other ≠ index) :
    LiveFile m next other ↔ LiveFile m disk other := by
  unfold LiveFile
  constructor
  · rintro ⟨hlt, hparent, hfile⟩
    rw [hsame.parentId hsound.geometry hindex hlt hne] at hparent
    rw [hsound.slot_same hsame hindex hlt hne hparent] at hfile
    exact ⟨hlt, hparent, hfile⟩
  · rintro ⟨hlt, hparent, hfile⟩
    rw [hsound.slot_same hsame hindex hlt hne hparent]
    exact ⟨hlt, hparent, hfile⟩

theorem Sound.change (hsound : Sound m disk chains)
    (hchange : SlotChange m chains index blocks disk next) :
    Sound m next (Function.update chains index blocks) := by
  have hgeometry := hsound.geometry
  have hindex := hchange.index_lt
  have hlive : ∀ other, other ≠ index → (LiveFile m next other ↔ LiveFile m disk other) :=
    fun other hne => hsound.live_iff hchange.slots hindex hne
  refine ⟨hgeometry, ?_, ?_, ?_, ?_, ?_⟩
  · intro block hlow
    rw [hchange.reserved block hlow]
    exact hsound.reserved block hlow
  · intro other hother hparent
    by_cases heq : other = index
    · rw [heq]
      exact hchange.name_lt
    · rw [hchange.slots.parentId hgeometry hindex hother heq] at hparent
      rw [hsound.slot_same hchange.slots hindex hother heq hparent]
      exact hsound.names other hother hparent
  · intro other hother
    by_cases heq : other = index
    · subst heq
      rw [Function.update_self]
      exact hchange.file hother
    · have hold := (hlive other heq).mp hother
      have hchain := hsound.files other hold
      rw [Function.update_of_ne heq, hsound.slot_same hchange.slots hindex hold.1 heq hold.2.1]
      exact ⟨hchain.data, hchain.linked.congr (hchange.fat other hold heq), hchain.nodup, hchain.length⟩
  · intro first second hfirst hsecond hne
    by_cases hleft : first = index
    · have hright : second ≠ index := fun h => hne (hleft.trans h.symm)
      subst hleft
      rw [Function.update_self, Function.update_of_ne hright]
      exact hchange.disjoint hfirst second ((hlive second hright).mp hsecond) hright
    · rw [Function.update_of_ne hleft]
      have hfirst := (hlive first hleft).mp hfirst
      by_cases hright : second = index
      · subst hright
        rw [Function.update_self]
        exact List.disjoint_comm.mp (hchange.disjoint hsecond first hfirst hleft)
      · rw [Function.update_of_ne hright]
        exact hsound.disjoint first second hfirst ((hlive second hright).mp hsecond) hne
  · intro block hblock hout
    refine hchange.free block hblock ?_ ?_
    · intro hnext
      have := hout index hnext
      rwa [Function.update_self] at this
    · intro other hother hne
      have := hout other ((hlive other hne).mpr hother)
      rwa [Function.update_of_ne hne] at this

-- The record of another file stays up to date when the blocks of that file keep their bytes.
theorem Caches.keep (hcaches : Caches m disk chains other file) (hsound : Sound m disk chains)
    (hsame : SameOtherSlots m index disk next) (hindex : index < capacity m) (hne : other ≠ index)
    (hbytes : ∀ block ∈ chains other, ∀ offset, offset < BYTES_PER_BLOCK →
      next (blockLoc block + offset) = disk (blockLoc block + offset)) :
    Caches m next (Function.update chains index blocks) other file := by
  obtain ⟨hlive, hfound, htargetEntry, htarget, hok⟩ := hcaches
  refine ⟨(hsound.live_iff hsame hindex hne).mpr hlive, hfound, htargetEntry, ?_, ?_⟩
  · rw [hsound.slot_same hsame hindex hlive.1 hne hlive.2.1]
    exact htarget
  · rw [Function.update_of_ne hne]
    exact hok.of_disk hbytes

-- In a well-formed image the files of the directory are those of its list of entries.
theorem WellFormed.live_iff {entries : List Entry} (hwf : WellFormed m disk entries chains) :
    LiveFile m disk index ↔ ∃ h : index < entries.length, entries[index].IsFile := by
  have htable := hwf.table
  have hroom := htable.room
  constructor
  · rintro ⟨hlt, hparent, hfile⟩
    have hindex : index < entries.length := by
      by_contra hout
      exact hparent (htable.free index (by omega) hlt)
    rw [htable.used index hindex] at hfile
    exact ⟨hindex, hfile⟩
  · rintro ⟨hindex, hfile⟩
    rw [← htable.used index hindex] at hfile
    exact ⟨by omega, htable.parentId_ne hindex, hfile⟩

theorem WellFormed.sound {entries : List Entry} (hwf : WellFormed m disk entries chains)
    (hfree : ∀ block, DataBlock m block →
      (∀ index (h : index < entries.length), entries[index].IsFile → block ∉ chains index) →
      fat disk m block = 0) : Sound m disk chains := by
  have htable := hwf.table
  refine ⟨hwf.geometry, hwf.reserved, ?_, ?_, ?_, ?_⟩
  · intro index hlt hparent
    refine htable.name_lt (by_contra fun hout => hparent ?_)
    exact htable.free index (by omega) hlt
  · intro index hlive
    obtain ⟨hindex, hfile⟩ := hwf.live_iff.mp hlive
    rw [htable.used index hindex]
    exact hwf.files index hindex hfile
  · intro first second hfirst hsecond hne
    obtain ⟨hleft, hleftFile⟩ := hwf.live_iff.mp hfirst
    obtain ⟨hright, hrightFile⟩ := hwf.live_iff.mp hsecond
    exact hwf.disjoint first second hleft hright hleftFile hrightFile hne
  · intro block hblock hout
    exact hfree block hblock fun index hindex hfile => hout index (hwf.live_iff.mpr ⟨hindex, hfile⟩)

end EchidnaOS.Echfs
