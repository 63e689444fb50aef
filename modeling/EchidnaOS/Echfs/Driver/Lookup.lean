import Mathlib.Data.List.DropRight
import EchidnaOS.Echfs.Driver.Image

namespace EchidnaOS.Echfs

open EchidnaOS.Lib.ByteStore

-- `vfs_metadata_t`, as echfs_get_metadata fills it in.
structure Metadata where
  filetype : UInt8
  size : Nat
  filename : CString
  deriving DecidableEq

-- FAILURE is `none`.
def echfsGetMetadata (disk : Store) (m : Mount) (path : Path) (type : UInt8) : Option Metadata :=
  if (path.text = [47] ∨ path.text = []) ∧ type = DIRECTORY_TYPE then
    some { filetype := type, size := 0, filename := [47] }
  else
    let result := pathResolver disk m path type
    if result.failure then none
    else if result.notFound then none
    else some { filetype := type, size := result.target.size, filename := result.target.name }

def lastComponent (text : CString) : CString := text.rtakeWhile (· ≠ 47)

-- A slot with an entry in it.
def Occupied (m : Mount) (disk : Store) (index : Nat) : Prop :=
  (rdEntry disk m index).parentId ≠ 0 ∧ (rdEntry disk m index).parentId ≠ DELETED_ENTRY

-- Names end inside their fields, and no directory has an id that marks free slots.
structure DirectoryFormed (m : Mount) (disk : Store) : Prop where
  fits : DirectoryFits m
  names : ∀ index, index < capacity m → Occupied m disk index →
    (rdEntry disk m index).name.length < FILENAME_LEN
  ids : ∀ index, index < capacity m → Occupied m disk index →
    (rdEntry disk m index).type = DIRECTORY_TYPE →
      (rdEntry disk m index).payload ≠ 0 ∧ (rdEntry disk m index).payload ≠ DELETED_ENTRY

def Resolves (disk : Store) (m : Mount) (path : Path) (type : UInt8) : Prop :=
  (pathResolver disk m path type).failure = false ∧ (pathResolver disk m path type).notFound = false

-- A file that was created is found, and every path that led to an entry still does.
def CreatedFound (disk : Store) (m : Mount) (path : Path) : Prop :=
  ∀ after, echfsCreate disk m path = some (some after) →
    echfsGetMetadata after m path FILE_TYPE =
        some { filetype := FILE_TYPE, size := 0, filename := lastComponent path.text } ∧
      ∀ other type, Resolves disk m other type →
        pathResolver after m other type = pathResolver disk m other type

-- Where search stops at the latest.
abbrev searchEnd (m : Mount) : Nat := m.dirsize * ENTRIES_PER_BLOCK % 2 ^ 64

variable {disk after : Store} {m : Mount} {index slot : Nat} {name text : CString} {parent : Nat}
  {type : UInt8} {entry start : Entry} {path : Path}

abbrev Matches (disk : Store) (m : Mount) (name : CString) (parent : Nat) (type : UInt8) (index : Nat) :
    Prop :=
  (rdEntry disk m index).parentId = parent ∧ (rdEntry disk m index).type = type ∧
    (rdEntry disk m index).name = name

section Search

theorem searchEnd_le (m : Mount) : searchEnd m ≤ capacity m := by
  unfold searchEnd capacity
  simp only [ENTRIES_PER_BLOCK, BYTES_PER_BLOCK, SIZEOF_ENTRY]
  omega

theorem searchFrom_eq_some_iff {fuel found : Nat} (hfuel : searchEnd m - index < fuel) :
    searchFrom disk m name parent type fuel index = some found ↔
      index ≤ found ∧ found < searchEnd m ∧
      (∀ other, index ≤ other → other ≤ found → (rdEntry disk m other).parentId ≠ 0) ∧
      Matches disk m name parent type found ∧
      ∀ other, index ≤ other → other < found → ¬ Matches disk m name parent type other := by
  induction fuel generalizing index with
  | zero => omega
  | succ fuel ih =>
      unfold searchFrom
      dsimp only
      by_cases hparent : (rdEntry disk m index).parentId = 0
      · rw [if_pos hparent]
        constructor
        · intro hfound
          cases hfound
        · rintro ⟨hle, -, hused, -⟩
          exact absurd hparent (hused index (Nat.le_refl index) hle)
      rw [if_neg hparent]
      by_cases hend : searchEnd m ≤ index
      · rw [if_pos hend]
        constructor
        · intro hfound
          cases hfound
        · rintro ⟨hle, hlt, -⟩
          omega
      rw [if_neg hend]
      by_cases hmatch : Matches disk m name parent type index
      · rw [if_pos hmatch]
        constructor
        · intro hfound
          cases hfound
          refine ⟨Nat.le_refl _, by omega, ?_, hmatch, fun other hlow hhigh => by omega⟩
          intro other hlow hhigh
          rw [Nat.le_antisymm hhigh hlow]
          exact hparent
        · rintro ⟨hle, -, -, -, hfirst⟩
          by_contra hne
          have hlt : index < found := by
            rcases Nat.lt_or_eq_of_le hle with hlt | heq
            · exact hlt
            · exact absurd (congrArg some heq) hne
          exact hfirst index (Nat.le_refl index) hlt hmatch
      · rw [if_neg hmatch, ih (by omega)]
        constructor
        · rintro ⟨hle, hlt, hused, hfound, hfirst⟩
          refine ⟨by omega, hlt, ?_, hfound, ?_⟩
          · intro other hlow hhigh
            by_cases heq : other = index
            · exact heq ▸ hparent
            · exact hused other (by omega) hhigh
          · intro other hlow hhigh
            by_cases heq : other = index
            · exact heq ▸ hmatch
            · exact hfirst other (by omega) hhigh
        · rintro ⟨hle, hlt, hused, hfound, hfirst⟩
          have hne : index ≠ found := by
            rintro rfl
            exact hmatch hfound
          exact ⟨by omega, hlt, fun other hlow hhigh => hused other (by omega) hhigh, hfound,
            fun other hlow hhigh => hfirst other (by omega) hhigh⟩

theorem search_eq_some_iff {found : Nat} : search disk m name parent type = some found ↔
    found < searchEnd m ∧ (∀ other, other ≤ found → (rdEntry disk m other).parentId ≠ 0) ∧
      Matches disk m name parent type found ∧
      ∀ other, other < found → ¬ Matches disk m name parent type other := by
  have hfrom := @searchFrom_eq_some_iff disk m 0 name parent type (searchEnd m + 1) found (by omega)
  unfold search
  rw [hfrom]
  simp

-- An entry that search passes over is not the one it looks for.
theorem search_none (hnone : search disk m name parent type = none) (hindex : index < searchEnd m)
    (hused : ∀ other, other ≤ index → (rdEntry disk m other).parentId ≠ 0) :
    ¬ Matches disk m name parent type index := by
  induction index using Nat.strong_induction_on with
  | _ index ih =>
      intro hmatch
      have hfirst : ∀ other, other < index → ¬ Matches disk m name parent type other := by
        intro other hlt
        exact ih other hlt (by omega) fun earlier hle => hused earlier (by omega)
      have hsome := search_eq_some_iff.mpr ⟨hindex, hused, hmatch, hfirst⟩
      rw [hnone] at hsome
      cases hsome

end Search

-- A directory that search finds has an id of its own.
theorem DirectoryFormed.directory_id (hformed : DirectoryFormed m disk) {found : Nat}
    (hlive : parent ≠ DELETED_ENTRY)
    (hfound : search disk m name parent DIRECTORY_TYPE = some found) :
    (rdEntry disk m found).payload ≠ 0 ∧ (rdEntry disk m found).payload ≠ DELETED_ENTRY := by
  obtain ⟨hlt, hused, hmatch, -⟩ := search_eq_some_iff.mp hfound
  have hend := searchEnd_le m
  refine hformed.ids found (by omega) ⟨hused found (Nat.le_refl found), ?_⟩ hmatch.2.1
  rw [hmatch.1]
  exact hlive

-- The loop of echfs_create stops at the first free slot.
theorem findEmptyFrom_first {fuel : Nat} (hfound : findEmptyFrom disk m fuel index = some slot) :
    ∀ other, index ≤ other → other < slot → Occupied m disk other := by
  induction fuel generalizing index with
  | zero => cases hfound
  | succ fuel ih =>
      unfold findEmptyFrom at hfound
      dsimp only at hfound
      intro other hlow hhigh
      by_cases hhere : (rdEntry disk m index).parentId = 0 ∨
          (rdEntry disk m index).parentId = DELETED_ENTRY
      · rw [if_pos hhere] at hfound
        cases hfound
        omega
      · rw [if_neg hhere] at hfound
        by_cases heq : other = index
        · rw [heq]
          exact not_or.mp hhere
        · exact ih hfound other (by omega) hhigh

theorem DirectoryFormed.findEmpty (hformed : DirectoryFormed m disk)
    (hempty : EmptySlot m disk index) :
    ∃ slot, findEmpty disk m = some slot ∧ EmptySlot m disk slot ∧ slot ≤ index ∧
      ∀ other, other < slot → Occupied m disk other := by
  have hcapacity := Table.capacity_lt hformed.fits
  have hlt := hempty.1
  obtain ⟨slot, hslot, hfree⟩ := findEmptyFrom_found hempty (Nat.zero_le _)
    (show index - 0 < ENTRY_LOOP by omega)
  have hfirst : ∀ other, other < slot → Occupied m disk other := by
    intro other hother
    exact findEmptyFrom_first hslot other (Nat.zero_le _) hother
  refine ⟨slot, hslot, hfree, ?_, hfirst⟩
  by_contra hle
  have hused := hfirst index (by omega)
  rcases hempty.2 with hzero | hdeleted
  · exact hused.1 hzero
  · exact hused.2 hdeleted

theorem lastComponent_of_notMem (hslash : 47 ∉ text) : lastComponent text = text := by
  apply List.rtakeWhile_eq_self_iff.mpr
  intro char hmem
  exact decide_eq_true fun heq => hslash (heq ▸ hmem)

theorem lastComponent_slash (name text : CString) :
    lastComponent (name ++ 47 :: text) = lastComponent text := by
  unfold lastComponent List.rtakeWhile
  congr 1
  rw [List.reverse_append, List.reverse_cons, List.append_assoc, List.takeWhile_append]
  split
  · rename_i hwhole
    rw [(List.takeWhile_prefix _).eq_of_length hwhole]
    simp
  · rfl

theorem lastComponent_skipSlash (text : CString) : lastComponent (skipSlash text) = lastComponent text := by
  cases text with
  | nil => rfl
  | cons char text =>
      unfold skipSlash
      by_cases hslash : char = 47
      · rw [hslash]
        exact (lastComponent_slash [] text).symm
      · rw [if_neg (by simpa using hslash)]

-- A resolution that only lacks the entry itself: its name, its directory and the search for it.
theorem DirectoryFormed.resolveFrom_missing (hformed : DirectoryFormed m disk)
    (hstart : start.payload ≠ 0 ∧ start.payload ≠ DELETED_ENTRY) (hname : 47 ∉ name)
    (hfailure : (resolveFrom disk m type start name text).failure = false)
    (hmissing : (resolveFrom disk m type start name text).notFound = true) :
    (resolveFrom disk m type start name text).name = lastComponent (name ++ text) ∧
      ((resolveFrom disk m type start name text).parent.payload ≠ 0 ∧
        (resolveFrom disk m type start name text).parent.payload ≠ DELETED_ENTRY) ∧
      search disk m (resolveFrom disk m type start name text).name
        (resolveFrom disk m type start name text).parent.payload type = none := by
  induction text generalizing start name with
  | nil =>
      rw [resolveFrom, resolveLast] at hmissing ⊢
      cases hsearch : search disk m name start.payload type with
      | none =>
          dsimp only
          rw [List.append_nil, lastComponent_of_notMem hname]
          exact ⟨rfl, hstart, hsearch⟩
      | some found =>
          rw [hsearch] at hmissing
          cases hmissing
  | cons char text ih =>
      rw [resolveFrom] at hfailure hmissing ⊢
      by_cases hslash : char = 47
      · rw [if_pos hslash] at hfailure hmissing ⊢
        cases hsearch : search disk m name start.payload DIRECTORY_TYPE with
        | none =>
            rw [hsearch] at hfailure
            cases hfailure
        | some found =>
            rw [hsearch] at hfailure hmissing
            rw [hslash, lastComponent_slash]
            exact ih (hformed.directory_id hstart.2 hsearch) List.not_mem_nil hfailure hmissing
      · rw [if_neg hslash] at hfailure hmissing ⊢
        have hnext : 47 ∉ name ++ [char] := by
          simp only [List.mem_append, List.mem_singleton, not_or]
          exact ⟨hname, fun heq => hslash heq.symm⟩
        rw [show name ++ char :: text = (name ++ [char]) ++ text by simp]
        exact ih hstart hnext hfailure hmissing

-- An entry goes into the first free slot, under a name that search did not find.
structure Added (m : Mount) (disk : Store) (slot : Nat) (entry : Entry) : Prop where
  formed : DirectoryFormed m disk
  free : EmptySlot m disk slot
  first : ∀ other, other < slot → Occupied m disk other
  fits : entry.Fits
  parent_ne : entry.parentId ≠ 0
  parent_live : entry.parentId ≠ DELETED_ENTRY
  absent : search disk m entry.name entry.parentId entry.type = none

namespace Added

theorem slot_lt (hadd : Added m disk slot entry) : slot < capacity m := hadd.free.1

theorem parentId_eq (hadd : Added m disk slot entry) (hindex : index < capacity m)
    (hne : index ≠ slot) :
    (rdEntry (wrEntry disk m slot entry) m index).parentId = (rdEntry disk m index).parentId :=
  rdEntry_wrEntry_parentId hadd.formed.fits hadd.slot_lt hindex hne hadd.fits

theorem entry_eq (hadd : Added m disk slot entry) (hindex : index < capacity m)
    (hoccupied : Occupied m disk index) :
    rdEntry (wrEntry disk m slot entry) m index = rdEntry disk m index := by
  have hne : index ≠ slot := by
    rintro rfl
    rcases hadd.free.2 with hzero | hdeleted
    · exact hoccupied.1 hzero
    · exact hoccupied.2 hdeleted
  exact rdEntry_wrEntry_other hadd.formed.fits hadd.slot_lt hindex hne hadd.fits
    (hadd.formed.names index hindex hoccupied)

theorem new_entry (hadd : Added m disk slot entry) : rdEntry (wrEntry disk m slot entry) m slot = entry :=
  rdEntry_wrEntry disk m slot hadd.fits

theorem parentId_ne (hadd : Added m disk slot entry) (hindex : index < capacity m)
    (hused : index ≠ slot → (rdEntry disk m index).parentId ≠ 0) :
    (rdEntry (wrEntry disk m slot entry) m index).parentId ≠ 0 := by
  by_cases heq : index = slot
  · rw [heq, hadd.new_entry]
    exact hadd.parent_ne
  · rw [hadd.parentId_eq hindex heq]
    exact hused heq

-- What the new table matches outside the new slot, the old one matched.
theorem matches_old (hadd : Added m disk slot entry) (hindex : index < capacity m) (hne : index ≠ slot)
    (hlive : parent ≠ DELETED_ENTRY) (hused : (rdEntry disk m index).parentId ≠ 0)
    (hmatch : Matches (wrEntry disk m slot entry) m name parent type index) :
    Matches disk m name parent type index := by
  have hparent := hadd.parentId_eq hindex hne
  have hoccupied : Occupied m disk index := ⟨hused, by rw [← hparent, hmatch.1]; exact hlive⟩
  rwa [Matches, hadd.entry_eq hindex hoccupied] at hmatch

-- Every search that succeeded finds the same entry.
theorem search_kept (hadd : Added m disk slot entry) (hlive : parent ≠ DELETED_ENTRY) {found : Nat}
    (hfound : search disk m name parent type = some found) :
    search (wrEntry disk m slot entry) m name parent type = some found ∧
      rdEntry (wrEntry disk m slot entry) m found = rdEntry disk m found ∧
      Occupied m disk found := by
  obtain ⟨hlt, hused, hmatch, hfirst⟩ := search_eq_some_iff.mp hfound
  have hend := searchEnd_le m
  have hoccupied : Occupied m disk found :=
    ⟨hused found (Nat.le_refl found), by rw [hmatch.1]; exact hlive⟩
  have hsame := hadd.entry_eq (by omega) hoccupied
  refine ⟨search_eq_some_iff.mpr ⟨hlt, ?_, ?_, ?_⟩, hsame, hoccupied⟩
  · intro other hle
    exact hadd.parentId_ne (by omega) fun _ => hused other hle
  · rw [Matches, hsame]
    exact hmatch
  · intro other hother hmatches
    by_cases heq : other = slot
    · rw [heq, Matches, hadd.new_entry] at hmatches
      obtain ⟨rfl, rfl, rfl⟩ := hmatches
      rw [hadd.absent] at hfound
      cases hfound
    · exact hfirst other hother
        (hadd.matches_old (by omega) heq hlive (hused other (by omega)) hmatches)

-- The new entry is found where search gets to its slot, and only there.
theorem search_new (hadd : Added m disk slot entry) (hslot : slot < searchEnd m) :
    search (wrEntry disk m slot entry) m entry.name entry.parentId entry.type = some slot := by
  have hend := searchEnd_le m
  refine search_eq_some_iff.mpr ⟨hslot, ?_, ?_, ?_⟩
  · intro other hle
    exact hadd.parentId_ne (by omega) fun hne => (hadd.first other (by omega)).1
  · rw [Matches, hadd.new_entry]
    exact ⟨rfl, rfl, rfl⟩
  · intro other hlt hmatches
    have hold := hadd.matches_old (by omega) (by omega) hadd.parent_live
      (hadd.first other hlt).1 hmatches
    exact search_none hadd.absent (by omega) (fun earlier hle => (hadd.first earlier (by omega)).1) hold

theorem search_missing (hadd : Added m disk slot entry) (hslot : searchEnd m ≤ slot) :
    search (wrEntry disk m slot entry) m entry.name entry.parentId entry.type = none := by
  have hend := searchEnd_le m
  cases hfound : search (wrEntry disk m slot entry) m entry.name entry.parentId entry.type with
  | none => rfl
  | some found =>
      obtain ⟨hlt, -, hmatches, -⟩ := search_eq_some_iff.mp hfound
      have hold := hadd.matches_old (by omega) (by omega) hadd.parent_live
        (hadd.first found (by omega)).1 hmatches
      exact absurd hold (search_none hadd.absent hlt
        fun earlier hle => (hadd.first earlier (by omega)).1)

-- A path that resolved resolves to the same entry.
theorem resolveFrom_kept (hadd : Added m disk slot entry) (hlive : start.payload ≠ DELETED_ENTRY)
    (hfailure : (resolveFrom disk m type start name text).failure = false)
    (hfound : (resolveFrom disk m type start name text).notFound = false) :
    resolveFrom (wrEntry disk m slot entry) m type start name text =
      resolveFrom disk m type start name text := by
  induction text generalizing start name with
  | nil =>
      rw [resolveFrom, resolveLast] at hfound
      cases hsearch : search disk m name start.payload type with
      | none =>
          rw [hsearch] at hfound
          cases hfound
      | some found =>
          obtain ⟨hkept, hsame, -⟩ := hadd.search_kept hlive hsearch
          simp only [resolveFrom, resolveLast, hsearch, hkept, hsame]
  | cons char text ih =>
      rw [resolveFrom] at hfailure hfound
      by_cases hslash : char = 47
      · rw [if_pos hslash] at hfailure hfound
        cases hsearch : search disk m name start.payload DIRECTORY_TYPE with
        | none =>
            rw [hsearch] at hfailure
            cases hfailure
        | some found =>
            rw [hsearch] at hfailure hfound
            obtain ⟨hkept, hsame, -⟩ := hadd.search_kept hlive hsearch
            simp only [resolveFrom, if_pos hslash, hsearch, hkept, hsame]
            exact ih (hadd.formed.directory_id hlive hsearch).2 hfailure hfound
      · rw [if_neg hslash] at hfailure hfound
        simp only [resolveFrom, if_neg hslash]
        exact ih hlive hfailure hfound

-- The path of the new file ends at whatever search now says of its name.
theorem resolveFrom_new (hadd : Added m disk slot entry) (hlive : start.payload ≠ DELETED_ENTRY)
    (hfailure : (resolveFrom disk m type start name text).failure = false)
    (hmissing : (resolveFrom disk m type start name text).notFound = true)
    (hname : entry.name = (resolveFrom disk m type start name text).name)
    (hparent : entry.parentId = (resolveFrom disk m type start name text).parent.payload) :
    resolveFrom (wrEntry disk m slot entry) m type start name text =
      resolveLast (wrEntry disk m slot entry) m type
        (resolveFrom disk m type start name text).parent entry.name := by
  induction text generalizing start name with
  | nil =>
      rw [resolveFrom, resolveLast] at hmissing hname
      cases hsearch : search disk m name start.payload type with
      | none =>
          rw [hsearch] at hname
          simp only [resolveFrom, resolveLast, hsearch, hname]
      | some found =>
          rw [hsearch] at hmissing
          cases hmissing
  | cons char text ih =>
      rw [resolveFrom] at hfailure hmissing hname hparent
      by_cases hslash : char = 47
      · rw [if_pos hslash] at hfailure hmissing hname hparent
        cases hsearch : search disk m name start.payload DIRECTORY_TYPE with
        | none =>
            rw [hsearch] at hfailure
            cases hfailure
        | some found =>
            rw [hsearch] at hfailure hmissing hname hparent
            obtain ⟨hkept, hsame, -⟩ := hadd.search_kept hlive hsearch
            simp only [resolveFrom, if_pos hslash, hsearch, hkept, hsame]
            exact ih (hadd.formed.directory_id hlive hsearch).2 hfailure hmissing hname hparent
      · rw [if_neg hslash] at hfailure hmissing hname hparent
        simp only [resolveFrom, if_neg hslash]
        exact ih hlive hfailure hmissing hname hparent

theorem pathResolver_kept (hadd : Added m disk slot entry) (hresolves : Resolves disk m path type) :
    pathResolver (wrEntry disk m slot entry) m path type = pathResolver disk m path type := by
  obtain ⟨hfailure, hfound⟩ := hresolves
  unfold pathResolver at hfailure hfound ⊢
  by_cases hdirectory : type = DIRECTORY_TYPE ∧ path.text = [47]
  · rw [if_pos hdirectory, if_pos hdirectory]
  rw [if_neg hdirectory] at hfailure hfound
  rw [if_neg hdirectory, if_neg hdirectory]
  by_cases hfile : type = FILE_TYPE ∧ path.text = [47]
  · rw [if_pos hfile, if_pos hfile]
  rw [if_neg hfile] at hfailure hfound
  rw [if_neg hfile, if_neg hfile]
  exact hadd.resolveFrom_kept (show ROOT_ID ≠ DELETED_ENTRY by decide) hfailure hfound

end Added

theorem searchEnd_eq (hfits : DirectoryFits m) : searchEnd m = m.dirsize * ENTRIES_PER_BLOCK := by
  have hcapacity := Table.capacity_lt hfits
  unfold capacity at hcapacity
  simp only [BYTES_PER_BLOCK, SIZEOF_ENTRY, ENTRY_LOOP] at hcapacity
  unfold searchEnd
  simp only [ENTRIES_PER_BLOCK]
  omega

-- A file that echfs_create has just made, and what path_resolver then goes by.
structure Created (disk : Store) (m : Mount) (path : Path) (slot : Nat) (entry : Entry) : Prop where
  added : Added m disk slot entry
  type : entry.type = FILE_TYPE
  size : entry.size = 0
  name : entry.name = lastComponent path.text
  run : echfsCreate disk m path = some (some (wrEntry disk m slot entry))
  resolved : ∃ parent, parent.payload = entry.parentId ∧
    pathResolver (wrEntry disk m slot entry) m path FILE_TYPE =
      resolveLast (wrEntry disk m slot entry) m FILE_TYPE parent entry.name

theorem DirectoryFormed.create (hformed : DirectoryFormed m disk) (hempty : EmptySlot m disk index)
    (hparent : (pathResolver disk m path FILE_TYPE).failure = false)
    (hmissing : (pathResolver disk m path FILE_TYPE).notFound = true) :
    ∃ slot entry, slot ≤ index ∧ Created disk m path slot entry := by
  obtain ⟨slot, hslot, hfree, hle, hfirst⟩ := hformed.findEmpty hempty
  obtain ⟨hroot, hresolved⟩ := pathResolver_notRoot hparent
  obtain ⟨hfits, hne⟩ := pathResolver_name hroot hparent
  have hlt : (pathResolver disk m path FILE_TYPE).parent.payload < 2 ^ 64 := by
    rw [hresolved]
    exact resolveFrom_parent_lt (show ROOT_ID < 2 ^ 64 by decide)
  have hstart : ROOT_ID ≠ 0 ∧ ROOT_ID ≠ DELETED_ENTRY := by decide
  have hplace := @DirectoryFormed.resolveFrom_missing disk m [] (skipSlash path.text) FILE_TYPE
    { payload := ROOT_ID } hformed hstart List.not_mem_nil (hresolved ▸ hparent) (hresolved ▸ hmissing)
  rw [← hresolved, List.nil_append, lastComponent_skipSlash] at hplace
  obtain ⟨hname, ⟨hzero, hdeleted⟩, habsent⟩ := hplace
  obtain ⟨entry, hentry⟩ : ∃ entry : Entry, entry =
      { parentId := (pathResolver disk m path FILE_TYPE).parent.payload
        type := FILE_TYPE
        name := (pathResolver disk m path FILE_TYPE).name
        payload := END_OF_CHAIN } := ⟨_, rfl⟩
  have hadd : Added m disk slot entry := by
    rw [hentry]
    exact ⟨hformed, hfree, hfirst,
      ⟨hlt, show END_OF_CHAIN < 2 ^ 64 by decide, Nat.two_pow_pos 64, hfits, hne⟩, hzero, hdeleted,
      habsent⟩
  have hroot' : pathResolver (wrEntry disk m slot entry) m path FILE_TYPE =
      resolveFrom (wrEntry disk m slot entry) m FILE_TYPE { payload := ROOT_ID } []
        (skipSlash path.text) := by
    rw [pathResolver, if_neg (fun h => hroot h.2), if_neg (fun h => hroot h.2)]
  refine ⟨slot, entry, hle, hadd, ?_, ?_, ?_, ?_, ?_⟩
  · rw [hentry]
  · rw [hentry]
  · rw [hentry]
    exact hname
  · rw [echfsCreate, hparent, if_neg Bool.false_ne_true, addEntry, hslot, hentry]
    rfl
  · refine ⟨(pathResolver disk m path FILE_TYPE).parent, ?_, ?_⟩
    · rw [hentry]
    · rw [hroot', hresolved]
      refine hadd.resolveFrom_new hstart.2 (hresolved ▸ hparent) (hresolved ▸ hmissing) ?_ ?_
      · rw [← hresolved, hentry]
      · rw [← hresolved, hentry]

-- The new file shows exactly when search gets to its slot.
theorem Created.metadata (hcreated : Created disk m path slot entry) :
    echfsGetMetadata (wrEntry disk m slot entry) m path FILE_TYPE =
      if slot < searchEnd m then
        some { filetype := FILE_TYPE, size := 0, filename := lastComponent path.text }
      else none := by
  obtain ⟨hadd, htype, hsize, hname, -, parent, hparent, hresolved⟩ := hcreated
  unfold echfsGetMetadata
  rw [if_neg (fun h => file_ne_directory h.2), hresolved, resolveLast, hparent]
  by_cases hslot : slot < searchEnd m
  · have hfound := hadd.search_new hslot
    rw [htype] at hfound
    rw [hfound, if_pos hslot]
    simp [hadd.new_entry, hsize, hname]
  · have hnone := hadd.search_missing (not_lt.mp hslot)
    rw [htype] at hnone
    rw [hnone, if_neg hslot]
    simp

-- The creator goes on to the end of the table, search stops at two entries a block.
theorem created_found_iff (hformed : DirectoryFormed m disk) (hempty : ∃ index, EmptySlot m disk index)
    (hparent : (pathResolver disk m path FILE_TYPE).failure = false)
    (hmissing : (pathResolver disk m path FILE_TYPE).notFound = true) :
    CreatedFound disk m path ↔
      ∃ index, EmptySlot m disk index ∧ index < m.dirsize * ENTRIES_PER_BLOCK := by
  have hend := searchEnd_eq hformed.fits
  constructor
  · intro hfound
    obtain ⟨index, hindex⟩ := hempty
    obtain ⟨slot, entry, -, hcreated⟩ := hformed.create hindex hparent hmissing
    have hmetadata := (hfound _ hcreated.run).1
    rw [hcreated.metadata] at hmetadata
    refine ⟨slot, hcreated.added.free, ?_⟩
    by_contra hslot
    rw [if_neg (by omega)] at hmetadata
    cases hmetadata
  · rintro ⟨index, hindex, hlt⟩ after hafter
    obtain ⟨slot, entry, hle, hcreated⟩ := hformed.create hindex hparent hmissing
    rw [hcreated.run] at hafter
    cases hafter
    refine ⟨?_, fun other type hresolves => hcreated.added.pathResolver_kept hresolves⟩
    rw [hcreated.metadata, if_pos (by omega)]

-- The slots of a table hold its entries, and the ones after them none.
theorem Table.formed {entries : List Entry} (hfits : DirectoryFits m) (htable : Table m disk entries)
    (hids : ∀ entry ∈ entries, entry.type = DIRECTORY_TYPE →
      entry.payload ≠ 0 ∧ entry.payload ≠ DELETED_ENTRY) : DirectoryFormed m disk := by
  have hentry : ∀ index, index < capacity m → Occupied m disk index → rdEntry disk m index ∈ entries := by
    intro index hindex hoccupied
    by_cases hlt : index < entries.length
    · rw [htable.used index hlt]
      exact List.getElem_mem hlt
    · exact absurd (htable.free index (by omega) hindex) hoccupied.1
  refine ⟨hfits, ?_, ?_⟩
  · intro index hindex hoccupied
    exact (htable.fits _ (hentry index hindex hoccupied)).name_lt
  · intro index hindex hoccupied
    exact hids _ (hentry index hindex hoccupied)

-- The image with the file /a, and with /b in the second slot, the last one that search looks at.
def fileB : Entry := { emptyFile with name := [98] }

def twoFiles : Store := wrEntry smallDisk smallMount 1 fileB

theorem smallDisk_formed : DirectoryFormed smallMount smallDisk :=
  smallDisk_wellFormed.table.formed smallMount_fits (by decide)

theorem twoFiles_table : Table smallMount twoFiles [emptyFile, fileB] := by
  have hroom : [emptyFile].length + 1 < capacity smallMount := by decide
  have hfits : fileB.Fits := ⟨by decide, by decide, by decide, by decide, by simp [fileB]⟩
  have hparent : fileB.parentId ≠ 0 := by decide
  have happend := smallDisk_wellFormed.table.append smallMount_fits hroom hfits hparent
  rwa [List.length_singleton] at happend

theorem created_found_second : CreatedFound smallDisk smallMount (rootPath 98 (by decide)) := by
  have hempty : EmptySlot smallMount smallDisk 1 :=
    ⟨by decide, Or.inl (smallDisk_wellFormed.table.free 1 (by decide) (by decide))⟩
  exact (created_found_iff smallDisk_formed ⟨1, hempty⟩ (by decide +kernel) (by decide +kernel)).mpr
    ⟨1, hempty, by decide⟩

theorem third_file_not_found : ∃ disk path, DirectoryFormed smallMount disk ∧
    (∃ index, EmptySlot smallMount disk index) ∧
    (pathResolver disk smallMount path FILE_TYPE).failure = false ∧
    (pathResolver disk smallMount path FILE_TYPE).notFound = true ∧
    ¬ CreatedFound disk smallMount path := by
  have hformed : DirectoryFormed smallMount twoFiles := twoFiles_table.formed smallMount_fits (by decide)
  have hempty : EmptySlot smallMount twoFiles 2 :=
    ⟨by decide, Or.inl (twoFiles_table.free 2 (by decide) (by decide))⟩
  have hparent : (pathResolver twoFiles smallMount (rootPath 99 (by decide)) FILE_TYPE).failure = false := by
    decide +kernel
  have hmissing : (pathResolver twoFiles smallMount (rootPath 99 (by decide)) FILE_TYPE).notFound = true := by
    decide +kernel
  refine ⟨twoFiles, rootPath 99 (by decide), hformed, ⟨2, hempty⟩, hparent, hmissing, ?_⟩
  intro hfound
  obtain ⟨slot, entry, -, hcreated⟩ := hformed.create hempty hparent hmissing
  have hslot : searchEnd smallMount ≤ slot := by
    by_contra hlt
    have hused : slot < [emptyFile, fileB].length := Nat.not_le.mp hlt
    rcases hcreated.added.free.2 with hzero | hdeleted
    · exact twoFiles_table.parentId_ne hused hzero
    · rw [twoFiles_table.used slot hused] at hdeleted
      have hlive : ∀ entry ∈ [emptyFile, fileB], entry.parentId ≠ DELETED_ENTRY := by decide
      exact hlive _ (List.getElem_mem hused) hdeleted
  have hshown := (hfound _ hcreated.run).1
  rw [hcreated.metadata, if_neg (Nat.not_lt.mpr hslot)] at hshown
  cases hshown

end EchidnaOS.Echfs
