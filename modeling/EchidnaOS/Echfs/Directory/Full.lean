import EchidnaOS.Echfs.Directory.Resolve

namespace EchidnaOS.Echfs

open EchidnaOS.Lib.ByteStore

-- echfs_create and echfs_mkdir on any string, with what they return. A component that does not fit
-- the array of path_resolver is `none`, as is a search that never ends.
def echfsCreateText (disk : Store) (m : Mount) (text : CString) : Option (Int × Store) :=
  (pathResolverText disk m text FILE_TYPE).bind fun result =>
    if result.failure then some (FAILURE, disk)
    else (addEntry disk m result FILE_TYPE END_OF_CHAIN).map fun after => (SUCCESS, after)

def echfsMkdirText (disk : Store) (m : Mount) (text : CString) : Option (Int × Store) :=
  (pathResolverText disk m text DIRECTORY_TYPE).bind fun result =>
    (getFreeId disk m).bind fun id =>
      (addEntry disk m result DIRECTORY_TYPE id).map fun after => (SUCCESS, after)

-- The bytes of the directory table.
def InTable (m : Mount) (address : Nat) : Prop :=
  m.dirstart * BYTES_PER_BLOCK ≤ address ∧ address < (m.dirstart + m.dirsize) * BYTES_PER_BLOCK

def HasSlot (disk : Store) (m : Mount) : Prop := ∃ index, EmptySlot m disk index

-- A call that keeps to the table, and is turned down when the table is full.
structure KeepsToTable (disk : Store) (m : Mount) (run : Option (Int × Store)) : Prop where
  inside : ∀ code after, run = some (code, after) →
    ∀ address, ¬ InTable m address → after address = disk address
  full : ¬ HasSlot disk m → run = some (FAILURE, disk)

-- Some component before the last one is no directory, or there is no last one.
def NoParent (disk : Store) (m : Mount) (text : CString) : Prop :=
  text = [47] ∨ reach disk m { payload := ROOT_ID } (parts text).dropLast = none

variable {disk : Store} {m : Mount} {text : CString} {type : UInt8} {result : PathResult} {payload : Nat}
  {start : Entry} {name : CString}

theorem echfsCreateText_path (disk : Store) (m : Mount) (path : Path) :
    echfsCreateText disk m path.text = (echfsCreate disk m path).map fun outcome =>
      outcome.elim (FAILURE, disk) fun after => (SUCCESS, after) := by
  unfold echfsCreateText echfsCreate
  rw [pathResolverText_path, Option.bind_some]
  dsimp only
  by_cases hfailure : (pathResolver disk m path FILE_TYPE).failure = true
  · rw [if_pos hfailure, if_pos hfailure]
    rfl
  · rw [if_neg hfailure, if_neg hfailure, Option.map_map]
    rfl

theorem echfsMkdirText_path (disk : Store) (m : Mount) (path : Path) :
    echfsMkdirText disk m path.text = echfsMkdirCode disk m path := by
  unfold echfsMkdirText echfsMkdirCode echfsMkdir
  rw [pathResolverText_path, Option.bind_some, Option.map_bind]
  rfl

-- The name that path_resolver hands back is one that it had room for.
theorem resolveText_name_lt (hresult : resolveText disk m type start name text = some result) :
    result.name.length < FILENAME_LEN := by
  have hempty : ([] : CString).length < FILENAME_LEN := by decide
  induction text generalizing start name with
  | nil =>
      rw [resolveText] at hresult
      split at hresult
      · rename_i hroom
        rw [← Option.some.inj hresult]
        unfold resolveLast
        split
        · exact hroom
        · exact hroom
      · cases hresult
  | cons char text ih =>
      rw [resolveText] at hresult
      split at hresult
      · by_cases hslash : char = 47
        · rw [if_pos hslash] at hresult
          cases hsearch : search disk m name start.payload DIRECTORY_TYPE with
          | none =>
              rw [hsearch] at hresult
              rw [← Option.some.inj hresult]
              exact hempty
          | some i =>
              rw [hsearch] at hresult
              exact ih hresult
        · rw [if_neg hslash] at hresult
          exact ih hresult
      · cases hresult

theorem pathResolverText_name_lt (hresult : pathResolverText disk m text type = some result) :
    result.name.length < FILENAME_LEN := by
  have hempty : ([] : CString).length < FILENAME_LEN := by decide
  unfold pathResolverText at hresult
  split at hresult
  · rw [← Option.some.inj hresult]
    exact hempty
  split at hresult
  · rw [← Option.some.inj hresult]
    exact hempty
  · exact resolveText_name_lt hresult

-- path_resolver fails for a file that can have no parent.
theorem pathResolverText_failure (hresult : pathResolverText disk m text FILE_TYPE = some result) :
    result.failure = true ↔ NoParent disk m text := by
  unfold NoParent
  by_cases hroot : text = [47]
  · rw [pathResolverText, if_neg fun h => absurd h.1 (by decide), if_pos ⟨rfl, hroot⟩] at hresult
    rw [← Option.some.inj hresult]
    exact iff_of_true rfl (Or.inl hroot)
  · rw [pathResolverText_of_not_root hroot] at hresult
    have hwalks := @resolveFrom_walks disk m FILE_TYPE { payload := ROOT_ID } [] (skipSlash text)
      List.not_mem_nil
    rw [← resolveText_eq hresult] at hwalks
    unfold Walks at hwalks
    show _ ↔ _ ∨ reach disk m { payload := ROOT_ID } ((skipSlash text).splitOn 47).dropLast = none
    rw [List.nil_append] at hwalks
    cases hreach : reach disk m { payload := ROOT_ID } ((skipSlash text).splitOn 47).dropLast with
    | none =>
        rw [hreach] at hwalks
        exact iff_of_true hwalks (Or.inr rfl)
    | some parent =>
        rw [hreach] at hwalks
        refine iff_of_false ?_ ?_
        · rw [hwalks.1]
          exact Bool.false_ne_true
        · rintro (hslash | hnone)
          · exact hroot hslash
          · cases hnone

-- The slot that is written lies in the table when the table has one.
theorem addEntry_inside (hfits : DirectoryFits m) (hslot : HasSlot disk m)
    (hname : result.name.length < FILENAME_LEN) {after : Store}
    (hadd : addEntry disk m result type payload = some after) :
    ∀ address, ¬ InTable m address → after address = disk address := by
  obtain ⟨index, hempty⟩ := hslot
  have hcapacity := Table.capacity_lt hfits
  have hindex := hempty.1
  obtain ⟨found, hfound, hfree⟩ := findEmptyFrom_found hempty (Nat.zero_le _)
    (show index - 0 < ENTRY_LOOP by omega)
  obtain ⟨slot, hslot, rfl⟩ := Option.map_eq_some_iff.mp hadd
  have hsame : slot = found := Option.some.inj (hslot.symm.trans hfound)
  intro address hout
  apply wrEntryAt_outside _ _ hname
  have hcount := hfree.1
  rw [← hsame] at hcount
  rw [(entryLoc_eq hfits hcount).1]
  unfold InTable at hout
  simp only [capacity, BYTES_PER_BLOCK, SIZEOF_ENTRY] at *
  omega

theorem added_keepsToTable_iff (hfits : DirectoryFits m) (hname : result.name.length < FILENAME_LEN) :
    KeepsToTable disk m ((addEntry disk m result type payload).map fun after => (SUCCESS, after)) ↔
      HasSlot disk m := by
  constructor
  · intro hkeeps
    by_contra hslot
    obtain ⟨after, -, hpair⟩ := Option.map_eq_some_iff.mp (hkeeps.full hslot)
    have hcode : SUCCESS = FAILURE := congrArg Prod.fst hpair
    exact absurd hcode (by decide)
  · intro hslot
    refine ⟨?_, fun hfull => absurd hslot hfull⟩
    intro code after hrun
    obtain ⟨added, hadd, hpair⟩ := Option.map_eq_some_iff.mp hrun
    obtain rfl : added = after := congrArg Prod.snd hpair
    exact addEntry_inside hfits hslot hname hadd

theorem create_keepsToTable_iff (hfits : DirectoryFits m)
    (hresult : pathResolverText disk m text FILE_TYPE = some result) :
    KeepsToTable disk m (echfsCreateText disk m text) ↔ NoParent disk m text ∨ HasSlot disk m := by
  rw [← pathResolverText_failure hresult]
  unfold echfsCreateText
  rw [hresult, Option.bind_some]
  by_cases hfailure : result.failure = true
  · rw [if_pos hfailure]
    refine iff_of_true ⟨?_, fun _ => rfl⟩ (Or.inl hfailure)
    intro code after hrun address _
    have hsame : disk = after := congrArg Prod.snd (Option.some.inj hrun)
    rw [hsame]
  · rw [if_neg hfailure, added_keepsToTable_iff hfits (pathResolverText_name_lt hresult)]
    exact ⟨Or.inr, fun hslot => hslot.resolve_left hfailure⟩

theorem mkdir_keepsToTable_iff (hfits : DirectoryFits m)
    (hresult : pathResolverText disk m text DIRECTORY_TYPE = some result) :
    KeepsToTable disk m (echfsMkdirText disk m text) ↔ HasSlot disk m := by
  unfold echfsMkdirText
  rw [hresult, Option.bind_some]
  cases getFreeId disk m with
  | none =>
      -- it goes on for ever behind the table, and has written nothing
      rw [Option.bind_none]
      constructor
      · intro hkeeps
        by_contra hslot
        cases hkeeps.full hslot
      · intro hslot
        refine ⟨?_, fun hfull => absurd hslot hfull⟩
        intro code after hrun
        cases hrun
  | some id =>
      rw [Option.bind_some]
      exact added_keepsToTable_iff hfits (pathResolverText_name_lt hresult)

-- echfs_mkdir and echfs_create keep to the table exactly if it has a slot for the new entry, or if
-- echfs_create finds no parent for it.
theorem directory_writes_in_table_iff (disk : Store) (m : Mount) (text : CString)
    (hfits : DirectoryFits m) (hfile : (pathResolverText disk m text FILE_TYPE).isSome)
    (hdirectory : (pathResolverText disk m text DIRECTORY_TYPE).isSome) :
    (KeepsToTable disk m (echfsCreateText disk m text) ↔ NoParent disk m text ∨ HasSlot disk m) ∧
      (KeepsToTable disk m (echfsMkdirText disk m text) ↔ HasSlot disk m) := by
  obtain ⟨created, hcreated⟩ := Option.isSome_iff_exists.mp hfile
  obtain ⟨made, hmade⟩ := Option.isSome_iff_exists.mp hdirectory
  exact ⟨create_keepsToTable_iff hfits hcreated, mkdir_keepsToTable_iff hfits hmade⟩

-- /b in a table with one entry.
theorem directory_writes_in_table_small :
    KeepsToTable smallDisk smallMount (echfsCreateText smallDisk smallMount [47, 98]) ∧
      KeepsToTable smallDisk smallMount (echfsMkdirText smallDisk smallMount [47, 98]) := by
  have hslot : HasSlot smallDisk smallMount := ⟨1, by decide, Or.inl (by decide +kernel)⟩
  obtain ⟨hcreate, hmkdir⟩ := directory_writes_in_table_iff smallDisk smallMount [47, 98]
    smallMount_fits (by decide +kernel) (by decide +kernel)
  exact ⟨hcreate.mpr (Or.inr hslot), hmkdir.mpr hslot⟩

-- A table of 128 files without a name.
def fullDisk : Store := fun address =>
  if 17 * BYTES_PER_BLOCK ≤ address ∧ address < 18 * BYTES_PER_BLOCK ∧ address % SIZEOF_ENTRY = 0 then 1
  else 0

-- Neither call is turned down.
theorem full_table_overrun :
    ¬ KeepsToTable fullDisk smallMount (echfsCreateText fullDisk smallMount [47, 97]) ∧
      ¬ KeepsToTable fullDisk smallMount (echfsMkdirText fullDisk smallMount [47, 97]) := by
  have hfull : ¬ HasSlot fullDisk smallMount := by
    have hused : ∀ index, index < 128 → ¬ ((rdEntry fullDisk smallMount index).parentId = 0 ∨
        (rdEntry fullDisk smallMount index).parentId = DELETED_ENTRY) := by decide +kernel
    rintro ⟨index, hindex, hparent⟩
    exact hused index hindex hparent
  have hparent : ¬ NoParent fullDisk smallMount [47, 97] := by
    rintro (hroot | hmissing)
    · exact absurd hroot (by decide)
    · exact absurd hmissing (by decide +kernel)
  have hfile : (pathResolverText fullDisk smallMount [47, 97] FILE_TYPE).isSome := by decide +kernel
  have hdirectory : (pathResolverText fullDisk smallMount [47, 97] DIRECTORY_TYPE).isSome := by
    decide +kernel
  obtain ⟨created, hcreated⟩ := Option.isSome_iff_exists.mp hfile
  obtain ⟨made, hmade⟩ := Option.isSome_iff_exists.mp hdirectory
  constructor
  · rw [create_keepsToTable_iff smallMount_fits hcreated]
    exact not_or.mpr ⟨hparent, hfull⟩
  · rw [mkdir_keepsToTable_iff smallMount_fits hmade]
    exact hfull

end EchidnaOS.Echfs
