import EchidnaOS.Echfs.Directory

namespace EchidnaOS.Echfs

open EchidnaOS.Lib.ByteStore

variable {disk : Store} {m : Mount} {entries : List Entry} {index : Nat} {entry : Entry}

-- The entries the directory area has room for.
def capacity (m : Mount) : Nat := m.dirsize * (BYTES_PER_BLOCK / SIZEOF_ENTRY)

-- The directory area ends within 64-bit locations.
def DirectoryFits (m : Mount) : Prop := (m.dirstart + m.dirsize) * BYTES_PER_BLOCK ≤ 2 ^ 64

-- The table on disk is the list: its entries in the first slots, and a zero parent in
-- every slot after them, of which there is one.
structure Table (m : Mount) (disk : Store) (entries : List Entry) : Prop where
  room : entries.length < capacity m
  used : ∀ index (h : index < entries.length), rdEntry disk m index = entries[index]
  fits : ∀ entry ∈ entries, entry.Fits
  parents : ∀ entry ∈ entries, entry.parentId ≠ 0
  free : ∀ index, entries.length ≤ index → index < capacity m → (rdEntry disk m index).parentId = 0

theorem entryLoc_eq (hfits : DirectoryFits m) (hindex : index < capacity m) :
    entryLoc m index = m.dirstart * BYTES_PER_BLOCK + index * SIZEOF_ENTRY ∧
      entryLoc m index + SIZEOF_ENTRY ≤ 2 ^ 64 := by
  unfold entryLoc
  unfold DirectoryFits at hfits
  simp only [capacity, BYTES_PER_BLOCK, SIZEOF_ENTRY] at *
  omega

-- Distinct slots do not overlap.
theorem entryLoc_apart (hfits : DirectoryFits m) {other : Nat} (hindex : index < capacity m)
    (hother : other < capacity m) (hne : other ≠ index) :
    entryLoc m other + SIZEOF_ENTRY ≤ entryLoc m index ∨
      entryLoc m index + SIZEOF_ENTRY ≤ entryLoc m other := by
  rw [(entryLoc_eq hfits hindex).1, (entryLoc_eq hfits hother).1]
  simp only [SIZEOF_ENTRY]
  omega

-- The byte after a string that was read within its fuel is its NUL.
theorem fstrcpyIn_end (disk : Store) {fuel loc : Nat}
    (hlt : (fstrcpyIn disk fuel loc).length < fuel) :
    disk (loc + (fstrcpyIn disk fuel loc).length) = 0 := by
  induction fuel generalizing loc with
  | zero => exact absurd hlt (Nat.not_lt_zero _)
  | succ fuel ih =>
      unfold fstrcpyIn at hlt ⊢
      split
      · rename_i hzero
        exact hzero
      · rename_i hnonzero
        rw [if_neg hnonzero, List.length_cons] at hlt
        have hrest := @ih (loc + 1) (by omega)
        rw [List.length_cons, ← Nat.add_assoc, Nat.add_right_comm]
        exact hrest

theorem rdEntry_wrEntry (disk : Store) (m : Mount) (index : Nat) (hentry : entry.Fits) :
    rdEntry (wrEntry disk m index entry) m index = entry :=
  rdEntryAt_wrEntryAt disk (entryLoc m index) hentry

-- Writing one slot changes no parent of another, and no other slot with a proper name.
theorem rdEntry_wrEntry_parentId (hfits : DirectoryFits m) {other : Nat}
    (hindex : index < capacity m) (hother : other < capacity m) (hne : other ≠ index)
    (hentry : entry.Fits) :
    (rdEntry (wrEntry disk m index entry) m other).parentId = (rdEntry disk m other).parentId := by
  show leValue (read _ _ 8) = leValue (read _ _ 8)
  congr 1
  apply read_congr
  intro address hlow hhigh
  have hapart := entryLoc_apart hfits hindex hother hne
  apply wrEntryAt_outside _ _ hentry.name_lt
  simp only [SIZEOF_ENTRY] at hapart ⊢
  omega

-- A slot with a proper name depends on its own bytes only.
theorem rdEntry_congr {next : Store} (hname : (rdEntry disk m index).name.length < FILENAME_LEN)
    (hsame : ∀ address, entryLoc m index ≤ address → address < entryLoc m index + SIZEOF_ENTRY →
      next address = disk address) : rdEntry next m index = rdEntry disk m index := by
  have hlength : (rdEntry disk m index).name.length < 2 ^ 64 := by
    simp only [FILENAME_LEN] at hname
    omega
  exact (rdEntryAt_congr disk next hname (fstrcpyIn_end disk hlength) fun address hlow hhigh =>
    (hsame address hlow hhigh).symm).symm

theorem rdEntry_wrEntry_other (hfits : DirectoryFits m) {other : Nat}
    (hindex : index < capacity m) (hother : other < capacity m) (hne : other ≠ index)
    (hentry : entry.Fits) (hname : (rdEntry disk m other).name.length < FILENAME_LEN) :
    rdEntry (wrEntry disk m index entry) m other = rdEntry disk m other := by
  have hapart := entryLoc_apart hfits hindex hother hne
  refine rdEntry_congr hname fun address hlow hhigh => ?_
  exact wrEntryAt_outside _ _ hentry.name_lt (by omega)

namespace Table

theorem name_lt (htable : Table m disk entries) (hindex : index < entries.length) :
    (rdEntry disk m index).name.length < FILENAME_LEN := by
  rw [htable.used index hindex]
  exact (htable.fits _ (List.getElem_mem hindex)).name_lt

-- Overwriting a used slot, or the first free one.
theorem set (hfits : DirectoryFits m) (htable : Table m disk entries)
    (hindex : index < entries.length) (hentry : entry.Fits) (hparent : entry.parentId ≠ 0) :
    Table m (wrEntry disk m index entry) (entries.set index entry) where
  room := by rw [List.length_set]; exact htable.room
  used other h := by
    rw [List.length_set] at h
    have hroom := htable.room
    by_cases he : other = index
    · subst he
      rw [rdEntry_wrEntry disk m other hentry, List.getElem_set_self]
    · rw [rdEntry_wrEntry_other hfits (by omega) (by omega) he hentry (htable.name_lt h),
        List.getElem_set_ne (Ne.symm he), htable.used other h]
  fits other hmem := by
    rcases List.mem_or_eq_of_mem_set hmem with hold | rfl
    · exact htable.fits other hold
    · exact hentry
  parents other hmem := by
    rcases List.mem_or_eq_of_mem_set hmem with hold | rfl
    · exact htable.parents other hold
    · exact hparent
  free other hlow hhigh := by
    rw [List.length_set] at hlow
    rw [rdEntry_wrEntry_parentId hfits (by omega) hhigh (by omega) hentry]
    exact htable.free other hlow hhigh

theorem append (hfits : DirectoryFits m) (htable : Table m disk entries)
    (hroom : entries.length + 1 < capacity m) (hentry : entry.Fits)
    (hparent : entry.parentId ≠ 0) :
    Table m (wrEntry disk m entries.length entry) (entries ++ [entry]) where
  room := by rw [List.length_append, List.length_singleton]; exact hroom
  used other h := by
    rw [List.length_append, List.length_singleton] at h
    by_cases he : other = entries.length
    · subst he
      rw [rdEntry_wrEntry disk m _ hentry]
      simp
    · have hlt : other < entries.length := by omega
      rw [rdEntry_wrEntry_other hfits (by omega) (by omega) he hentry (htable.name_lt hlt),
        List.getElem_append_left hlt, htable.used other hlt]
  fits other hmem := by
    rcases List.mem_append.mp hmem with hold | hnew
    · exact htable.fits other hold
    · rw [List.mem_singleton.mp hnew]
      exact hentry
  parents other hmem := by
    rcases List.mem_append.mp hmem with hold | hnew
    · exact htable.parents other hold
    · rw [List.mem_singleton.mp hnew]
      exact hparent
  free other hlow hhigh := by
    rw [List.length_append, List.length_singleton] at hlow
    rw [rdEntry_wrEntry_parentId hfits (by omega) hhigh (by omega) hentry]
    exact htable.free other (by omega) hhigh

theorem terminator (htable : Table m disk entries) :
    (rdEntry disk m entries.length).parentId = 0 :=
  htable.free _ (Nat.le_refl _) htable.room

theorem parentId_ne (htable : Table m disk entries) (hindex : index < entries.length) :
    (rdEntry disk m index).parentId ≠ 0 := by
  rw [htable.used index hindex]
  exact htable.parents _ (List.getElem_mem hindex)

theorem capacity_lt (hfits : DirectoryFits m) : capacity m ≤ ENTRY_LOOP := by
  unfold DirectoryFits at hfits
  simp only [capacity, ENTRY_LOOP, BYTES_PER_BLOCK, SIZEOF_ENTRY] at *
  omega

end Table

-- One turn of the loop of get_free_id.
def bumpId (id : Nat) (entry : Entry) : Nat :=
  if entry.type = DF_WRITE ∧ entry.payload = id then (entry.payload + 1) % 2 ^ 64 else id

theorem Table.freeIdFrom (htable : Table m disk entries) {fuel : Nat} (id : Nat)
    (hindex : index ≤ entries.length) (hfuel : entries.length - index < fuel) :
    freeIdFrom disk m fuel index id = some ((entries.drop index).foldl bumpId id) := by
  induction fuel generalizing index id with
  | zero => exact absurd hfuel (Nat.not_lt_zero _)
  | succ fuel ih =>
      unfold Echfs.freeIdFrom
      dsimp only
      by_cases hend : index = entries.length
      · rw [hend, if_pos htable.terminator, List.drop_length, List.foldl_nil]
      · have hlt : index < entries.length := by omega
        rw [if_neg (htable.parentId_ne hlt), List.drop_eq_getElem_cons hlt, List.foldl_cons,
          htable.used index hlt, ih _ (by omega) (by omega), ih _ (by omega) (by omega)]
        unfold bumpId
        split <;> rfl

-- get_free_id is a single pass over the entries in table order.
theorem Table.getFreeId (hfits : DirectoryFits m) (htable : Table m disk entries) :
    getFreeId disk m = some (entries.foldl bumpId 1) := by
  have hroom := htable.room
  have hcapacity := Table.capacity_lt hfits
  rw [Echfs.getFreeId, htable.freeIdFrom 1 (Nat.zero_le _) (by omega), List.drop_zero]

theorem Table.findEmptyFrom (htable : Table m disk entries) {fuel : Nat}
    (hindex : index ≤ entries.length) (hfuel : entries.length - index < fuel) :
    findEmptyFrom disk m fuel index =
      some (index + (entries.drop index).findIdx (·.parentId = DELETED_ENTRY)) := by
  induction fuel generalizing index with
  | zero => exact absurd hfuel (Nat.not_lt_zero _)
  | succ fuel ih =>
      unfold Echfs.findEmptyFrom
      dsimp only
      by_cases hend : index = entries.length
      · rw [hend, if_pos (Or.inl htable.terminator), List.drop_length, List.findIdx_nil,
          Nat.add_zero]
      · have hlt : index < entries.length := by omega
        rw [List.drop_eq_getElem_cons hlt, List.findIdx_cons, htable.used index hlt]
        by_cases hdeleted : entries[index].parentId = DELETED_ENTRY
        · rw [if_pos (Or.inr hdeleted)]
          simp [hdeleted]
        · have hparent := htable.parents _ (List.getElem_mem hlt)
          rw [if_neg (not_or.mpr ⟨hparent, hdeleted⟩), ih (by omega) (by omega)]
          simp only [hdeleted, decide_false, cond_false]
          congr 1
          omega

-- A new entry goes to the first deleted one, or after the last.
theorem Table.findEmpty (hfits : DirectoryFits m) (htable : Table m disk entries) :
    findEmpty disk m = some (entries.findIdx (·.parentId = DELETED_ENTRY)) := by
  have hroom := htable.room
  have hcapacity := Table.capacity_lt hfits
  rw [Echfs.findEmpty, htable.findEmptyFrom (Nat.zero_le _) (by omega), List.drop_zero,
    Nat.zero_add]

theorem searchFrom_some {name : CString} {parent : Nat} {type : UInt8} {fuel : Nat} {found : Nat}
    (hfound : searchFrom disk m name parent type fuel index = some found) :
    (∀ other, index ≤ other → other ≤ found → (rdEntry disk m other).parentId ≠ 0) ∧
    index ≤ found ∧ found < m.dirsize * ENTRIES_PER_BLOCK % 2 ^ 64 ∧
      (rdEntry disk m found).parentId = parent ∧ (rdEntry disk m found).type = type ∧
      (rdEntry disk m found).name = name := by
  induction fuel generalizing index with
  | zero => cases hfound
  | succ fuel ih =>
      unfold searchFrom at hfound
      dsimp only at hfound
      split at hfound
      · cases hfound
      rename_i hparent
      split at hfound
      · cases hfound
      rename_i hbound
      split at hfound
      · rename_i hmatch
        cases hfound
        refine ⟨?_, Nat.le_refl _, by omega, hmatch⟩
        intro other hlow hhigh
        rw [Nat.le_antisymm hhigh hlow]
        exact hparent
      · obtain ⟨hbefore, hle, hrest⟩ := ih hfound
        refine ⟨?_, by omega, hrest⟩
        intro other hlow hhigh
        by_cases he : other = index
        · rw [he]
          exact hparent
        · exact hbefore other (by omega) hhigh

-- What search finds is an entry of the list.
theorem Table.search_some (htable : Table m disk entries) {name : CString} {parent : Nat}
    {type : UInt8} {found : Nat} (hfound : search disk m name parent type = some found) :
    ∃ h : found < entries.length, entries[found].parentId = parent ∧
      entries[found].type = type ∧ entries[found].name = name := by
  obtain ⟨hbefore, -, -, hparent, htype, hname⟩ := searchFrom_some hfound
  have hlt : found < entries.length := by
    by_contra hge
    exact hbefore entries.length (Nat.zero_le _) (by omega) htable.terminator
  rw [htable.used found hlt] at hparent htype hname
  exact ⟨hlt, hparent, htype, hname⟩

section Resolve

variable {type : UInt8} {start parent : Entry} {name text : CString}

@[simp] theorem resolveLast_parent (disk : Store) (m : Mount) (type : UInt8) (parent : Entry)
    (name : CString) : (resolveLast disk m type parent name).parent = parent := by
  unfold resolveLast
  split
  · rfl
  · rfl

@[simp] theorem resolveLast_failure (disk : Store) (m : Mount) (type : UInt8) (parent : Entry)
    (name : CString) : (resolveLast disk m type parent name).failure = false := by
  unfold resolveLast
  split
  · rfl
  · rfl

-- A last component is found where search says, or it is not found.
theorem resolveLast_cases (disk : Store) (m : Mount) (type : UInt8) (parent : Entry) (name : CString) :
    (search disk m name parent.payload type = none ∧
      resolveLast disk m type parent name = { parent := parent, name := name, notFound := true }) ∨
    ∃ found, search disk m name parent.payload type = some found ∧
      resolveLast disk m type parent name =
        { targetEntry := found, target := rdEntry disk m found, parent := parent, name := name } := by
  unfold resolveLast
  cases hsearch : search disk m name parent.payload type with
  | none => exact Or.inl ⟨rfl, rfl⟩
  | some found => exact Or.inr ⟨found, rfl, rfl⟩

-- A resolution fails, or it is that of a last component in the start or in a directory that the
-- components before it led to.
theorem resolveFrom_cases (disk : Store) (m : Mount) (type : UInt8) (start : Entry)
    (name text : CString) :
    resolveFrom disk m type start name text = { failure := true } ∨
      ∃ parent last, resolveFrom disk m type start name text = resolveLast disk m type parent last ∧
        (parent = start ∨ ∃ component within found,
          search disk m component within DIRECTORY_TYPE = some found ∧
            parent = rdEntry disk m found) := by
  induction text generalizing start name with
  | nil => exact Or.inr ⟨start, name, rfl, Or.inl rfl⟩
  | cons char text ih =>
      rw [resolveFrom]
      by_cases hslash : char = 47
      · rw [if_pos hslash]
        cases hsearch : search disk m name start.payload DIRECTORY_TYPE with
        | none => exact Or.inl rfl
        | some found =>
            rcases ih (rdEntry disk m found) [] with hfailed | ⟨parent, last, hlast, hparent⟩
            · exact Or.inl hfailed
            · refine Or.inr ⟨parent, last, hlast, Or.inr ?_⟩
              rcases hparent with hsame | hdeeper
              · exact ⟨name, start.payload, found, hsearch, hsame⟩
              · exact hdeeper
      · rw [if_neg hslash]
        exact ih start (name ++ [char])

theorem resolveFrom_last (hok : (resolveFrom disk m type start name text).failure = false) :
    ∃ parent last, resolveFrom disk m type start name text = resolveLast disk m type parent last ∧
      (parent = start ∨ ∃ component within found,
        search disk m component within DIRECTORY_TYPE = some found ∧
          parent = rdEntry disk m found) := by
  rcases resolveFrom_cases disk m type start name text with hfailed | hlast
  · rw [hfailed] at hok
    cases hok
  · exact hlast

-- What a resolution finds, search finds in some directory.
theorem resolveFrom_found (hok : (resolveFrom disk m type start name text).failure = false)
    (hfound : (resolveFrom disk m type start name text).notFound = false) :
    ∃ last within, search disk m last within type =
        some (resolveFrom disk m type start name text).targetEntry ∧
      (resolveFrom disk m type start name text).target =
        rdEntry disk m (resolveFrom disk m type start name text).targetEntry := by
  obtain ⟨parent, last, hlast, -⟩ := resolveFrom_last hok
  rw [hlast] at hfound ⊢
  rcases resolveLast_cases disk m type parent last with ⟨-, heq⟩ | ⟨found, hsearch, heq⟩
  · rw [heq] at hfound
    cases hfound
  · rw [heq]
    exact ⟨last, parent.payload, hsearch, rfl⟩

end Resolve

end EchidnaOS.Echfs
