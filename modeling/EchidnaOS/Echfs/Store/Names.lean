import EchidnaOS.Echfs.Directory.Resolve
import EchidnaOS.Echfs.Driver.Lookup

namespace EchidnaOS.Echfs

open EchidnaOS.Lib.ByteStore

variable {disk next : Store} {m : Mount} {entries : List Entry} {entry start : Entry} {path : Path}
  {name text : CString} {parent index slot : Nat} {type : UInt8}

-- What search looks for.
abbrev Entry.Named (name : CString) (parent : Nat) (type : UInt8) (entry : Entry) : Prop :=
  entry.parentId = parent ∧ entry.type = type ∧ entry.name = name

-- The file a path stands for: a name in the directory that the rest of the path leads to.
structure FileName where
  parent : Nat
  name : CString
  deriving DecidableEq

def fileName (disk : Store) (m : Mount) (path : Path) : FileName where
  parent := (pathResolver disk m path FILE_TYPE).parent.payload
  name := (pathResolver disk m path FILE_TYPE).name

section Search

-- The entries search goes through are those of the table.
theorem Table.liveEntries (htable : Table m disk entries) (hinside : entries.length ≤ searchEnd m) :
    liveEntries disk m = entries := by
  apply List.ext_getElem?
  intro index
  refine Option.ext fun entry => ?_
  rw [liveEntries_getElem?, List.getElem?_eq_some_iff]
  constructor
  · rintro ⟨hlt, hentry, hused⟩
    have hindex : index < entries.length := by
      by_contra hout
      exact hused entries.length (by omega) htable.terminator
    exact ⟨hindex, by rw [← hentry, htable.used index hindex]⟩
  · rintro ⟨hindex, hentry⟩
    refine ⟨by omega, by rw [htable.used index hindex, hentry], ?_⟩
    intro other hle
    exact htable.parentId_ne (by omega)

theorem Table.search_findIdx (htable : Table m disk entries) (hinside : entries.length ≤ searchEnd m) :
    search disk m name parent type = entries.findIdx? fun entry => entry.Named name parent type := by
  rw [search_eq_find, find, htable.liveEntries hinside]

-- A list with at most one entry that is looked for.
theorem findIdx?_eq_some_iff_of_single {α : Type*} {p : α → Bool} {l : List α}
    (hsingle : ∀ i j (hi : i < l.length) (hj : j < l.length), p l[i] = true → p l[j] = true → i = j) :
    l.findIdx? p = some index ↔ ∃ h : index < l.length, p l[index] = true := by
  rw [List.findIdx?_eq_some_iff_getElem]
  constructor
  · rintro ⟨hlt, hfound, -⟩
    exact ⟨hlt, hfound⟩
  · rintro ⟨hlt, hfound⟩
    refine ⟨hlt, hfound, ?_⟩
    intro other hother hmatch
    have := hsingle other index (by omega) hlt hmatch hfound
    omega

theorem findIdx?_set_of_false {α : Type*} {p : α → Bool} {l : List α} {a : α} (ha : p a = false)
    (hold : ∀ h : slot < l.length, p l[slot] = false) : (l.set slot a).findIdx? p = l.findIdx? p := by
  induction l generalizing slot with
  | nil => rfl
  | cons head tail ih =>
      cases slot with
      | zero =>
          have hhead : p head = false := hold (by simp)
          rw [List.set_cons_zero, List.findIdx?_cons, List.findIdx?_cons, ha, hhead]
      | succ slot =>
          rw [List.set_cons_succ, List.findIdx?_cons, List.findIdx?_cons, ih]
          intro h
          exact hold (by simpa using h)

end Search

-- One entry of the table is written, in a slot of it or in the first one after it.
inductive EntryWritten (slot : Nat) (entry : Entry) (entries : List Entry) : List Entry → Prop where
  | overwrite (hslot : slot < entries.length) : EntryWritten slot entry entries (entries.set slot entry)
  | append (hslot : slot = entries.length) : EntryWritten slot entry entries (entries ++ [entry])

namespace EntryWritten

variable {after : List Entry}

theorem getElem?_self (hwritten : EntryWritten slot entry entries after) : after[slot]? = some entry := by
  cases hwritten with
  | overwrite hslot => exact List.getElem?_set_self hslot
  | append hslot => rw [hslot, List.getElem?_concat_length]

theorem getElem?_other (hwritten : EntryWritten slot entry entries after) (hne : index ≠ slot) :
    after[index]? = entries[index]? := by
  cases hwritten with
  | overwrite hslot => exact List.getElem?_set_ne (Ne.symm hne)
  | append hslot =>
      by_cases hlt : index < entries.length
      · exact List.getElem?_append_left hlt
      · rw [List.getElem?_eq_none (by simp; omega), List.getElem?_eq_none (by omega)]

-- A search that looks for neither the old nor the new entry of the slot.
theorem findIdx? (hwritten : EntryWritten slot entry entries after) {p : Entry → Bool}
    (hnew : p entry = false) (hold : ∀ h : slot < entries.length, p entries[slot] = false) :
    after.findIdx? p = entries.findIdx? p := by
  cases hwritten with
  | overwrite hslot => exact findIdx?_set_of_false hnew hold
  | append hslot =>
      rw [List.findIdx?_append, List.findIdx?_singleton, hnew, if_neg Bool.false_ne_true]
      simp

end EntryWritten

-- No directory has an id that marks free slots.
def DirectoryIds (entries : List Entry) : Prop :=
  ∀ entry ∈ entries, entry.type = DIRECTORY_TYPE →
    entry.payload ≠ 0 ∧ entry.payload ≠ DELETED_ENTRY

-- The directories are found where they were found.
def SameDirectories (m : Mount) (disk next : Store) : Prop :=
  ∀ name parent, parent ≠ DELETED_ENTRY →
    search next m name parent DIRECTORY_TYPE = search disk m name parent DIRECTORY_TYPE ∧
    ∀ found, search disk m name parent DIRECTORY_TYPE = some found →
      rdEntry next m found = rdEntry disk m found

-- A slot that holds no directory, neither before nor after.
theorem EntryWritten.sameDirectories {after : List Entry}
    (hwritten : EntryWritten slot entry entries after) (htable : Table m disk entries)
    (hinside : entries.length ≤ searchEnd m) (hafter : Table m next after)
    (hafterInside : after.length ≤ searchEnd m) (hnew : entry.type ≠ DIRECTORY_TYPE)
    (hold : ∀ h : slot < entries.length,
      entries[slot].parentId = DELETED_ENTRY ∨ entries[slot].type ≠ DIRECTORY_TYPE) :
    SameDirectories m disk next := by
  intro name parent hlive
  have hnone : ∀ h : slot < entries.length,
      decide (entries[slot].Named name parent DIRECTORY_TYPE) = false := by
    intro h
    apply decide_eq_false
    rintro ⟨hparent, htype, -⟩
    rcases hold h with hdeleted | hfile
    · exact hlive (hparent.symm.trans hdeleted)
    · exact hfile htype
  have hsearch : search next m name parent DIRECTORY_TYPE =
      search disk m name parent DIRECTORY_TYPE := by
    rw [hafter.search_findIdx hafterInside, htable.search_findIdx hinside]
    exact hwritten.findIdx? (decide_eq_false fun h => hnew h.2.1) hnone
  refine ⟨hsearch, fun found hfound => ?_⟩
  have hmatch := hfound
  rw [htable.search_findIdx hinside, List.findIdx?_eq_some_iff_getElem] at hmatch
  obtain ⟨hlt, hnamed, -⟩ := hmatch
  have hne : found ≠ slot := by
    rintro rfl
    rw [hnone hlt] at hnamed
    cases hnamed
  have hget := hwritten.getElem?_other hne
  rw [List.getElem?_eq_getElem hlt] at hget
  obtain ⟨hafterLt, hentry⟩ := List.getElem?_eq_some_iff.mp hget
  rw [hafter.used found hafterLt, htable.used found hlt, hentry]

namespace SameDirectories

-- The directory and the name a path stops at depend on the directories only.
theorem resolveFrom (hsame : SameDirectories m disk next) (hformed : DirectoryFormed m disk)
    (hlive : start.payload ≠ DELETED_ENTRY) :
    (Echfs.resolveFrom next m type start name text).failure =
        (Echfs.resolveFrom disk m type start name text).failure ∧
      (Echfs.resolveFrom next m type start name text).parent =
        (Echfs.resolveFrom disk m type start name text).parent ∧
      (Echfs.resolveFrom next m type start name text).name =
        (Echfs.resolveFrom disk m type start name text).name := by
  induction text generalizing start name with
  | nil =>
      simp only [Echfs.resolveFrom, resolveLast]
      constructor
      · cases search next m name start.payload type <;> cases search disk m name start.payload type <;> rfl
      · cases search next m name start.payload type <;> cases search disk m name start.payload type <;>
          exact ⟨rfl, rfl⟩
  | cons char text ih =>
      simp only [Echfs.resolveFrom]
      by_cases hslash : char = 47
      · rw [if_pos hslash, if_pos hslash]
        obtain ⟨hsearch, hentry⟩ := hsame name start.payload hlive
        rw [hsearch]
        cases hfound : search disk m name start.payload DIRECTORY_TYPE with
        | none => exact ⟨rfl, rfl, rfl⟩
        | some found =>
            dsimp only
            rw [hentry found hfound]
            exact ih (hformed.directory_id hlive hfound).2
      · rw [if_neg hslash, if_neg hslash]
        exact ih hlive

theorem pathResolver (hsame : SameDirectories m disk next) (hformed : DirectoryFormed m disk)
    (path : Path) :
    (Echfs.pathResolver next m path FILE_TYPE).failure =
        (Echfs.pathResolver disk m path FILE_TYPE).failure ∧
      fileName next m path = fileName disk m path := by
  unfold fileName Echfs.pathResolver
  by_cases hdirectory : FILE_TYPE = DIRECTORY_TYPE ∧ path.text = [47]
  · rw [if_pos hdirectory, if_pos hdirectory]
    exact ⟨rfl, rfl⟩
  rw [if_neg hdirectory, if_neg hdirectory]
  by_cases hroot : FILE_TYPE = FILE_TYPE ∧ path.text = [47]
  · rw [if_pos hroot, if_pos hroot]
    exact ⟨rfl, rfl⟩
  rw [if_neg hroot, if_neg hroot]
  have hroot : ({ payload := ROOT_ID } : Entry).payload ≠ DELETED_ENTRY := by decide
  obtain ⟨hfailure, hparent, hname⟩ :=
    @resolveFrom _ _ _ _ [] (skipSlash path.text) FILE_TYPE hsame hformed hroot
  rw [hfailure, hparent, hname]
  exact ⟨rfl, rfl⟩

end SameDirectories

-- A resolution that does not fail ends in a search in a directory that is not removed.
theorem DirectoryFormed.resolveFrom_last (hformed : DirectoryFormed m disk)
    (hstart : start.payload ≠ 0 ∧ start.payload ≠ DELETED_ENTRY)
    (hfailure : (resolveFrom disk m type start name text).failure = false) :
    ((resolveFrom disk m type start name text).parent.payload ≠ 0 ∧
      (resolveFrom disk m type start name text).parent.payload ≠ DELETED_ENTRY) ∧
    resolveFrom disk m type start name text = resolveLast disk m type
      (resolveFrom disk m type start name text).parent (resolveFrom disk m type start name text).name := by
  induction text generalizing start name with
  | nil =>
      simp only [resolveFrom, resolveLast]
      cases hsearch : search disk m name start.payload type with
      | none => simp [hstart, hsearch]
      | some found => simp [hstart, hsearch]
  | cons char text ih =>
      rw [resolveFrom] at hfailure ⊢
      by_cases hslash : char = 47
      · rw [if_pos hslash] at hfailure ⊢
        cases hsearch : search disk m name start.payload DIRECTORY_TYPE with
        | none =>
            rw [hsearch] at hfailure
            cases hfailure
        | some found =>
            rw [hsearch] at hfailure
            exact ih (hformed.directory_id hstart.2 hsearch) hfailure
      · rw [if_neg hslash] at hfailure ⊢
        exact ih hstart hfailure

-- A path whose directory exists ends in the search for the name of its file.
theorem DirectoryFormed.pathResolver_last (hformed : DirectoryFormed m disk)
    (hfailure : (pathResolver disk m path FILE_TYPE).failure = false) :
    ((fileName disk m path).parent ≠ 0 ∧ (fileName disk m path).parent ≠ DELETED_ENTRY) ∧
      ∃ parent, parent.payload = (fileName disk m path).parent ∧
        pathResolver disk m path FILE_TYPE =
          resolveLast disk m FILE_TYPE parent (fileName disk m path).name := by
  have hresolved := (pathResolver_notRoot hfailure).2
  have hroot : ({ payload := ROOT_ID } : Entry).payload ≠ 0 ∧
      ({ payload := ROOT_ID } : Entry).payload ≠ DELETED_ENTRY := by decide
  unfold fileName
  rw [hresolved] at hfailure ⊢
  obtain ⟨hparent, hlast⟩ := hformed.resolveFrom_last hroot hfailure
  exact ⟨hparent, _, rfl, hlast⟩

end EchidnaOS.Echfs
