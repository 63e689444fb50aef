import EchidnaOS.Echfs.Directory.Table
import EchidnaOS.Lib.Run
import Mathlib.Data.List.Sort

namespace EchidnaOS.Echfs

open EchidnaOS.Lib.ByteStore EchidnaOS.Lib.Run

variable {disk next : Store} {m : Mount} {entries : List Entry} {index : Nat} {entry : Entry}

inductive DirectoryCall where
  | create (path : Path)
  | mkdir (path : Path)
  | remove (path : Path)

def DirectoryCall.path : DirectoryCall → Path
  | .create path => path
  | .mkdir path => path
  | .remove path => path

def DirectoryCall.type : DirectoryCall → UInt8
  | .mkdir _ => DIRECTORY_TYPE
  | _ => FILE_TYPE

-- A call that returns SUCCESS. No file is cached, so echfs_remove resolves its path.
def directoryStep (m : Mount) (disk : Store) : DirectoryCall → Option Store
  | .create path => (echfsCreate disk m path).join
  | .mkdir path => echfsMkdir disk m path
  | .remove path => (removeResolved disk m (pathResolver disk m path FILE_TYPE)).join

def HasRoom (m : Mount) (disk : Store) : Prop :=
  ∃ index, index < capacity m ∧ (rdEntry disk m index).parentId = 0

-- The parent directory exists, the path is below the root, and the call does not fill the
-- table.
structure InScope (m : Mount) (disk : Store) (call : DirectoryCall) : Prop where
  parentExists : (pathResolver disk m call.path call.type).failure = false
  notRoot : call.path.text ≠ [47]
  room : ∀ next, directoryStep m disk call = some next → HasRoom m next

instance decidableHasRoom (m : Mount) : DecidablePred (HasRoom m) := fun disk =>
  inferInstanceAs (Decidable (∃ index, index < capacity m ∧ (rdEntry disk m index).parentId = 0))

instance decidableInScope (m : Mount) (disk : Store) (call : DirectoryCall) :
    Decidable (InScope m disk call) :=
  decidable_of_iff
    ((pathResolver disk m call.path call.type).failure = false ∧ call.path.text ≠ [47] ∧
      ∀ next, directoryStep m disk call = some next → HasRoom m next)
    ⟨fun h => ⟨h.1, h.2.1, h.2.2⟩, fun h => ⟨h.parentExists, h.notRoot, h.room⟩⟩

-- A live directory entry.
def LiveDirectory (m : Mount) (disk : Store) (index : Nat) : Prop :=
  index < capacity m ∧ (rdEntry disk m index).parentId ≠ 0 ∧
    (rdEntry disk m index).parentId ≠ DELETED_ENTRY ∧
    (rdEntry disk m index).type = DIRECTORY_TYPE

instance decidableLiveDirectory (m : Mount) (disk : Store) :
    DecidablePred (LiveDirectory m disk) := fun index =>
  inferInstanceAs (Decidable (index < capacity m ∧ (rdEntry disk m index).parentId ≠ 0 ∧
    (rdEntry disk m index).parentId ≠ DELETED_ENTRY ∧
    (rdEntry disk m index).type = DIRECTORY_TYPE))

def UniqueIds (m : Mount) (disk : Store) : Prop :=
  ∀ first second, LiveDirectory m disk first → LiveDirectory m disk second →
    (rdEntry disk m first).payload = (rdEntry disk m second).payload → first = second

-- The id get_free_id returns is not the id of a directory.
def FreshId (m : Mount) (disk : Store) : Prop :=
  ∃ id, getFreeId disk m = some id ∧
    ∀ index, LiveDirectory m disk index → (rdEntry disk m index).payload ≠ id

-- Directories are made while the ids of the live ones increase along the table.
def MkdirInOrder (m : Mount) (disk : Store) : DirectoryCall → Prop
  | .mkdir _ => ∀ first second, LiveDirectory m disk first → LiveDirectory m disk second →
      first < second → (rdEntry disk m first).payload < (rdEntry disk m second).payload
  | _ => True

-- A mkdir gets an id that no directory has.
def MkdirFresh (m : Mount) (disk : Store) : DirectoryCall → Prop
  | .mkdir _ => FreshId m disk
  | _ => True

def EmptyTable (m : Mount) (disk : Store) : Prop :=
  0 < m.dirsize ∧ ∀ index, index < capacity m → (rdEntry disk m index).parentId = 0

instance decidableEmptyTable (m : Mount) (disk : Store) : Decidable (EmptyTable m disk) :=
  inferInstanceAs (Decidable (0 < m.dirsize ∧
    ∀ index, index < capacity m → (rdEntry disk m index).parentId = 0))

theorem file_ne_directory : FILE_TYPE ≠ DIRECTORY_TYPE := by decide

-- The ids of the directories in table order.
def idsOf (entries : List Entry) : List Nat :=
  (entries.filter (·.type = DIRECTORY_TYPE)).map (·.payload)

-- As long as every id is new, the ids in use are 1, 2, … up to the number of directories.
structure DirectoryOk (entries : List Entry) : Prop where
  ids : (idsOf entries).Perm (List.range' 1 (idsOf entries).length)
  deleted : ∀ entry ∈ entries, entry.parentId = DELETED_ENTRY → entry.type = FILE_TYPE
  files : ∀ entry ∈ entries, entry.type = FILE_TYPE → entry.parentId ≠ DELETED_ENTRY →
    entry.payload = END_OF_CHAIN

theorem idsOf_append (entries : List Entry) (entry : Entry) :
    idsOf (entries ++ [entry]) =
      idsOf entries ++ if entry.type = DIRECTORY_TYPE then [entry.payload] else [] := by
  unfold idsOf
  rw [List.filter_append, List.map_append]
  congr 1
  by_cases htype : entry.type = DIRECTORY_TYPE
  · simp [htype]
  · simp [htype]

-- Replacing an entry that is no directory only adds the id of the new one.
theorem idsOf_set (entry : Entry) (hindex : index < entries.length)
    (hold : entries[index].type ≠ DIRECTORY_TYPE) :
    (idsOf (entries.set index entry)).Perm
      ((if entry.type = DIRECTORY_TYPE then [entry.payload] else []) ++ idsOf entries) := by
  have hsplit : entries = entries.take index ++ entries[index] :: entries.drop (index + 1) := by
    rw [← List.drop_eq_getElem_cons hindex, List.take_append_drop]
  have hids : idsOf entries =
      idsOf (entries.take index) ++ idsOf (entries.drop (index + 1)) := by
    conv_lhs => rw [hsplit]
    unfold idsOf
    rw [List.filter_append, List.filter_cons_of_neg (by simpa using hold), List.map_append]
  rw [List.set_eq_take_append_cons_drop, if_pos hindex, hids]
  unfold idsOf
  by_cases htype : entry.type = DIRECTORY_TYPE
  · rw [List.filter_append, List.filter_cons_of_pos (by simpa using htype), List.map_append,
      List.map_cons, if_pos htype, List.singleton_append]
    exact List.perm_middle
  · rw [List.filter_append, List.filter_cons_of_neg (by simpa using htype), List.map_append,
      if_neg htype, List.nil_append]

-- On ids in table order the single pass of get_free_id ends past the last one.
theorem foldl_bumpId (entries : List Entry) (id : Nat)
    (hids : idsOf entries = List.range' id (idsOf entries).length)
    (hlt : id + (idsOf entries).length < 2 ^ 64) :
    entries.foldl bumpId id = id + (idsOf entries).length := by
  induction entries generalizing id with
  | nil => rfl
  | cons entry rest ih =>
      rw [List.foldl_cons]
      by_cases htype : entry.type = DIRECTORY_TYPE
      · have hcons : idsOf (entry :: rest) = entry.payload :: idsOf rest := by
          simp [idsOf, htype]
        rw [hcons, List.length_cons, List.range'_succ] at hids
        obtain ⟨hpayload, hrest⟩ := List.cons.inj hids
        rw [hcons, List.length_cons] at hlt ⊢
        have hbump : bumpId id entry = id + 1 := by
          rw [bumpId, if_pos ⟨htype, hpayload⟩, hpayload, Nat.mod_eq_of_lt (by omega)]
        rw [hbump, ih (id + 1) hrest (by omega)]
        omega
      · have hcons : idsOf (entry :: rest) = idsOf rest := by
          simp [idsOf, htype]
        rw [hcons] at hids hlt ⊢
        have hbump : bumpId id entry = id := by
          rw [bumpId, if_neg]
          intro hboth
          exact htype hboth.1
        rw [hbump, ih id hids hlt]

-- The ids the pass of get_free_id counts past stand in order in the table.
theorem foldl_bumpId_sublist (entries : List Entry) (id : Nat)
    (hlt : ∀ payload ∈ idsOf entries, payload + 1 < 2 ^ 64) :
    id ≤ entries.foldl bumpId id ∧
      (List.range' id (entries.foldl bumpId id - id)).Sublist (idsOf entries) := by
  induction entries generalizing id with
  | nil => simp
  | cons entry rest ih =>
      rw [List.foldl_cons]
      by_cases htype : entry.type = DIRECTORY_TYPE
      · have hcons : idsOf (entry :: rest) = entry.payload :: idsOf rest := by
          simp [idsOf, htype]
        rw [hcons] at hlt ⊢
        have hrest : ∀ payload ∈ idsOf rest, payload + 1 < 2 ^ 64 :=
          fun payload hmem => hlt payload (List.mem_cons_of_mem _ hmem)
        by_cases hpayload : entry.payload = id
        · have hbump : bumpId id entry = id + 1 := by
            have := hlt entry.payload List.mem_cons_self
            rw [bumpId, if_pos ⟨htype, hpayload⟩, hpayload, Nat.mod_eq_of_lt (by omega)]
          obtain ⟨hle, hsublist⟩ := ih (id + 1) hrest
          rw [hbump]
          refine ⟨by omega, ?_⟩
          have hcount : rest.foldl bumpId (id + 1) - id =
              (rest.foldl bumpId (id + 1) - (id + 1)) + 1 := by
            omega
          rw [hcount, List.range'_succ, hpayload]
          exact hsublist.cons_cons id
        · have hbump : bumpId id entry = id := by
            rw [bumpId, if_neg (fun hboth => hpayload hboth.2)]
          rw [hbump]
          exact ⟨(ih id hrest).1, (ih id hrest).2.cons _⟩
      · have hcons : idsOf (entry :: rest) = idsOf rest := by
          simp [idsOf, htype]
        have hbump : bumpId id entry = id := by
          rw [bumpId, if_neg (fun hboth => htype hboth.1)]
        rw [hcons] at hlt ⊢
        rw [hbump]
        exact ih id hlt

theorem liveDirectory_iff (htable : Table m disk entries) (hok : DirectoryOk entries) :
    LiveDirectory m disk index ↔
      ∃ h : index < entries.length, entries[index].type = DIRECTORY_TYPE := by
  constructor
  · rintro ⟨hcapacity, hparent, -, htype⟩
    have hlt : index < entries.length := by
      by_contra hge
      exact hparent (htable.free index (by omega) hcapacity)
    exact ⟨hlt, by rw [← htable.used index hlt]; exact htype⟩
  · rintro ⟨hlt, htype⟩
    have hroom := htable.room
    refine ⟨by omega, htable.parentId_ne hlt, ?_, by rw [htable.used index hlt]; exact htype⟩
    rw [htable.used index hlt]
    intro hdeleted
    have hfile := hok.deleted _ (List.getElem_mem hlt) hdeleted
    rw [htype] at hfile
    exact absurd hfile (by decide)

-- A relation between the ids of the directories, in table order.
theorem pairwise_idsOf {R : Nat → Nat → Prop} :
    (idsOf entries).Pairwise R ↔ ∀ first second (hfirst : first < entries.length)
      (hsecond : second < entries.length), first < second →
      entries[first].type = DIRECTORY_TYPE → entries[second].type = DIRECTORY_TYPE →
      R entries[first].payload entries[second].payload := by
  unfold idsOf
  rw [List.pairwise_map, List.pairwise_filter, List.pairwise_iff_getElem]
  simp only [decide_eq_true_eq]

theorem DirectoryOk.uniqueIds (hok : DirectoryOk entries) (htable : Table m disk entries) :
    UniqueIds m disk := by
  have hnodup : (idsOf entries).Nodup := hok.ids.nodup_iff.mpr List.nodup_range'
  have hpairs := pairwise_idsOf.mp hnodup
  intro first second hfirst hsecond hpayload
  obtain ⟨hlt, htype⟩ := (liveDirectory_iff htable hok).mp hfirst
  obtain ⟨hlt', htype'⟩ := (liveDirectory_iff htable hok).mp hsecond
  rw [htable.used first hlt, htable.used second hlt'] at hpayload
  rcases Nat.lt_trichotomy first second with hbefore | hsame | hafter
  · exact absurd hpayload (hpairs first second hlt hlt' hbefore htype htype')
  · exact hsame
  · exact absurd hpayload.symm (hpairs second first hlt' hlt hafter htype' htype)

theorem DirectoryOk.id_bounds (hok : DirectoryOk entries) {id : Nat} (hid : id ∈ idsOf entries) :
    1 ≤ id ∧ id ≤ (idsOf entries).length := by
  have hmem := hok.ids.mem_iff.mp hid
  rw [List.mem_range'_1] at hmem
  omega

theorem idsOf_length_le (entries : List Entry) : (idsOf entries).length ≤ entries.length := by
  rw [idsOf, List.length_map]
  exact List.length_filter_le _ _

theorem mem_idsOf (hindex : index < entries.length)
    (htype : entries[index].type = DIRECTORY_TYPE) : entries[index].payload ∈ idsOf entries := by
  unfold idsOf
  refine List.mem_map_of_mem (List.mem_filter.mpr ⟨List.getElem_mem hindex, ?_⟩)
  simpa using htype

-- In an ordered table get_free_id returns the number of directories plus one.
theorem DirectoryOk.getFreeId (hfits : DirectoryFits m) (hok : DirectoryOk entries)
    (htable : Table m disk entries) {path : Path}
    (hordered : MkdirInOrder m disk (.mkdir path)) :
    getFreeId disk m = some ((idsOf entries).length + 1) := by
  have hsorted : (idsOf entries).Pairwise (· < ·) := by
    rw [pairwise_idsOf]
    intro first second hfirst hsecond hlt htype htype'
    have hpayload := hordered first second ((liveDirectory_iff htable hok).mpr ⟨hfirst, htype⟩)
      ((liveDirectory_iff htable hok).mpr ⟨hsecond, htype'⟩) hlt
    rwa [htable.used first hfirst, htable.used second hsecond] at hpayload
  have hids : idsOf entries = List.range' 1 (idsOf entries).length := by
    refine hok.ids.eq_of_pairwise (fun a b _ _ hab hba => ?_) hsorted List.pairwise_lt_range'
    omega
  have hlength := idsOf_length_le entries
  have hroom := htable.room
  have hcapacity := Table.capacity_lt hfits
  rw [htable.getFreeId hfits, foldl_bumpId entries 1 hids
    (by simp only [ENTRY_LOOP] at hcapacity; omega), Nat.add_comm]

theorem DirectoryOk.freshId (hfits : DirectoryFits m) (hok : DirectoryOk entries)
    (htable : Table m disk entries) {path : Path}
    (hordered : MkdirInOrder m disk (.mkdir path)) : FreshId m disk := by
  refine ⟨_, hok.getFreeId hfits htable hordered, ?_⟩
  intro index hlive
  obtain ⟨hlt, htype⟩ := (liveDirectory_iff htable hok).mp hlive
  have hbounds := hok.id_bounds (mem_idsOf hlt htype)
  rw [htable.used index hlt]
  omega

theorem exists_of_mem_idsOf {id : Nat} (hid : id ∈ idsOf entries) :
    ∃ index, ∃ h : index < entries.length, entries[index].type = DIRECTORY_TYPE ∧
      entries[index].payload = id := by
  obtain ⟨entry, hmem, hpayload⟩ := List.mem_map.mp hid
  obtain ⟨hmem, htype⟩ := List.mem_filter.mp hmem
  obtain ⟨index, hlt, hentry⟩ := List.getElem_of_mem hmem
  rw [← hentry] at htype hpayload
  exact ⟨index, hlt, by simpa using htype, hpayload⟩

-- Conversely a fresh id is one past all the others, so the pass has met them all in order.
theorem DirectoryOk.in_order (hfits : DirectoryFits m) (hok : DirectoryOk entries)
    (htable : Table m disk entries) (hfresh : FreshId m disk) {path : Path} :
    MkdirInOrder m disk (.mkdir path) := by
  obtain ⟨id, hid, hnew⟩ := hfresh
  rw [htable.getFreeId hfits, Option.some.injEq] at hid
  have hlength := idsOf_length_le entries
  have hroom := htable.room
  have hcapacity := Table.capacity_lt hfits
  simp only [ENTRY_LOOP] at hcapacity
  obtain ⟨hle, hsublist⟩ := foldl_bumpId_sublist entries 1 (fun payload hmem => by
    have hbounds := hok.id_bounds hmem
    omega)
  rw [hid] at hle hsublist
  have hpast : (idsOf entries).length < id := by
    by_contra hle'
    have hmem : id ∈ idsOf entries :=
      hok.ids.mem_iff.mpr (List.mem_range'_1.mpr (by omega))
    obtain ⟨index, hlt, htype, hpayload⟩ := exists_of_mem_idsOf hmem
    apply hnew index ((liveDirectory_iff htable hok).mpr ⟨hlt, htype⟩)
    rw [htable.used index hlt]
    exact hpayload
  have hids : List.range' 1 (id - 1) = idsOf entries := by
    apply hsublist.eq_of_length_le
    rw [List.length_range']
    omega
  have hsorted : (idsOf entries).Pairwise (· < ·) := by
    rw [← hids]
    exact List.pairwise_lt_range'
  intro first second hfirst hsecond hlt
  obtain ⟨hfirst, htype⟩ := (liveDirectory_iff htable hok).mp hfirst
  obtain ⟨hsecond, htype'⟩ := (liveDirectory_iff htable hok).mp hsecond
  rw [htable.used first hfirst, htable.used second hsecond]
  exact pairwise_idsOf.mp hsorted first second hfirst hsecond hlt htype htype'

-- Resolution without failure: the parent is the starting directory or a directory of the
-- table, and a target that is found is the entry at its index.
structure Resolved (entries : List Entry) (type : UInt8) (start : Entry) (result : PathResult) :
    Prop where
  parent : result.parent = start ∨ ∃ index, ∃ h : index < entries.length,
    entries[index].type = DIRECTORY_TYPE ∧ result.parent = entries[index]
  target : result.notFound = false → ∃ h : result.targetEntry < entries.length,
    entries[result.targetEntry] = result.target ∧ result.target.type = type ∧
      result.target.parentId = result.parent.payload

theorem resolveLast_resolved (htable : Table m disk entries) (type : UInt8) (start : Entry)
    (name : CString) : Resolved entries type start (resolveLast disk m type start name) := by
  rcases resolveLast_cases disk m type start name with ⟨-, heq⟩ | ⟨found, hsearch, heq⟩
  · rw [heq]
    exact ⟨Or.inl rfl, fun hfound => by cases hfound⟩
  · obtain ⟨hlt, hparent, htype, -⟩ := htable.search_some hsearch
    have hentry := htable.used found hlt
    rw [heq]
    refine ⟨Or.inl rfl, fun _ => ⟨hlt, hentry.symm, ?_, ?_⟩⟩
    · show (rdEntry disk m found).type = type
      rw [hentry]
      exact htype
    · show (rdEntry disk m found).parentId = start.payload
      rw [hentry]
      exact hparent

theorem resolveFrom_resolved (htable : Table m disk entries) {type : UInt8} {start : Entry}
    {name path : CString} (hok : (resolveFrom disk m type start name path).failure = false) :
    Resolved entries type start (resolveFrom disk m type start name path) := by
  obtain ⟨parent, last, hlast, hfrom⟩ := resolveFrom_last hok
  obtain ⟨hsame, htarget⟩ := resolveLast_resolved htable type parent last
  rw [hlast]
  refine ⟨?_, htarget⟩
  rcases hfrom with rfl | ⟨component, within, found, hsearch, rfl⟩
  · exact hsame
  · obtain ⟨hlt, -, htype, -⟩ := htable.search_some hsearch
    refine Or.inr ⟨found, hlt, htype, ?_⟩
    rw [resolveLast_parent, htable.used found hlt]

theorem resolveFrom_name {type : UInt8} {parent : Entry} {name path : CString}
    (hok : (resolveFrom disk m type parent name path).failure = false)
    (hnames : NamesFit name.length path) (hname : ∀ char ∈ name, char ≠ 0)
    (hpath : ∀ char ∈ path, char ≠ 0) :
    (resolveFrom disk m type parent name path).name.length < FILENAME_LEN ∧
      ∀ char ∈ (resolveFrom disk m type parent name path).name, char ≠ 0 := by
  induction path generalizing parent name with
  | nil =>
      unfold resolveFrom resolveLast
      split
      · exact ⟨hnames, hname⟩
      · exact ⟨hnames, hname⟩
  | cons char path ih =>
      have htail : ∀ other ∈ path, other ≠ 0 :=
        fun other hmem => hpath other (List.mem_cons_of_mem char hmem)
      unfold resolveFrom at hok ⊢
      unfold NamesFit at hnames
      split
      · rename_i hslash
        rw [if_pos hslash] at hok hnames
        split
        · rename_i hnone
          rw [hnone] at hok
          cases hok
        · rename_i found hfound
          rw [hfound] at hok
          exact ih hok hnames.2 (fun _ hmem => absurd hmem List.not_mem_nil) htail
      · rename_i hslash
        rw [if_neg hslash] at hok hnames
        refine ih hok (by rwa [List.length_append, List.length_singleton]) ?_ htail
        intro other hmem
        rcases List.mem_append.mp hmem with hold | hnew
        · exact hname other hold
        · rw [List.mem_singleton.mp hnew]
          exact hpath char List.mem_cons_self

theorem pathResolver_resolved (htable : Table m disk entries) {type : UInt8} {path : Path}
    (hroot : path.text ≠ [47]) (hok : (pathResolver disk m path type).failure = false) :
    Resolved entries type { payload := ROOT_ID } (pathResolver disk m path type) := by
  unfold pathResolver at hok ⊢
  rw [if_neg (fun h => hroot h.2), if_neg (fun h => hroot h.2)] at hok ⊢
  exact resolveFrom_resolved htable hok

theorem pathResolver_name {type : UInt8} {path : Path} (hroot : path.text ≠ [47])
    (hok : (pathResolver disk m path type).failure = false) :
    (pathResolver disk m path type).name.length < FILENAME_LEN ∧
      ∀ char ∈ (pathResolver disk m path type).name, char ≠ 0 := by
  unfold pathResolver at hok ⊢
  rw [if_neg (fun h => hroot h.2), if_neg (fun h => hroot h.2)] at hok ⊢
  refine resolveFrom_name hok path.names (fun _ hmem => absurd hmem List.not_mem_nil) ?_
  intro char hmem
  unfold skipSlash at hmem
  split at hmem
  · exact path.ends char (List.mem_of_mem_tail hmem)
  · exact path.ends char hmem

-- The parent id a new entry gets: neither the end of the table nor a deleted entry.
theorem Resolved.parent_payload (hfits : DirectoryFits m) (htable : Table m disk entries)
    (hok : DirectoryOk entries) {type : UInt8} {result : PathResult}
    (hresolved : Resolved entries type { payload := ROOT_ID } result) :
    result.parent.payload ≠ 0 ∧ result.parent.payload ≠ DELETED_ENTRY ∧
      result.parent.payload < 2 ^ 64 := by
  rcases hresolved.parent with hroot | ⟨index, hlt, htype, hentry⟩
  · rw [hroot]
    exact ⟨by decide, by decide, by decide⟩
  · have hbounds := hok.id_bounds (mem_idsOf hlt htype)
    have hlength := idsOf_length_le entries
    have hroom := htable.room
    have hcapacity := Table.capacity_lt hfits
    rw [hentry]
    simp only [ENTRY_LOOP, DELETED_ENTRY] at hcapacity ⊢
    omega

-- What a new entry must be for the table to stay in shape.
structure Addable (entries : List Entry) (entry : Entry) : Prop where
  id : entry.type = DIRECTORY_TYPE → entry.payload = (idsOf entries).length + 1
  deleted : entry.parentId = DELETED_ENTRY → entry.type = FILE_TYPE
  files : entry.type = FILE_TYPE → entry.parentId ≠ DELETED_ENTRY → entry.payload = END_OF_CHAIN

theorem Addable.ids (hadd : Addable entries entry) (hok : DirectoryOk entries) {ids : List Nat}
    (hids : ids.Perm
      ((if entry.type = DIRECTORY_TYPE then [entry.payload] else []) ++ idsOf entries)) :
    ids.Perm (List.range' 1 ids.length) := by
  by_cases htype : entry.type = DIRECTORY_TYPE
  · rw [if_pos htype, hadd.id htype, List.singleton_append] at hids
    have hlength : ids.length = (idsOf entries).length + 1 := hids.length_eq
    rw [hlength, List.range'_1_concat, Nat.add_comm 1]
    have hcons : (((idsOf entries).length + 1) :: idsOf entries).Perm
        (((idsOf entries).length + 1) :: List.range' 1 (idsOf entries).length) :=
      hok.ids.cons _
    exact (hids.trans hcons).trans (List.perm_append_singleton _ _).symm
  · rw [if_neg htype, List.nil_append] at hids
    rw [hids.length_eq]
    exact hids.trans hok.ids

theorem Addable.set (hadd : Addable entries entry) (hok : DirectoryOk entries)
    (hindex : index < entries.length) (hold : entries[index].type = FILE_TYPE) :
    DirectoryOk (entries.set index entry) where
  ids := hadd.ids hok (idsOf_set entry hindex (by rw [hold]; decide))
  deleted other hmem := by
    rcases List.mem_or_eq_of_mem_set hmem with hbefore | hnew
    · exact hok.deleted other hbefore
    · rw [hnew]
      exact hadd.deleted
  files other hmem := by
    rcases List.mem_or_eq_of_mem_set hmem with hbefore | hnew
    · exact hok.files other hbefore
    · rw [hnew]
      exact hadd.files

theorem Addable.append (hadd : Addable entries entry) (hok : DirectoryOk entries) :
    DirectoryOk (entries ++ [entry]) where
  ids := hadd.ids hok (by rw [idsOf_append]; exact List.perm_append_comm)
  deleted other hmem := by
    rcases List.mem_append.mp hmem with hbefore | hnew
    · exact hok.deleted other hbefore
    · rw [List.mem_singleton.mp hnew]
      exact hadd.deleted
  files other hmem := by
    rcases List.mem_append.mp hmem with hbefore | hnew
    · exact hok.files other hbefore
    · rw [List.mem_singleton.mp hnew]
      exact hadd.files

-- The disk holds a table in shape.
def InShape (m : Mount) (disk : Store) : Prop :=
  ∃ entries, Table m disk entries ∧ DirectoryOk entries

-- Writing the new entry after the last one leaves room only if there was room for two.
theorem HasRoom.length_lt (hfits : DirectoryFits m) (htable : Table m disk entries)
    (hentry : entry.Fits) (hparent : entry.parentId ≠ 0)
    (hroom : HasRoom m (wrEntry disk m entries.length entry)) :
    entries.length + 1 < capacity m := by
  obtain ⟨index, hindex, hfree⟩ := hroom
  have hlast := htable.room
  by_contra hfull
  by_cases he : index = entries.length
  · rw [he, rdEntry_wrEntry disk m _ hentry] at hfree
    exact hparent hfree
  · rw [rdEntry_wrEntry_parentId hfits hlast hindex he hentry] at hfree
    exact htable.parentId_ne (by omega) hfree

theorem InShape.addEntry (hfits : DirectoryFits m) (htable : Table m disk entries)
    (hok : DirectoryOk entries) {result : PathResult} {type : UInt8} {payload : Nat}
    (hentry : entry =
      { parentId := result.parent.payload, type := type, name := result.name, payload := payload })
    (hentryFits : entry.Fits) (hparent : entry.parentId ≠ 0) (hadd : Addable entries entry)
    (hnext : addEntry disk m result type payload = some next) (hroom : HasRoom m next) :
    InShape m next := by
  rw [Echfs.addEntry, htable.findEmpty hfits, Option.map_some, ← hentry] at hnext
  have hdisk := Option.some.inj hnext
  by_cases hreuse : entries.findIdx (·.parentId = DELETED_ENTRY) < entries.length
  · have hdeleted := List.findIdx_getElem (w := hreuse)
    rw [decide_eq_true_eq] at hdeleted
    rw [← hdisk]
    exact ⟨_, htable.set hfits hreuse hentryFits hparent,
      hadd.set hok hreuse (hok.deleted _ (List.getElem_mem hreuse) hdeleted)⟩
  · have hlast : entries.findIdx (·.parentId = DELETED_ENTRY) = entries.length :=
      Nat.le_antisymm List.findIdx_le_length (Nat.le_of_not_lt hreuse)
    rw [hlast] at hdisk
    rw [← hdisk] at hroom ⊢
    exact ⟨_, htable.append hfits (hroom.length_lt hfits htable hentryFits hparent) hentryFits
      hparent, hadd.append hok⟩

-- The entry a call in scope adds fits its slot and has a proper parent.
theorem InShape.adds (hfits : DirectoryFits m) (htable : Table m disk entries)
    (hok : DirectoryOk entries) {call : DirectoryCall} (hscope : InScope m disk call)
    {payload : Nat} (hpayload : payload < 2 ^ 64)
    (hid : call.type = DIRECTORY_TYPE → payload = (idsOf entries).length + 1)
    (hfile : call.type = FILE_TYPE → payload = END_OF_CHAIN)
    (hnext : Echfs.addEntry disk m (pathResolver disk m call.path call.type) call.type payload =
      some next) (hroom : HasRoom m next) : InShape m next := by
  have hresolved := pathResolver_resolved htable hscope.notRoot hscope.parentExists
  obtain ⟨hzero, hdeleted, hlt⟩ := hresolved.parent_payload hfits htable hok
  obtain ⟨hname, hne⟩ := pathResolver_name hscope.notRoot hscope.parentExists
  refine InShape.addEntry hfits htable hok rfl ⟨hlt, hpayload, Nat.two_pow_pos 64, hname, hne⟩ hzero ?_
    hnext hroom
  exact ⟨hid, fun h => absurd h hdeleted, fun h _ => hfile h⟩

theorem InShape.create (hfits : DirectoryFits m) (hshape : InShape m disk) {path : Path}
    (hscope : InScope m disk (.create path))
    (hnext : directoryStep m disk (.create path) = some next) : InShape m next := by
  obtain ⟨entries, htable, hok⟩ := hshape
  have hroom := hscope.room next hnext
  have hparent : (pathResolver disk m path FILE_TYPE).failure = false := hscope.parentExists
  have hadd : Echfs.addEntry disk m (pathResolver disk m path FILE_TYPE) FILE_TYPE END_OF_CHAIN =
      some next := by
    rw [directoryStep, echfsCreate] at hnext
    rw [hparent, if_neg Bool.false_ne_true] at hnext
    obtain ⟨result, hresult, hjoin⟩ := Option.map_eq_some_iff.mp (Option.join_eq_some_iff.mp hnext)
    rw [hresult, hjoin]
  exact InShape.adds hfits htable hok hscope (by decide) (fun h => absurd h file_ne_directory)
    (fun _ => rfl) hadd hroom

theorem InShape.mkdir (hfits : DirectoryFits m) (hshape : InShape m disk) {path : Path}
    (hscope : InScope m disk (.mkdir path)) (horder : MkdirInOrder m disk (.mkdir path))
    (hnext : directoryStep m disk (.mkdir path) = some next) : InShape m next := by
  obtain ⟨entries, htable, hok⟩ := hshape
  have hroom := hscope.room next hnext
  rw [directoryStep, echfsMkdir, hok.getFreeId hfits htable horder, Option.bind_some] at hnext
  have hlength := idsOf_length_le entries
  have hlast := htable.room
  have hcapacity := Table.capacity_lt hfits
  refine InShape.adds hfits htable hok hscope ?_ (fun _ => rfl)
    (fun h => absurd h.symm file_ne_directory) hnext hroom
  simp only [ENTRY_LOOP] at hcapacity
  omega

-- The file echfs_remove finds is empty, so there is no chain to free.
theorem InShape.removeResolved (hfits : DirectoryFits m) (htable : Table m disk entries)
    (hok : DirectoryOk entries) {result : PathResult}
    (hresolved : Resolved entries FILE_TYPE { payload := ROOT_ID } result)
    (hnext : (Echfs.removeResolved disk m result).join = some next) : InShape m next := by
  obtain ⟨-, hdeleted, -⟩ := hresolved.parent_payload hfits htable hok
  rw [Echfs.removeResolved] at hnext
  cases hfound : result.notFound with
  | true =>
      rw [hfound, if_pos rfl] at hnext
      exact nomatch hnext
  | false =>
      obtain ⟨hlt, hentry, htype, hparent⟩ := hresolved.target hfound
      have hmem : result.target ∈ entries := hentry ▸ List.getElem_mem hlt
      have hpayload := hok.files _ hmem htype (hparent ▸ hdeleted)
      rw [hfound, if_neg Bool.false_ne_true, hpayload, freeChain, if_pos rfl, Option.map_some,
        Option.join_some, Option.some.injEq] at hnext
      have hfitsDeleted : deletedEntry.Fits :=
        ⟨by decide, by decide, by decide, by decide, fun _ h => absurd h List.not_mem_nil⟩
      have hadd : Addable entries deletedEntry :=
        ⟨fun h => absurd h file_ne_directory, fun _ => rfl, fun _ h => absurd rfl h⟩
      rw [← hnext]
      exact ⟨_, htable.set hfits hlt hfitsDeleted (by decide), hadd.set hok hlt (hentry ▸ htype)⟩

theorem InShape.remove (hfits : DirectoryFits m) (hshape : InShape m disk) {path : Path}
    (hscope : InScope m disk (.remove path))
    (hnext : directoryStep m disk (.remove path) = some next) : InShape m next := by
  obtain ⟨entries, htable, hok⟩ := hshape
  exact InShape.removeResolved hfits htable hok
    (pathResolver_resolved htable hscope.notRoot hscope.parentExists) hnext

theorem InShape.step (hfits : DirectoryFits m) (hshape : InShape m disk) {call : DirectoryCall}
    (hscope : InScope m disk call) (horder : MkdirInOrder m disk call)
    (hnext : directoryStep m disk call = some next) : InShape m next := by
  cases call with
  | create path => exact hshape.create hfits hscope hnext
  | mkdir path => exact hshape.mkdir hfits hscope horder hnext
  | remove path => exact hshape.remove hfits hscope hnext

theorem InShape.mkdirFresh_iff (hfits : DirectoryFits m) (hshape : InShape m disk)
    (call : DirectoryCall) : MkdirFresh m disk call ↔ MkdirInOrder m disk call := by
  obtain ⟨entries, htable, hok⟩ := hshape
  cases call with
  | create path => exact Iff.rfl
  | mkdir path =>
      exact ⟨fun hfresh => hok.in_order hfits htable hfresh,
        fun horder => hok.freshId hfits htable horder⟩
  | remove path => exact Iff.rfl

theorem EmptyTable.table (hempty : EmptyTable m disk) : Table m disk [] := by
  have hcapacity : 0 < capacity m := Nat.mul_pos hempty.1 (by decide)
  refine ⟨hcapacity, fun _ h => absurd h (Nat.not_lt_zero _), ?_, ?_, ?_⟩
  · exact fun _ h => absurd h List.not_mem_nil
  · exact fun _ h => absurd h List.not_mem_nil
  · exact fun index _ hindex => hempty.2 index hindex

theorem EmptyTable.inShape (hempty : EmptyTable m disk) : InShape m disk := by
  refine ⟨[], hempty.table, ?_⟩
  exact ⟨List.Perm.refl _, fun _ h => absurd h List.not_mem_nil,
      fun _ h => absurd h List.not_mem_nil⟩

-- From an empty table, the ids stay unique and each mkdir gets a new one exactly when every
-- mkdir finds the directories in the order of their ids.
theorem directory_ids_unique_iff (hfits : DirectoryFits m) (hempty : EmptyTable m disk)
    {calls : List DirectoryCall} (hscope : Guarded (directoryStep m) (InScope m) disk calls) :
    ((∀ front back middle, calls = front ++ back →
        run (directoryStep m) disk front = some middle → UniqueIds m middle) ∧
      Guarded (directoryStep m) (MkdirFresh m) disk calls) ↔
    Guarded (directoryStep m) (MkdirInOrder m) disk calls := by
  constructor
  · rintro ⟨-, hfresh⟩
    refine (hscope.and hfresh).of_invariant ?_ ?_ hempty.inShape
    · intro state call next hshape hguard hnext
      exact hshape.step hfits hguard.1 ((hshape.mkdirFresh_iff hfits call).mp hguard.2) hnext
    · exact fun state call hshape hguard => (hshape.mkdirFresh_iff hfits call).mp hguard.2
  · intro horder
    have hkeep : ∀ state call next, InShape m state →
        (InScope m state call ∧ MkdirInOrder m state call) →
        directoryStep m state call = some next → InShape m next :=
      fun state call next hshape hguard hnext => hshape.step hfits hguard.1 hguard.2 hnext
    constructor
    · intro front back middle hsplit hrun
      rw [hsplit] at hscope horder
      have hguard := hscope.append.1.and horder.append.1
      obtain ⟨entries, htable, hok⟩ := run_invariant hkeep hempty.inShape hguard hrun
      exact hok.uniqueIds htable
    · refine (hscope.and horder).of_invariant hkeep ?_ hempty.inShape
      exact fun state call hshape hguard => (hshape.mkdirFresh_iff hfits call).mpr hguard.2

-- An image of 64 blocks with one directory block.
def smallMount : Mount where
  blocks := 64
  fatsize := 1
  fatstart := 16
  dirsize := 1
  dirstart := 17
  datastart := 18

theorem smallMount_fits : DirectoryFits smallMount := by
  unfold DirectoryFits
  decide

def blank : Store := fun _ => 0

-- A file or directory below the root with a name of one character.
def rootPath (char : UInt8) (hne : char ≠ 0) : Path where
  text := [47, char]
  ends := by simp [hne]
  length_lt := by simp
  names := by by_cases hslash : char = 47 <;> simp [skipSlash, NamesFit, hslash, FILENAME_LEN]

theorem a_ne_nul : (97 : UInt8) ≠ 0 := by decide

-- /a, /b and the file /b/f.
def orderedCalls : List DirectoryCall :=
  [.mkdir (rootPath 97 (by decide)), .mkdir (rootPath 98 (by decide)),
    .create ⟨[47, 98, 47, 102], by simp, by decide, by decide⟩]

theorem ordered_calls_keep_ids_unique :
    (run (directoryStep smallMount) blank orderedCalls).isSome = true ∧
      ((∀ front back middle, orderedCalls = front ++ back →
        run (directoryStep smallMount) blank front = some middle → UniqueIds smallMount middle) ∧
      Guarded (directoryStep smallMount) (MkdirFresh smallMount) blank orderedCalls) := by
  have hempty : EmptyTable smallMount blank := by decide +kernel
  have hscope : Guarded (directoryStep smallMount) (InScope smallMount) blank orderedCalls := by
    decide +kernel
  -- at most the first slot holds a directory when one is made
  have halone : Guarded (directoryStep smallMount)
      (fun disk call => call.type = FILE_TYPE ∨ ∀ index, index < capacity smallMount →
        LiveDirectory smallMount disk index → index = 0) blank orderedCalls := by
    decide +kernel
  refine ⟨by decide +kernel, (directory_ids_unique_iff smallMount_fits hempty hscope).mpr ?_⟩
  refine halone.of_invariant (fun _ _ _ _ _ _ => trivial) ?_ trivial
  intro disk call _ hfirst
  cases call with
  | create path => trivial
  | mkdir path =>
      intro first second hlive hlive' hlt
      have hzero : second = 0 :=
        hfirst.resolve_left (fun h => file_ne_directory h.symm) second hlive'.1 hlive'
      omega
  | remove path => trivial

-- /f, /a, /b made, /f removed; then /c takes the first slot and id 3, and so does /d.
def reuseCalls : List DirectoryCall :=
  [.create (rootPath 102 (by decide)), .mkdir (rootPath 97 (by decide)),
    .mkdir (rootPath 98 (by decide)), .remove (rootPath 102 (by decide)),
    .mkdir (rootPath 99 (by decide)), .mkdir (rootPath 100 (by decide))]

theorem removed_slot_gives_duplicate_id :
    DirectoryFits smallMount ∧ EmptyTable smallMount blank ∧
      Guarded (directoryStep smallMount) (InScope smallMount) blank reuseCalls ∧
      ∃ final, run (directoryStep smallMount) blank reuseCalls = some final ∧
        LiveDirectory smallMount final 0 ∧ LiveDirectory smallMount final 3 ∧
        (rdEntry final smallMount 0).payload = 3 ∧ (rdEntry final smallMount 3).payload = 3 ∧
        ¬ UniqueIds smallMount final := by
  have hfinal : ((run (directoryStep smallMount) blank reuseCalls).any fun final =>
      LiveDirectory smallMount final 0 ∧ LiveDirectory smallMount final 3 ∧
        (rdEntry final smallMount 0).payload = 3 ∧ (rdEntry final smallMount 3).payload = 3) =
      true := by
    decide +kernel
  refine ⟨smallMount_fits, by decide +kernel, by decide +kernel, ?_⟩
  obtain ⟨final, hrun, hchecks⟩ := (Option.any_eq_true _ _).mp hfinal
  obtain ⟨hfirst, hsecond, hpayload, hpayload'⟩ := of_decide_eq_true hchecks
  refine ⟨final, hrun, hfirst, hsecond, hpayload, hpayload', fun hunique => ?_⟩
  have hsame := hunique 0 3 hfirst hsecond (hpayload.trans hpayload'.symm)
  omega

end EchidnaOS.Echfs
