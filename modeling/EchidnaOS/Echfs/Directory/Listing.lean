import EchidnaOS.Echfs.Directory.Resolve

namespace EchidnaOS.Echfs

open EchidnaOS.Lib.ByteStore

def dotName (name : CString) : Prop := name = [46] ∨ name = [46, 46]

instance (name : CString) : Decidable (dotName name) := inferInstanceAs (Decidable (_ ∨ _))

-- What echfs_list returns, with the name and the type that it fills in.
abbrev Listed := Int × Option (CString × UInt8)

-- The loop of echfs_list; `i` and `ii` have 32 bits. Out of fuel it is still running.
def listFrom (disk : Store) (m : Mount) (id entry : Nat) : Nat → Nat → Nat → Option Listed
  | 0, _, _ => none
  | fuel + 1, i, ii =>
      let readEntry := rdEntry disk m ii
      if dotName readEntry.name then listFrom disk m id entry fuel i ((ii + 1) % 2 ^ 32)
      else if readEntry.parentId = id ∧ i = entry then
        some (SUCCESS, some (readEntry.name, readEntry.type))
      else if readEntry.parentId = id then listFrom disk m id entry fuel (i + 1) ((ii + 1) % 2 ^ 32)
      else if readEntry.parentId = 0 then some (FAILURE, none)
      else listFrom disk m id entry fuel i ((ii + 1) % 2 ^ 32)

-- echfs_list on any string; a component that path_resolver has no room for is `none`.
def echfsList (disk : Store) (m : Mount) (text : CString) (entry fuel : Nat) : Option Listed :=
  if text = [] then listFrom disk m ROOT_ID entry fuel 0 0
  else
    (pathResolverText disk m text DIRECTORY_TYPE).bind fun result =>
      if result.notFound then some (FAILURE, none)
      else listFrom disk m result.target.payload entry fuel 0 0

-- The entries of the table up to its terminator.
def tableEntries (disk : Store) (m : Mount) : List Entry :=
  ((List.range (capacity m)).map (rdEntry disk m)).takeWhile fun entry => entry.parentId ≠ 0

def child (id : Nat) (entry : Entry) : Bool := entry.parentId = id ∧ ¬ dotName entry.name

-- The children of a directory, in table order.
def children (disk : Store) (m : Mount) (id : Nat) : List Entry := (tableEntries disk m).filter (child id)

-- The id of the directory that a path names.
def directoryBelow (disk : Store) (m : Mount) : Nat → List CString → Option Nat
  | id, [] => some id
  | id, name :: names =>
      ((tableEntries disk m).find? fun entry =>
        entry.parentId = id ∧ entry.type = DIRECTORY_TYPE ∧ entry.name = name).bind fun entry =>
          directoryBelow disk m entry.payload names

def namedDirectory (disk : Store) (m : Mount) (text : CString) : Option Nat :=
  if text = [] ∨ text = [47] then some ROOT_ID else directoryBelow disk m ROOT_ID (parts text)

def answer : Option Entry → Listed
  | some found => (SUCCESS, some (found.name, found.type))
  | none => (FAILURE, none)

-- What echfs_list is to return.
def listing (disk : Store) (m : Mount) (text : CString) (entry : Nat) : Listed :=
  answer ((namedDirectory disk m text).bind fun id => (children disk m id)[entry]?)

def ListsChildren (disk : Store) (m : Mount) (text : CString) : Prop :=
  ∀ entry, entry < 2 ^ 32 → ∃ fuel, echfsList disk m text entry fuel = some (listing disk m text entry)

-- An entry that ends the loop: one named like a dot entry does not.
def Stops (disk : Store) (m : Mount) (index : Nat) : Prop :=
  (rdEntry disk m index).parentId = 0 ∧ ¬ dotName (rdEntry disk m index).name

-- The loop ends before `ii` wraps, and between the terminator and the entry that ends it there is
-- no child.
def Closes (disk : Store) (m : Mount) (id : Nat) : Prop :=
  ∃ stop, stop < 2 ^ 32 ∧ Stops disk m stop ∧
    ∀ index, index < stop → child id (rdEntry disk m index) = true →
      ∀ other, other ≤ index → (rdEntry disk m other).parentId ≠ 0

-- The paths that are listed well: the root, those that path_resolver finds and whose id is not that
-- of the terminator, and those it does not find where no directory, or an empty one, has the path.
def Listable (disk : Store) (m : Mount) (text : CString) : Prop :=
  if text = [] ∨ text = [47] then Closes disk m ROOT_ID
  else
    (∀ part ∈ copied disk m { payload := ROOT_ID } (parts text), part.length < FILENAME_LEN) ∧
      ∃ parent, reach disk m { payload := ROOT_ID } (parts text).dropLast = some parent ∧
        match find disk m ((parts text).getLastD []) parent.payload DIRECTORY_TYPE with
        | some i => (rdEntry disk m i).payload ≠ 0 ∧ Closes disk m (rdEntry disk m i).payload
        | none => ∀ id, namedDirectory disk m text = some id → children disk m id = []

variable {disk : Store} {m : Mount} {text name : CString} {id entry fuel i ii stop index : Nat}

-- What the loop meets from `ii` on, up to the entry that ends it.
def met (disk : Store) (m : Mount) (id ii stop : Nat) : List Entry :=
  ((List.range' ii (stop - ii)).map (rdEntry disk m)).filter (child id)

theorem met_succ (hlt : ii < stop) : met disk m id ii stop =
    if child id (rdEntry disk m ii) then rdEntry disk m ii :: met disk m id (ii + 1) stop
    else met disk m id (ii + 1) stop := by
  obtain ⟨count, hcount⟩ := Nat.exists_eq_add_of_lt hlt
  have hlen : stop - ii = count + 1 := by omega
  have hrest : stop - (ii + 1) = count := by omega
  unfold met
  rw [hlen, hrest, List.range'_succ, List.map_cons, List.filter_cons]

-- The loop returns the entry it counts to, and fails when it has met too few.
theorem listFrom_eq (hid : id ≠ 0) (hstop : Stops disk m stop) (hsmall : stop < 2 ^ 32)
    (hfirst : ∀ index, index < stop → ¬ Stops disk m index) (hi : i ≤ entry) (hii : ii ≤ stop) :
    listFrom disk m id entry (stop - ii + 1) i ii = some (answer (met disk m id ii stop)[entry - i]?) := by
  induction hcount : stop - ii generalizing i ii with
  | zero =>
      have heq : ii = stop := by omega
      have hother : (rdEntry disk m stop).parentId ≠ id := by
        rw [hstop.1]
        exact Ne.symm hid
      subst heq
      rw [listFrom, if_neg hstop.2, if_neg fun h => hother h.1, if_neg hother, if_pos hstop.1]
      simp [met, answer]
  | succ count ih =>
      have hlt : ii < stop := by omega
      have hwrap : (ii + 1) % 2 ^ 32 = ii + 1 := Nat.mod_eq_of_lt (by omega)
      have hnext : ∀ {i}, i ≤ entry → listFrom disk m id entry (count + 1) i (ii + 1) =
          some (answer (met disk m id (ii + 1) stop)[entry - i]?) := fun hi => ih hi (by omega) (by omega)
      rw [listFrom, hwrap, met_succ hlt]
      by_cases hdot : dotName (rdEntry disk m ii).name
      · have hchild : ¬ child id (rdEntry disk m ii) = true := by simp [child, hdot]
        rw [if_pos hdot, if_neg hchild, hnext hi]
      · rw [if_neg hdot]
        by_cases hparent : (rdEntry disk m ii).parentId = id
        · have hchild : child id (rdEntry disk m ii) = true := by simp [child, hdot, hparent]
          rw [if_pos hchild]
          by_cases hlast : i = entry
          · rw [if_pos ⟨hparent, hlast⟩, hlast, Nat.sub_self, List.getElem?_cons_zero]
            rfl
          · obtain ⟨left, hleft⟩ := Nat.exists_eq_succ_of_ne_zero (show entry - i ≠ 0 by omega)
            have hcounted : entry - (i + 1) = left := by omega
            rw [if_neg fun h => hlast h.2, if_pos hparent, hnext (by omega), hleft, hcounted,
              List.getElem?_cons_succ]
        · have hchild : ¬ child id (rdEntry disk m ii) = true := by simp [child, hparent]
          have hused : (rdEntry disk m ii).parentId ≠ 0 := fun hzero => hfirst ii hlt ⟨hzero, hdot⟩
          rw [if_neg hchild, if_neg fun h => hparent h.1, if_neg hparent, if_neg hused, hnext hi]

-- It fails only at an entry that ends it and is no child.
theorem listFrom_failure {listed : Option (CString × UInt8)} (hii : ii < 2 ^ 32)
    (hrun : listFrom disk m id entry fuel i ii = some (FAILURE, listed)) :
    id ≠ 0 ∧ ∃ stop, stop < 2 ^ 32 ∧ Stops disk m stop := by
  induction fuel generalizing i ii with
  | zero => cases hrun
  | succ fuel ih =>
      have hnext : (ii + 1) % 2 ^ 32 < 2 ^ 32 := Nat.mod_lt _ (by decide)
      rw [listFrom] at hrun
      by_cases hdot : dotName (rdEntry disk m ii).name
      · rw [if_pos hdot] at hrun
        exact ih hnext hrun
      rw [if_neg hdot] at hrun
      by_cases hlast : (rdEntry disk m ii).parentId = id ∧ i = entry
      · rw [if_pos hlast] at hrun
        have hcode : SUCCESS = FAILURE := congrArg Prod.fst (Option.some.inj hrun)
        exact absurd hcode (by decide)
      rw [if_neg hlast] at hrun
      by_cases hparent : (rdEntry disk m ii).parentId = id
      · rw [if_pos hparent] at hrun
        exact ih hnext hrun
      rw [if_neg hparent] at hrun
      by_cases hend : (rdEntry disk m ii).parentId = 0
      · refine ⟨fun hzero => hparent (hend.trans hzero.symm), ii, hii, hend, hdot⟩
      · rw [if_neg hend] at hrun
        exact ih hnext hrun

theorem listFrom_mono {listed : Listed} (more : Nat)
    (hrun : listFrom disk m id entry fuel i ii = some listed) :
    listFrom disk m id entry (fuel + more) i ii = some listed := by
  induction fuel generalizing i ii with
  | zero => cases hrun
  | succ fuel ih =>
      rw [Nat.add_right_comm]
      rw [listFrom] at hrun ⊢
      split
      · rename_i hdot
        rw [if_pos hdot] at hrun
        exact ih hrun
      rename_i hdot
      rw [if_neg hdot] at hrun
      split
      · rename_i hlast
        rw [if_pos hlast] at hrun
        exact hrun
      rename_i hlast
      rw [if_neg hlast] at hrun
      split
      · rename_i hparent
        rw [if_pos hparent] at hrun
        exact ih hrun
      rename_i hparent
      rw [if_neg hparent] at hrun
      split
      · rename_i hend
        rw [if_pos hend] at hrun
        exact hrun
      · rename_i hend
        rw [if_neg hend] at hrun
        exact ih hrun

theorem listFrom_unique {first second : Listed} {other : Nat}
    (hfirst : listFrom disk m id entry fuel i ii = some first)
    (hsecond : listFrom disk m id entry other i ii = some second) : first = second := by
  have hboth := listFrom_mono other hfirst
  rw [Nat.add_comm, listFrom_mono fuel hsecond] at hboth
  exact (Option.some.inj hboth).symm

-- The first entry with parent_id 0.
structure Terminates (disk : Store) (m : Mount) (last : Nat) : Prop where
  inside : last < capacity m
  parentId_eq : (rdEntry disk m last).parentId = 0
  before : ∀ index, index < last → (rdEntry disk m index).parentId ≠ 0

variable {last : Nat}

theorem exists_terminates (hend : ∃ last, last < capacity m ∧ (rdEntry disk m last).parentId = 0) :
    ∃ last, Terminates disk m last := by
  classical
  obtain ⟨hinside, hparent⟩ := Nat.find_spec hend
  refine ⟨Nat.find hend, hinside, hparent, fun index hlt hzero => ?_⟩
  exact Nat.find_min hend hlt ⟨by omega, hzero⟩

theorem Terminates.tableEntries_eq (hlast : Terminates disk m last) :
    tableEntries disk m = (List.range last).map (rdEntry disk m) := by
  apply List.ext_getElem?
  intro index
  refine Option.ext fun entry => ?_
  unfold tableEntries
  rw [usedEntries_getElem?, List.getElem?_map, Option.map_eq_some_iff]
  simp only [List.getElem?_eq_some_iff, List.length_range, List.getElem_range]
  have hinside := hlast.inside
  constructor
  · rintro ⟨-, hentry, hused⟩
    have hlt : index < last := by
      by_contra hge
      exact hused last (by omega) hlast.parentId_eq
    exact ⟨index, ⟨hlt, rfl⟩, hentry⟩
  · rintro ⟨a, ⟨hlt, rfl⟩, hentry⟩
    exact ⟨by omega, hentry, fun other hle => hlast.before other (by omega)⟩

theorem Terminates.children_eq (hlast : Terminates disk m last) :
    children disk m id = met disk m id 0 last := by
  unfold children met
  rw [hlast.tableEntries_eq, List.range_eq_range', Nat.sub_zero]

theorem met_append (hlow : ii ≤ last) (hhigh : last ≤ stop) :
    met disk m id ii stop = met disk m id ii last ++ met disk m id last stop := by
  have hsplit : List.range' ii (stop - ii) = List.range' ii (last - ii) ++ List.range' last (stop - last) := by
    have happend := @List.range'_append_1 ii (last - ii) (stop - last)
    rw [Nat.add_sub_cancel' hlow] at happend
    rw [happend]
    congr 1
    omega
  unfold met
  rw [hsplit, List.map_append, List.filter_append]

theorem met_eq_nil : met disk m id ii stop = [] ↔
    ∀ index, ii ≤ index → index < stop → ¬ child id (rdEntry disk m index) = true := by
  unfold met
  simp only [List.filter_eq_nil_iff, List.mem_map, List.mem_range'_1]
  constructor
  · intro hnone index hlow hhigh
    exact hnone _ ⟨index, by omega, rfl⟩
  · rintro hnone _ ⟨index, hbounds, rfl⟩
    exact hnone index hbounds.1 (by omega)

-- Some entry number is behind all children.
theorem Terminates.children_length (hlast : Terminates disk m last) :
    (children disk m id).length ≤ last := by
  rw [hlast.children_eq]
  unfold met
  refine (List.length_filter_le _ _).trans ?_
  rw [List.length_map, List.length_range', Nat.sub_zero]

theorem Terminates.le_stop (hlast : Terminates disk m last) (hstop : Stops disk m stop) : last ≤ stop := by
  by_contra hlt
  exact hlast.before stop (by omega) hstop.1

theorem exists_first_stop (hstop : Stops disk m stop) :
    ∃ first, first ≤ stop ∧ Stops disk m first ∧ ∀ index, index < first → ¬ Stops disk m index := by
  classical
  have hex : ∃ stop, Stops disk m stop := ⟨stop, hstop⟩
  exact ⟨Nat.find hex, Nat.find_min' hex hstop, Nat.find_spec hex, fun index hlt => Nat.find_min hex hlt⟩

theorem answer_failure {found : Option Entry} (hanswer : (answer found).1 = FAILURE) : found = none := by
  cases found with
  | none => rfl
  | some entry =>
      have hcode : SUCCESS = FAILURE := hanswer
      exact absurd hcode (by decide)

-- The loop lists the children of a directory exactly if it closes.
theorem listFrom_children_iff (hlast : Terminates disk m last) :
    (id ≠ 0 ∧ Closes disk m id → ∀ entry, ∃ fuel,
      listFrom disk m id entry fuel 0 0 = some (answer (children disk m id)[entry]?)) ∧
    (last < 2 ^ 32 → (∀ entry, entry < 2 ^ 32 → ∃ fuel,
      listFrom disk m id entry fuel 0 0 = some (answer (children disk m id)[entry]?)) →
        id ≠ 0 ∧ Closes disk m id) := by
  constructor
  · rintro ⟨hid, stop, hsmall, hstop, hnone⟩ entry
    obtain ⟨first, hle, hfirst, hbefore⟩ := exists_first_stop hstop
    have hrest : met disk m id last first = [] := by
      rw [met_eq_nil]
      intro index hlow hhigh hchild
      exact hnone index (by omega) hchild last hlow hlast.parentId_eq
    have hall : met disk m id 0 first = children disk m id := by
      rw [met_append (Nat.zero_le last) (hlast.le_stop hfirst), hrest, List.append_nil, hlast.children_eq]
    have hrun := @listFrom_eq disk m id entry 0 0 first hid hfirst (by omega) hbefore (Nat.zero_le _)
      (Nat.zero_le _)
    rw [hall, Nat.sub_zero] at hrun
    exact ⟨_, hrun⟩
  · intro hsmall hlists
    have hcount := @Terminates.children_length disk m id last hlast
    obtain ⟨fuel, hrun⟩ := hlists (children disk m id).length (by omega)
    rw [List.getElem?_eq_none (Nat.le_refl _)] at hrun
    obtain ⟨hid, stop, hlt, hstop⟩ := listFrom_failure (by decide) hrun
    obtain ⟨first, hle, hfirst, hbefore⟩ := exists_first_stop hstop
    have hother := @listFrom_eq disk m id (children disk m id).length 0 0 first hid hfirst (by omega)
      hbefore (Nat.zero_le _) (Nat.zero_le _)
    have hsame := listFrom_unique hother hrun
    have hbehind := answer_failure (congrArg Prod.fst hsame)
    rw [Nat.sub_zero, List.getElem?_eq_none_iff, met_append (Nat.zero_le last) (hlast.le_stop hfirst),
      ← hlast.children_eq, List.length_append] at hbehind
    have hnone : met disk m id last first = [] := List.length_eq_zero_iff.mp (by omega)
    rw [met_eq_nil] at hnone
    refine ⟨hid, first, by omega, hfirst, ?_⟩
    intro index hindex hchild other hother hzero
    have hreach : last ≤ index := by
      by_contra hbefore
      exact hlast.before other (by omega) hzero
    exact hnone index hreach hindex hchild

-- What path_resolver finds is what the path names.
theorem find_named {parent found : Nat} (hfind : find disk m name parent DIRECTORY_TYPE = some found) :
    (tableEntries disk m).find? (fun entry =>
      entry.parentId = parent ∧ entry.type = DIRECTORY_TYPE ∧ entry.name = name) =
        some (rdEntry disk m found) := by
  obtain ⟨hlt, hused, hmatch, hfirst⟩ := find_eq_some_iff.mp hfind
  have hcapacity := searchEnd_le m
  have hentry : ∀ {index : Nat} (h : index < (tableEntries disk m).length),
      (tableEntries disk m)[index] = rdEntry disk m index := by
    intro index h
    have hread : (tableEntries disk m)[index]? = some (tableEntries disk m)[index] :=
      List.getElem?_eq_getElem h
    exact (usedEntries_getElem?.mp hread).2.1.symm
  have hlength : found < (tableEntries disk m).length :=
    (List.getElem?_eq_some_iff.mp (usedEntries_getElem?.mpr ⟨by omega, rfl, hused⟩)).1
  rw [List.find?_eq_some_iff_getElem]
  refine ⟨decide_eq_true hmatch, found, hlength, hentry hlength, ?_⟩
  intro other hother
  rw [hentry, Bool.not_eq_true', decide_eq_false_iff_not]
  exact hfirst other hother

theorem directoryBelow_of_reach {start parent : Entry} {names : List CString} {found : Nat} (hne : names ≠ [])
    (hreach : reach disk m start names.dropLast = some parent)
    (hfind : find disk m (names.getLastD []) parent.payload DIRECTORY_TYPE = some found) :
    directoryBelow disk m start.payload names = some (rdEntry disk m found).payload := by
  induction names generalizing start with
  | nil => exact absurd rfl hne
  | cons name names ih =>
      cases names with
      | nil =>
          rw [List.dropLast_singleton, reach] at hreach
          obtain rfl := Option.some.inj hreach
          rw [List.getLastD_cons, List.getLastD_nil] at hfind
          rw [directoryBelow, find_named hfind]
          rfl
      | cons next rest =>
          rw [List.dropLast_cons_of_ne_nil (List.cons_ne_nil next rest), reach] at hreach
          cases hfirst : find disk m name start.payload DIRECTORY_TYPE with
          | none =>
              rw [hfirst] at hreach
              cases hreach
          | some i =>
              rw [hfirst, Option.bind_some] at hreach
              rw [directoryBelow, find_named hfirst, Option.bind_some]
              exact ih (List.cons_ne_nil next rest) hreach hfind

-- A call that finds the directory lists what is below it.
theorem listsChildren_of_run (hnamed : namedDirectory disk m text = some id)
    (hcall : ∀ entry fuel, echfsList disk m text entry fuel = listFrom disk m id entry fuel 0 0) :
    ListsChildren disk m text ↔ ∀ entry, entry < 2 ^ 32 → ∃ fuel,
      listFrom disk m id entry fuel 0 0 = some (answer (children disk m id)[entry]?) := by
  unfold ListsChildren listing
  simp only [hnamed, hcall, Option.bind_some]

-- A directory is listed well exactly under these conditions.
theorem listsChildren_iff_closes (hlast : Terminates disk m last)
    (hnamed : namedDirectory disk m text = some id)
    (hcall : ∀ entry fuel, echfsList disk m text entry fuel = listFrom disk m id entry fuel 0 0) :
    (id ≠ 0 ∧ Closes disk m id → ListsChildren disk m text) ∧
      (last < 2 ^ 32 → ListsChildren disk m text → id ≠ 0 ∧ Closes disk m id) := by
  obtain ⟨henough, hneeded⟩ := @listFrom_children_iff disk m id last hlast
  rw [listsChildren_of_run hnamed hcall]
  exact ⟨fun hcloses entry _ => henough hcloses entry, hneeded⟩

-- Some number is answered with FAILURE.
theorem Terminates.exists_failure (hlast : Terminates disk m last) (hsmall : last < 2 ^ 32)
    (text : CString) : ∃ entry, entry < 2 ^ 32 ∧ listing disk m text entry = (FAILURE, none) := by
  unfold listing
  cases namedDirectory disk m text with
  | none => exact ⟨0, by decide, rfl⟩
  | some id =>
      have hcount := @Terminates.children_length disk m id last hlast
      refine ⟨(children disk m id).length, by omega, ?_⟩
      rw [Option.bind_some, List.getElem?_eq_none (Nat.le_refl _)]
      rfl

theorem echfsList_resolved {result : PathResult} (hempty : text ≠ [])
    (hresult : pathResolverText disk m text DIRECTORY_TYPE = some result) (entry fuel : Nat) :
    echfsList disk m text entry fuel =
      if result.notFound then some (FAILURE, none)
      else listFrom disk m result.target.payload entry fuel 0 0 := by
  rw [echfsList, if_neg hempty, hresult, Option.bind_some]

theorem resolved_walks {result : PathResult} (hslash : text ≠ [47])
    (hresult : pathResolverText disk m text DIRECTORY_TYPE = some result) :
    (result.failure = true → result = { failure := true }) ∧
      Walks disk m DIRECTORY_TYPE { payload := ROOT_ID } (parts text) result := by
  rw [pathResolverText_of_not_root hslash] at hresult
  have hfrom := resolveText_eq hresult
  constructor
  · intro hfailure
    rw [hfrom] at hfailure ⊢
    exact resolveFrom_failed hfailure
  · rw [hfrom]
    exact @resolveFrom_walks disk m DIRECTORY_TYPE { payload := ROOT_ID } [] (skipSlash text)
      List.not_mem_nil

-- A failed lookup leaves the id of the terminator, at which the loop does not fail.
theorem not_listsChildren_of_failure {result : PathResult} (hlast : Terminates disk m last)
    (hsmall : last < 2 ^ 32) (hempty : text ≠ [])
    (hresult : pathResolverText disk m text DIRECTORY_TYPE = some result)
    (hfailed : result = { failure := true }) : ¬ ListsChildren disk m text := by
  intro hlists
  obtain ⟨entry, hentry, hlisting⟩ := hlast.exists_failure hsmall text
  obtain ⟨fuel, hrun⟩ := hlists entry hentry
  rw [hlisting, echfsList_resolved hempty hresult, hfailed, if_neg Bool.false_ne_true] at hrun
  exact absurd rfl (listFrom_failure (by decide) hrun).1

-- A last component that is not found lists nothing.
theorem listsChildren_of_notFound {result : PathResult} (hempty : text ≠ [])
    (hresult : pathResolverText disk m text DIRECTORY_TYPE = some result)
    (hnotFound : result.notFound = true) : ListsChildren disk m text ↔
      ∀ id, namedDirectory disk m text = some id → children disk m id = [] := by
  have hcall : ∀ entry fuel, echfsList disk m text entry fuel = some (FAILURE, none) := by
    intro entry fuel
    rw [echfsList_resolved hempty hresult, if_pos hnotFound]
  constructor
  · intro hlists id hnamed
    obtain ⟨fuel, hrun⟩ := hlists 0 (by decide)
    rw [hcall] at hrun
    have hcode := congrArg Prod.fst (Option.some.inj hrun)
    unfold listing at hcode
    rw [hnamed, Option.bind_some] at hcode
    have hnone := answer_failure hcode.symm
    rw [List.getElem?_eq_none_iff] at hnone
    exact List.length_eq_zero_iff.mp (by omega)
  · intro hnone entry _
    refine ⟨0, (hcall entry 0).trans ?_⟩
    unfold listing
    cases hnamed : namedDirectory disk m text with
    | none => rfl
    | some id =>
        rw [Option.bind_some, hnone id hnamed]
        rfl

theorem listsChildren_iff_of_root (hlast : Terminates disk m last) (hstart : text = [] ∨ text = [47]) :
    (Closes disk m ROOT_ID → ListsChildren disk m text) ∧
      (last < 2 ^ 32 → ListsChildren disk m text → Closes disk m ROOT_ID) := by
  have hnamed : namedDirectory disk m text = some ROOT_ID := if_pos hstart
  have hcall : ∀ entry fuel,
      echfsList disk m text entry fuel = listFrom disk m ROOT_ID entry fuel 0 0 := by
    intro entry fuel
    rcases hstart with rfl | rfl
    · rfl
    · rfl
  have hroot : ROOT_ID ≠ 0 := by decide
  obtain ⟨henough, hneeded⟩ := listsChildren_iff_closes hlast hnamed hcall
  exact ⟨fun hcloses => henough ⟨hroot, hcloses⟩, fun hsmall hlists => (hneeded hsmall hlists).2⟩

-- The last component is a directory of the one that the components before it lead to.
theorem listsChildren_iff_of_found {result : PathResult} {parent : Entry} {found : Nat}
    (hlast : Terminates disk m last) (hstart : ¬(text = [] ∨ text = [47]))
    (hresult : pathResolverText disk m text DIRECTORY_TYPE = some result)
    (hreach : reach disk m { payload := ROOT_ID } (parts text).dropLast = some parent)
    (hfind : find disk m ((parts text).getLastD []) parent.payload DIRECTORY_TYPE = some found)
    (hfound : result.notFound = false) (htarget : result.target = rdEntry disk m found) :
    ((rdEntry disk m found).payload ≠ 0 ∧ Closes disk m (rdEntry disk m found).payload →
        ListsChildren disk m text) ∧
      (last < 2 ^ 32 → ListsChildren disk m text →
        (rdEntry disk m found).payload ≠ 0 ∧ Closes disk m (rdEntry disk m found).payload) := by
  have hnamed : namedDirectory disk m text = some (rdEntry disk m found).payload := by
    rw [namedDirectory, if_neg hstart]
    exact directoryBelow_of_reach (List.splitOn_ne_nil 47 _) hreach hfind
  refine listsChildren_iff_closes hlast hnamed ?_
  intro entry fuel
  rw [echfsList_resolved (not_or.mp hstart).1 hresult, hfound, htarget, if_neg Bool.false_ne_true]

theorem listsChildren_iff_listable (hlast : Terminates disk m last) :
    (Listable disk m text → ListsChildren disk m text) ∧
      (last < 2 ^ 32 → ListsChildren disk m text → Listable disk m text) := by
  by_cases hstart : text = [] ∨ text = [47]
  · unfold Listable
    rw [if_pos hstart]
    exact listsChildren_iff_of_root hlast hstart
  obtain ⟨hempty, hslash⟩ := not_or.mp hstart
  have hfits : (pathResolverText disk m text DIRECTORY_TYPE).isSome = true ↔
      ∀ part ∈ copied disk m { payload := ROOT_ID } (parts text), part.length < FILENAME_LEN := by
    rw [pathResolverText_of_not_root hslash]
    exact @resolveText_isSome_iff disk m DIRECTORY_TYPE { payload := ROOT_ID } [] (skipSlash text)
      List.not_mem_nil
  unfold Listable
  rw [if_neg hstart, ← hfits]
  cases hresult : pathResolverText disk m text DIRECTORY_TYPE with
  | none =>
      refine ⟨fun hlistable => absurd hlistable.1 (by simp), fun _ hlists => ?_⟩
      obtain ⟨fuel, hrun⟩ := hlists 0 (by decide)
      rw [echfsList, if_neg hempty, hresult] at hrun
      cases hrun
  | some result =>
      obtain ⟨hfailed, hwalks⟩ := resolved_walks hslash hresult
      unfold Walks at hwalks
      cases hreach : reach disk m { payload := ROOT_ID } (parts text).dropLast with
      | none =>
          rw [hreach] at hwalks
          have hnot := fun hsmall =>
            not_listsChildren_of_failure hlast hsmall hempty hresult (hfailed hwalks)
          refine ⟨fun hlistable => ?_, fun hsmall hlists => absurd hlists (hnot hsmall)⟩
          obtain ⟨-, parent, hparent, -⟩ := hlistable
          cases hparent
      | some parent =>
          rw [hreach] at hwalks
          obtain ⟨-, -, -, hlookup⟩ := hwalks
          cases hfind : find disk m ((parts text).getLastD []) parent.payload DIRECTORY_TYPE with
          | none =>
              rw [hfind] at hlookup
              rw [listsChildren_of_notFound hempty hresult hlookup]
              constructor
              · rintro ⟨-, other, hother, hnone⟩
                rw [← Option.some.inj hother, hfind] at hnone
                exact hnone
              · intro _ hnone
                refine ⟨rfl, parent, rfl, ?_⟩
                rw [hfind]
                exact hnone
          | some found =>
              rw [hfind] at hlookup
              obtain ⟨hfound, htarget, -⟩ := hlookup
              obtain ⟨henough, hneeded⟩ :=
                listsChildren_iff_of_found hlast hstart hresult hreach hfind hfound htarget
              constructor
              · rintro ⟨-, other, hother, hcloses⟩
                rw [← Option.some.inj hother, hfind] at hcloses
                exact henough hcloses
              · intro hsmall hlists
                refine ⟨rfl, parent, rfl, ?_⟩
                rw [hfind]
                exact hneeded hsmall hlists

-- A table with a terminator is listed as it should be exactly under the conditions of `Listable`.
theorem echfs_list_children_iff (disk : Store) (m : Mount) (text : CString)
    (hend : ∃ last, last < capacity m ∧ (rdEntry disk m last).parentId = 0) :
    (Listable disk m text → ListsChildren disk m text) ∧
      ((∃ last, last < 2 ^ 32 ∧ last < capacity m ∧ (rdEntry disk m last).parentId = 0) →
        ListsChildren disk m text → Listable disk m text) := by
  obtain ⟨last, hlast⟩ := exists_terminates hend
  obtain ⟨henough, hneeded⟩ := @listsChildren_iff_listable disk m text last hlast
  refine ⟨henough, fun hsmall => hneeded ?_⟩
  obtain ⟨other, hother, -, hparent⟩ := hsmall
  by_contra hbehind
  exact hlast.before other (by omega) hparent

theorem smallDisk_terminates : Terminates smallDisk smallMount 1 := by
  refine ⟨by decide, by decide +kernel, ?_⟩
  intro index hindex
  obtain rfl : index = 0 := by omega
  decide +kernel

-- The directory /x with the file y.
theorem echfs_list_children_iff_nested : ListsChildren nestedDisk smallMount [47, 120] := by
  have hparent : (rdEntry nestedDisk smallMount 2).parentId = 0 := by decide +kernel
  have hfind : find nestedDisk smallMount ((parts [47, 120]).getLastD []) ROOT_ID DIRECTORY_TYPE =
      some 0 := by decide +kernel
  have hlistable : Listable nestedDisk smallMount [47, 120] := by
    refine ⟨by decide +kernel, { payload := ROOT_ID }, rfl, ?_⟩
    rw [hfind]
    refine ⟨by decide +kernel, 2, by decide, ⟨hparent, by decide +kernel⟩, ?_⟩
    have hused : ∀ index, index < 2 → (rdEntry nestedDisk smallMount index).parentId ≠ 0 := by
      decide +kernel
    intro index hindex _ other hother
    exact hused other (Nat.lt_of_le_of_lt hother hindex)
  exact (echfs_list_children_iff nestedDisk smallMount [47, 120] ⟨2, by decide, hparent⟩).1 hlistable

-- There is no directory /x, but the first entry of /x/y is listed.
theorem missing_parent_listed : Terminates smallDisk smallMount 1 ∧
    listing smallDisk smallMount [47, 120, 47, 121] 0 = (FAILURE, none) ∧
    echfsList smallDisk smallMount [47, 120, 47, 121] 0 2 = some (SUCCESS, some ([], 0)) ∧
    ¬ ListsChildren smallDisk smallMount [47, 120, 47, 121] := by
  have hsome : (pathResolverText smallDisk smallMount [47, 120, 47, 121] DIRECTORY_TYPE).isSome = true := by
    decide +kernel
  obtain ⟨result, hresult⟩ := Option.isSome_iff_exists.mp hsome
  obtain ⟨hfailed, hwalks⟩ := resolved_walks (by decide) hresult
  have hreach : reach smallDisk smallMount { payload := ROOT_ID } (parts [47, 120, 47, 121]).dropLast =
      none := by decide +kernel
  unfold Walks at hwalks
  rw [hreach] at hwalks
  refine ⟨smallDisk_terminates, by decide +kernel, by decide +kernel, ?_⟩
  exact not_listsChildren_of_failure smallDisk_terminates (by decide) (by decide) hresult
    (hfailed hwalks)

end EchidnaOS.Echfs
