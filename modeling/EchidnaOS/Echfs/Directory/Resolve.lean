import EchidnaOS.Echfs.Directory.Unresolved

namespace EchidnaOS.Echfs

open EchidnaOS.Lib.ByteStore

-- path_resolver on any string, with its array of FILENAME_LEN bytes for a component; a write
-- behind the array is `none`. The name read so far has the index `i` as its length.
def resolveText (disk : Store) (m : Mount) (type : UInt8) :
    Entry → CString → CString → Option PathResult
  | parent, name, [] =>
      if name.length < FILENAME_LEN then some (resolveLast disk m type parent name) else none
  | parent, name, char :: path =>
      if name.length < FILENAME_LEN then
        if char = 47 then
          match search disk m name parent.payload DIRECTORY_TYPE with
          | none => some { failure := true }
          | some i => resolveText disk m type (rdEntry disk m i) [] path
        else resolveText disk m type parent (name ++ [char]) path
      else none

def pathResolverText (disk : Store) (m : Mount) (text : CString) (type : UInt8) : Option PathResult :=
  if type = DIRECTORY_TYPE ∧ text = [47] then some { target := { payload := ROOT_ID } }
  else if type = FILE_TYPE ∧ text = [47] then some { failure := true }
  else resolveText disk m type { payload := ROOT_ID } [] (skipSlash text)

-- The components of a path.
def parts (text : CString) : List CString := (skipSlash text).splitOn 47

-- The entries of the table that a search looks at: those before the first with parent_id 0.
def liveEntries (disk : Store) (m : Mount) : List Entry :=
  ((List.range (searchEnd m)).map (rdEntry disk m)).takeWhile fun entry => entry.parentId ≠ 0

def find (disk : Store) (m : Mount) (name : CString) (parent : Nat) (type : UInt8) : Option Nat :=
  (liveEntries disk m).findIdx? fun entry =>
    entry.parentId = parent ∧ entry.type = type ∧ entry.name = name

-- The directory that a list of names leads to.
def reach (disk : Store) (m : Mount) : Entry → List CString → Option Entry
  | parent, [] => some parent
  | parent, name :: names =>
      (find disk m name parent.payload DIRECTORY_TYPE).bind fun i =>
        reach disk m (rdEntry disk m i) names

-- What path_resolver is for: the components before the last one are directories, each in the
-- one before it, and the last one is looked up in the last of them.
def Walks (disk : Store) (m : Mount) (type : UInt8) (start : Entry) (names : List CString)
    (result : PathResult) : Prop :=
  match reach disk m start names.dropLast with
  | none => result.failure = true
  | some parent =>
      result.failure = false ∧ result.parent = parent ∧ result.name = names.getLastD [] ∧
        match find disk m (names.getLastD []) parent.payload type with
        | none => result.notFound = true
        | some i => result.notFound = false ∧ result.target = rdEntry disk m i ∧ result.targetEntry = i

-- The components that path_resolver copies: it stops at one that is no directory.
def copied (disk : Store) (m : Mount) : Entry → List CString → List CString
  | _, [] => []
  | parent, name :: names =>
      name :: match find disk m name parent.payload DIRECTORY_TYPE with
        | none => []
        | some i => copied disk m (rdEntry disk m i) names

variable {disk : Store} {m : Mount} {type : UInt8} {start : Entry} {name text : CString} {parent : Nat}

section TakeWhile

variable {α : Type} {p : α → Bool} {l : List α} {index : Nat} {a : α}

theorem getElem?_takeWhile : (l.takeWhile p)[index]? = some a ↔
    l[index]? = some a ∧ ∀ other, other ≤ index → ∀ b, l[other]? = some b → p b = true := by
  induction l generalizing index with
  | nil => simp
  | cons head tail ih =>
      by_cases hhead : p head = true
      · rw [List.takeWhile_cons_of_pos hhead]
        cases index with
        | zero =>
            simp only [List.getElem?_cons_zero, Option.some.injEq, Nat.le_zero_eq, forall_eq]
            constructor
            · rintro rfl
              exact ⟨rfl, fun b hb => hb ▸ hhead⟩
            · exact And.left
        | succ index =>
            simp only [List.getElem?_cons_succ, ih]
            refine and_congr_right fun _ => ⟨?_, ?_⟩
            · intro hall other hle b hb
              cases other with
              | zero =>
                  cases hb
                  exact hhead
              | succ other => exact hall other (by omega) b hb
            · intro hall other hle b hb
              exact hall (other + 1) (by omega) b hb
      · rw [List.takeWhile_cons_of_neg hhead]
        simp only [List.getElem?_nil, reduceCtorEq, false_iff, not_and]
        intro _ hall
        exact hhead (hall 0 (Nat.zero_le _) head rfl)

end TakeWhile

theorem not_mem_snoc {char : UInt8} (hname : 47 ∉ name) (hslash : char ≠ 47) : 47 ∉ name ++ [char] := by
  simp only [List.mem_append, List.mem_singleton, not_or]
  exact ⟨hname, Ne.symm hslash⟩

-- The entries before the first with parent_id 0, of the first `count` ones.
theorem usedEntries_getElem? {count index : Nat} {entry : Entry} :
    (((List.range count).map (rdEntry disk m)).takeWhile fun entry => entry.parentId ≠ 0)[index]? =
        some entry ↔
      index < count ∧ rdEntry disk m index = entry ∧
        ∀ other, other ≤ index → (rdEntry disk m other).parentId ≠ 0 := by
  have hread : ∀ {other : Nat} {entry : Entry},
      ((List.range count).map (rdEntry disk m))[other]? = some entry ↔
        other < count ∧ rdEntry disk m other = entry := by
    intro other entry
    rw [List.getElem?_map, Option.map_eq_some_iff]
    simp only [List.getElem?_eq_some_iff, List.length_range, List.getElem_range]
    constructor
    · rintro ⟨a, ⟨hlt, rfl⟩, hentry⟩
      exact ⟨hlt, hentry⟩
    · rintro ⟨hlt, hentry⟩
      exact ⟨other, ⟨hlt, rfl⟩, hentry⟩
  rw [getElem?_takeWhile]
  simp only [hread]
  constructor
  · rintro ⟨⟨hlt, hentry⟩, hlive⟩
    refine ⟨hlt, hentry, fun other hle => ?_⟩
    simpa using hlive other hle _ ⟨by omega, rfl⟩
  · rintro ⟨hlt, hentry, hlive⟩
    refine ⟨⟨hlt, hentry⟩, ?_⟩
    rintro other hle entry ⟨-, rfl⟩
    simpa using hlive other hle

theorem liveEntries_getElem? {index : Nat} {entry : Entry} :
    (liveEntries disk m)[index]? = some entry ↔ index < searchEnd m ∧ rdEntry disk m index = entry ∧
      ∀ other, other ≤ index → (rdEntry disk m other).parentId ≠ 0 := usedEntries_getElem?

theorem find_eq_some_iff {found : Nat} : find disk m name parent type = some found ↔
    found < searchEnd m ∧ (∀ other, other ≤ found → (rdEntry disk m other).parentId ≠ 0) ∧
      Matches disk m name parent type found ∧
      ∀ other, other < found → ¬ Matches disk m name parent type other := by
  have hlive : ∀ {index : Nat} (h : index < (liveEntries disk m).length),
      (liveEntries disk m)[index] = rdEntry disk m index := by
    intro index h
    exact (liveEntries_getElem?.mp (List.getElem?_eq_getElem h)).2.1.symm
  unfold find
  rw [List.findIdx?_eq_some_iff_getElem]
  constructor
  · rintro ⟨hlt, hmatch, hfirst⟩
    obtain ⟨hend, -, hused⟩ := liveEntries_getElem?.mp (List.getElem?_eq_getElem hlt)
    refine ⟨hend, hused, ?_, ?_⟩
    · rw [hlive] at hmatch
      exact of_decide_eq_true hmatch
    · intro other hother hmatches
      have hnot := hfirst other hother
      rw [hlive] at hnot
      exact hnot (decide_eq_true hmatches)
  · rintro ⟨hend, hused, hmatch, hfirst⟩
    have hlt := (List.getElem?_eq_some_iff.mp (liveEntries_getElem?.mpr ⟨hend, rfl, hused⟩)).1
    refine ⟨hlt, ?_, ?_⟩
    · rw [hlive]
      exact decide_eq_true hmatch
    · intro other hother hmatches
      rw [hlive] at hmatches
      exact hfirst other hother (of_decide_eq_true hmatches)

-- The loop of search finds the first entry that matches.
theorem search_eq_find (disk : Store) (m : Mount) (name : CString) (parent : Nat) (type : UInt8) :
    search disk m name parent type = find disk m name parent type := by
  refine Option.ext fun found => ?_
  rw [search_eq_some_iff, find_eq_some_iff]

-- The first component begins with what is read of it.
theorem first_part (hname : 47 ∉ name) (text : CString) : ∃ part rest,
    (name ++ text).splitOn 47 = part :: rest ∧ name.length ≤ part.length := by
  induction text generalizing name with
  | nil => exact ⟨name, [], by rw [List.append_nil, List.splitOn_eq_singleton hname], Nat.le_refl _⟩
  | cons char text ih =>
      by_cases hslash : char = 47
      · rw [hslash, List.splitOn_append_cons_self_of_not_mem hname]
        exact ⟨name, _, rfl, Nat.le_refl _⟩
      · obtain ⟨part, rest, hsplit, hle⟩ := @ih (name ++ [char]) (not_mem_snoc hname hslash)
        rw [List.append_assoc, List.singleton_append] at hsplit
        rw [List.length_append] at hle
        exact ⟨part, rest, hsplit, by omega⟩

theorem copied_subset {names : List CString} {part : CString} (hpart : part ∈ copied disk m start names) :
    part ∈ names := by
  induction names generalizing start with
  | nil => exact hpart
  | cons name names ih =>
      rw [copied] at hpart
      rcases List.mem_cons.mp hpart with rfl | hrest
      · exact List.mem_cons_self
      · cases hfind : find disk m name start.payload DIRECTORY_TYPE with
        | none =>
            rw [hfind] at hrest
            exact absurd hrest List.not_mem_nil
        | some i =>
            rw [hfind] at hrest
            exact List.mem_cons_of_mem _ (ih hrest)

-- The scan gets to the end exactly when each component that it copies fits the array.
theorem resolveText_isSome_iff (hname : 47 ∉ name) :
    (resolveText disk m type start name text).isSome = true ↔
      ∀ part ∈ copied disk m start ((name ++ text).splitOn 47), part.length < FILENAME_LEN := by
  induction text generalizing start name with
  | nil =>
      have hcopied : copied disk m start ((name ++ []).splitOn 47) = [name] := by
        rw [List.append_nil, List.splitOn_eq_singleton hname, copied]
        split <;> rfl
      rw [hcopied, resolveText]
      simp
  | cons char text ih =>
      rw [resolveText]
      by_cases hroom : name.length < FILENAME_LEN
      · rw [if_pos hroom]
        by_cases hslash : char = 47
        · rw [if_pos hslash, hslash, List.splitOn_append_cons_self_of_not_mem hname, copied,
            search_eq_find, List.forall_mem_cons]
          cases find disk m name start.payload DIRECTORY_TYPE with
          | none => simp [hroom]
          | some i => simpa [hroom] using ih List.not_mem_nil
        · rw [if_neg hslash, ih (not_mem_snoc hname hslash), List.append_assoc, List.singleton_append]
      · rw [if_neg hroom]
        obtain ⟨part, rest, hsplit, hle⟩ := first_part hname (char :: text)
        rw [hsplit, copied, List.forall_mem_cons]
        simp only [Option.isSome_none, Bool.false_eq_true, false_iff, not_and]
        omega

theorem resolveText_eq {result : PathResult}
    (hresult : resolveText disk m type start name text = some result) :
    result = resolveFrom disk m type start name text := by
  induction text generalizing start name with
  | nil =>
      rw [resolveText] at hresult
      rw [resolveFrom]
      split at hresult
      · exact (Option.some.inj hresult).symm
      · cases hresult
  | cons char text ih =>
      rw [resolveText] at hresult
      rw [resolveFrom]
      split at hresult
      · by_cases hslash : char = 47
        · rw [if_pos hslash] at hresult ⊢
          cases hsearch : search disk m name start.payload DIRECTORY_TYPE with
          | none =>
              rw [hsearch] at hresult
              exact (Option.some.inj hresult).symm
          | some i =>
              rw [hsearch] at hresult
              exact ih hresult
        · rw [if_neg hslash] at hresult ⊢
          exact ih hresult
      · cases hresult

-- The walk is that of the rest from the first component.
theorem walks_cons {names : List CString} (hne : names ≠ []) {result : PathResult} :
    Walks disk m type start (name :: names) result ↔
      match find disk m name start.payload DIRECTORY_TYPE with
      | none => result.failure = true
      | some i => Walks disk m type (rdEntry disk m i) names result := by
  obtain ⟨part, rest, rfl⟩ := List.exists_cons_of_ne_nil hne
  unfold Walks
  simp only [List.dropLast_cons_of_ne_nil hne, reach, List.getLastD_cons]
  cases find disk m name start.payload DIRECTORY_TYPE with
  | none => exact Iff.rfl
  | some i => exact Iff.rfl

-- One component after the other is a directory below the last one, up to the one at the end.
theorem resolveFrom_walks (hname : 47 ∉ name) :
    Walks disk m type start ((name ++ text).splitOn 47) (resolveFrom disk m type start name text) := by
  induction text generalizing start name with
  | nil =>
      rw [List.append_nil, List.splitOn_eq_singleton hname, resolveFrom, resolveLast, search_eq_find]
      unfold Walks
      simp only [List.dropLast_singleton, reach, List.getLastD_cons, List.getLastD_nil]
      cases find disk m name start.payload type with
      | none => exact ⟨rfl, rfl, rfl, rfl⟩
      | some i => exact ⟨rfl, rfl, rfl, rfl, rfl, rfl⟩
  | cons char text ih =>
      rw [resolveFrom]
      by_cases hslash : char = 47
      · rw [if_pos hslash, hslash, List.splitOn_append_cons_self_of_not_mem hname, search_eq_find,
          walks_cons (List.splitOn_ne_nil 47 text)]
        cases find disk m name start.payload DIRECTORY_TYPE with
        | none => rfl
        | some i => exact ih List.not_mem_nil
      · have hnext := @ih start (name ++ [char]) (not_mem_snoc hname hslash)
        rw [List.append_assoc, List.singleton_append] at hnext
        rw [if_neg hslash]
        exact hnext

theorem namesFit_lt {count : Nat} (hfits : NamesFit count text) : count < FILENAME_LEN := by
  induction text generalizing count with
  | nil => exact hfits
  | cons char text ih =>
      rw [NamesFit] at hfits
      split at hfits
      · exact hfits.1
      · have hlt := ih hfits
        omega

theorem resolveText_of_namesFit (hfits : NamesFit name.length text) :
    resolveText disk m type start name text = some (resolveFrom disk m type start name text) := by
  induction text generalizing start name with
  | nil => rw [resolveText, if_pos (namesFit_lt hfits), resolveFrom]
  | cons char text ih =>
      rw [resolveText, if_pos (namesFit_lt hfits), resolveFrom]
      rw [NamesFit] at hfits
      by_cases hslash : char = 47
      · rw [if_pos hslash] at hfits
        rw [if_pos hslash, if_pos hslash]
        cases search disk m name start.payload DIRECTORY_TYPE with
        | none => rfl
        | some i => exact ih hfits.2
      · rw [if_neg hslash] at hfits
        rw [if_neg hslash, if_neg hslash]
        refine ih ?_
        rw [List.length_append]
        exact hfits

theorem pathResolverText_of_not_root (hroot : text ≠ [47]) :
    pathResolverText disk m text type =
      resolveText disk m type { payload := ROOT_ID } [] (skipSlash text) := by
  rw [pathResolverText, if_neg fun h => hroot h.2, if_neg fun h => hroot h.2]

-- The paths of the driver fit.
theorem pathResolverText_path (disk : Store) (m : Mount) (path : Path) (type : UInt8) :
    pathResolverText disk m path.text type = some (pathResolver disk m path type) := by
  unfold pathResolverText pathResolver
  split
  · rfl
  split
  · rfl
  · exact resolveText_of_namesFit path.names

-- Every path that fits the array is resolved by the walk.
theorem path_resolver_walks (disk : Store) (m : Mount) (type : UInt8) (text : CString)
    (hroot : text ≠ [47]) (hshort : ∀ part ∈ parts text, part.length < FILENAME_LEN) :
    ∃ result, pathResolverText disk m text type = some result ∧
      Walks disk m type { payload := ROOT_ID } (parts text) result := by
  rw [pathResolverText_of_not_root hroot]
  have hsome := (@resolveText_isSome_iff disk m type { payload := ROOT_ID } [] (skipSlash text)
    List.not_mem_nil).mpr ?_
  · obtain ⟨result, hresult⟩ := Option.isSome_iff_exists.mp hsome
    refine ⟨result, hresult, ?_⟩
    rw [resolveText_eq hresult]
    exact @resolveFrom_walks disk m type { payload := ROOT_ID } [] (skipSlash text) List.not_mem_nil
  · intro part hpart
    exact hshort part (copied_subset hpart)

-- The directory /x, and in it the file y.
def nestedDisk : Store :=
  wrEntry (wrEntry (fun _ => 0) smallMount 0
      { parentId := ROOT_ID, type := DIRECTORY_TYPE, name := [120], payload := 1 })
    smallMount 1 { parentId := 1, type := FILE_TYPE, name := [121], payload := END_OF_CHAIN }

theorem path_resolver_walks_nested :
    ∃ result, pathResolverText nestedDisk smallMount [47, 120, 47, 121] FILE_TYPE = some result ∧
      Walks nestedDisk smallMount FILE_TYPE { payload := ROOT_ID } (parts [47, 120, 47, 121]) result ∧
      result.targetEntry = 1 ∧ result.notFound = false := by
  obtain ⟨result, hresult, hwalks⟩ :=
    path_resolver_walks nestedDisk smallMount FILE_TYPE [47, 120, 47, 121] (by decide) (by decide)
  have hfound : (pathResolverText nestedDisk smallMount [47, 120, 47, 121] FILE_TYPE).map
      (fun result => (result.targetEntry, result.notFound)) = some (1, false) := by
    decide +kernel
  rw [hresult] at hfound
  obtain ⟨htarget, hnotFound⟩ := Prod.mk.inj (Option.some.inj hfound)
  exact ⟨result, hresult, hwalks, htarget, hnotFound⟩

end EchidnaOS.Echfs
