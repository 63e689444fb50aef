import EchidnaOS.Echfs.Driver.Lookup

namespace EchidnaOS.Echfs

open EchidnaOS.Lib.ByteStore

-- The id of the directory a list of names leads to.
def walk (disk : Store) (m : Mount) : Nat → List CString → Option Nat
  | parent, [] => some parent
  | parent, name :: names =>
      (search disk m name parent DIRECTORY_TYPE).bind fun i =>
        walk disk m (rdEntry disk m i).payload names

-- The components of a path before its last one.
def intermediates (path : Path) : List CString := ((skipSlash path.text).splitOn 47).dropLast

-- Every intermediate component is a directory.
def ParentExists (disk : Store) (m : Mount) (path : Path) : Prop :=
  (walk disk m ROOT_ID (intermediates path)).isSome = true

instance decidableParentExists (disk : Store) (m : Mount) (path : Path) :
    Decidable (ParentExists disk m path) :=
  inferInstanceAs (Decidable (_ = true))

-- A removal that is turned down and leaves the device alone.
def RemovesNothing (v : Volume) (m : Mount) (path : Path) : Prop :=
  ∃ next, echfsRemove v m path = some (FAILURE, next) ∧ next.disk = v.disk

-- echfs_mkdir with what it returns.
def echfsMkdirCode (disk : Store) (m : Mount) (path : Path) : Option (Int × Store) :=
  (echfsMkdir disk m path).map fun after => (SUCCESS, after)

-- A directory that is not made: every entry and every path is as it was.
def MkdirRefused (disk : Store) (m : Mount) (path : Path) : Prop :=
  ∃ after, echfsMkdirCode disk m path = some (FAILURE, after) ∧
    (∀ index, index < capacity m → rdEntry after m index = rdEntry disk m index) ∧
    ∀ other type, Resolves disk m other type →
      pathResolver after m other type = pathResolver disk m other type

variable {disk after : Store} {m : Mount} {name text : CString} {type : UInt8} {start : Entry}
  {path : Path} {v : Volume} {slot : Nat}

-- path_resolver reports a failure when one of the names before the last is no directory.
theorem resolveFrom_failure (hname : 47 ∉ name) :
    (resolveFrom disk m type start name text).failure = true ↔
      walk disk m start.payload ((name ++ text).splitOn 47).dropLast = none := by
  induction text generalizing start name with
  | nil =>
      have hlast : (resolveFrom disk m type start name []).failure = false := by
        unfold resolveFrom resolveLast
        split
        · rfl
        · rfl
      simp [hlast, List.splitOn_eq_singleton hname, walk]
  | cons char text ih =>
      unfold resolveFrom
      by_cases hslash : char = 47
      · have hrest : (text.splitOn 47) ≠ [] := List.splitOn_ne_nil 47 text
        rw [if_pos hslash, hslash, List.splitOn_append_cons_self_of_not_mem hname,
          List.dropLast_cons_of_ne_nil hrest, walk]
        cases hsearch : search disk m name start.payload DIRECTORY_TYPE with
        | none => simp
        | some found => simpa using ih List.not_mem_nil
      · have hnext : 47 ∉ name ++ [char] := by
          simp only [List.mem_append, List.mem_singleton, not_or]
          exact ⟨hname, Ne.symm hslash⟩
        have hsplit := @ih (name ++ [char]) start hnext
        rw [List.append_assoc, List.singleton_append] at hsplit
        rw [if_neg hslash]
        exact hsplit

theorem parentExists_iff :
    ParentExists disk m path ↔
      (resolveFrom disk m type { payload := ROOT_ID } [] (skipSlash path.text)).failure = false := by
  have hfailure := @resolveFrom_failure disk m [] (skipSlash path.text) type { payload := ROOT_ID }
    List.not_mem_nil
  rw [List.nil_append] at hfailure
  unfold ParentExists intermediates
  rw [← Bool.not_eq_true, hfailure, Option.isSome_iff_ne_none]

theorem pathResolver_failure_file :
    (pathResolver disk m path FILE_TYPE).failure = false ↔
      path.text ≠ [47] ∧ ParentExists disk m path := by
  rw [parentExists_iff]
  constructor
  · intro hfailure
    obtain ⟨hroot, hresolved⟩ := pathResolver_notRoot hfailure
    rw [hresolved] at hfailure
    exact ⟨hroot, hfailure⟩
  · rintro ⟨hroot, hfailure⟩
    rw [pathResolver, if_neg (fun h => hroot h.2), if_neg (fun h => hroot h.2)]
    exact hfailure

-- A path with a missing parent is not the root, which has no parent to miss.
theorem pathResolver_missing_parent (hmissing : ¬ParentExists disk m path) :
    pathResolver disk m path DIRECTORY_TYPE =
      resolveFrom disk m DIRECTORY_TYPE { payload := ROOT_ID } [] (skipSlash path.text) ∧
    (pathResolver disk m path DIRECTORY_TYPE).failure = true := by
  have hroot : path.text ≠ [47] := by
    intro hslash
    apply hmissing
    unfold ParentExists intermediates
    rw [hslash]
    rfl
  have hresolved : pathResolver disk m path DIRECTORY_TYPE =
      resolveFrom disk m DIRECTORY_TYPE { payload := ROOT_ID } [] (skipSlash path.text) := by
    rw [pathResolver, if_neg (fun h => hroot h.2), if_neg (fun h => hroot h.2)]
  refine ⟨hresolved, ?_⟩
  rw [hresolved]
  rw [parentExists_iff] at hmissing
  simpa using hmissing

-- The result of a failure holds nothing else.
theorem resolveFrom_failed (hfailure : (resolveFrom disk m type start name text).failure = true) :
    resolveFrom disk m type start name text = { failure := true } := by
  rcases resolveFrom_cases disk m type start name text with hfailed | ⟨parent, last, hlast, -⟩
  · exact hfailed
  · rw [hlast, resolveLast_failure] at hfailure
    cases hfailure

theorem pathResolver_failed (hfailure : (pathResolver disk m path type).failure = true) :
    pathResolver disk m path type = { failure := true } := by
  unfold pathResolver at hfailure ⊢
  split at hfailure
  · cases hfailure
  · rename_i hroot
    rw [if_neg hroot]
    split at hfailure
    · rename_i hfile
      rw [if_pos hfile]
    · rename_i hfile
      rw [if_neg hfile]
      exact resolveFrom_failed hfailure

-- A removal that failed to resolve goes on with a target of zeros: it returns success, if
-- ever, and has deleted the first entry of the table.
theorem remove_failed (hrecord : v.record path = none)
    (hfailure : (pathResolver v.disk m path FILE_TYPE).failure = true) {code : Int} {next : Volume}
    (hrun : echfsRemove v m path = some (code, next)) :
    code = SUCCESS ∧ rdEntry next.disk m 0 = deletedEntry := by
  unfold echfsRemove Volume.removal at hrun
  rw [hrecord] at hrun
  simp only [pathResolver_failed hfailure] at hrun
  unfold removeResolved at hrun
  rw [if_neg Bool.false_ne_true] at hrun
  cases hfreed : freeChain m (2 ^ 61 + 1) v.disk 0 with
  | none =>
      rw [hfreed] at hrun
      cases hrun
  | some freed =>
      rw [hfreed] at hrun
      cases hrun
      exact ⟨rfl, rdEntry_wrEntry freed m 0 deletedEntry_fits⟩

theorem remove_unresolved_iff (hrecord : v.record path = none)
    (hunresolved : (pathResolver v.disk m path FILE_TYPE).failure = true ∨
      (pathResolver v.disk m path FILE_TYPE).notFound = true) :
    RemovesNothing v m path ↔ path.text ≠ [47] ∧ ParentExists v.disk m path := by
  rw [← pathResolver_failure_file]
  constructor
  · rintro ⟨next, hrun, -⟩
    by_contra hfailure
    have hdeleted := remove_failed hrecord (by simpa using hfailure) hrun
    exact absurd hdeleted.1 (by decide)
  · intro hfailure
    have hmissing : (pathResolver v.disk m path FILE_TYPE).notFound = true := by
      rcases hunresolved with hfailed | hmissing
      · rw [hfailure] at hfailed
        cases hfailed
      · exact hmissing
    unfold RemovesNothing echfsRemove Volume.removal
    rw [hrecord, removeResolved, if_pos hmissing]
    exact ⟨_, rfl, rfl⟩

-- The image with the file /a, of which nothing is cached.
def smallVolume : Volume := { disk := smallDisk }

theorem smallVolume_wellFormed : WellFormed smallMount smallVolume.disk [emptyFile] fun _ => [] := by
  simp only [smallVolume]
  exact smallDisk_wellFormed

-- /b only lacks its last component.
theorem remove_missing_file : RemovesNothing smallVolume smallMount (rootPath 98 (by decide)) :=
  (remove_unresolved_iff rfl (Or.inr (by decide +kernel))).mpr ⟨by decide, by decide +kernel⟩

-- /x/y
def pathXY : Path where
  text := [47, 120, 47, 121]
  ends := by simp
  length_lt := by decide
  names := by decide

-- There is no directory /x, and the file /a is gone.
theorem remove_under_missing_parent :
    WellFormed smallMount smallVolume.disk [emptyFile] (fun _ => []) ∧
    smallVolume.record pathXY = none ∧
    (pathResolver smallVolume.disk smallMount pathXY FILE_TYPE).failure = true ∧
    ¬RemovesNothing smallVolume smallMount pathXY ∧
    ∃ next, echfsRemove smallVolume smallMount pathXY = some (SUCCESS, next) ∧
      rdEntry next.disk smallMount 0 = deletedEntry := by
  have hrecord : smallVolume.record pathXY = none := rfl
  have hfailure : (pathResolver smallVolume.disk smallMount pathXY FILE_TYPE).failure = true := by
    decide +kernel
  have hruns : (echfsRemove smallVolume smallMount pathXY).isSome = true := by decide +kernel
  obtain ⟨⟨code, next⟩, hrun⟩ := Option.isSome_iff_exists.mp hruns
  obtain ⟨rfl, hdeleted⟩ := remove_failed hrecord hfailure hrun
  refine ⟨smallVolume_wellFormed, hrecord, hfailure, ?_, next, hrun, hdeleted⟩
  rintro ⟨other, hother, -⟩
  have hcode : SUCCESS = FAILURE :=
    congrArg Prod.fst (Option.some.inj (hrun.symm.trans hother))
  exact absurd hcode (by decide)

-- What echfs_mkdir writes under a missing parent: a slot that reads as the end of the table.
theorem freeIdFrom_lt {fuel index id found : Nat} (hid : id < 2 ^ 64)
    (hfound : freeIdFrom disk m fuel index id = some found) : found < 2 ^ 64 := by
  induction fuel generalizing index id with
  | zero => cases hfound
  | succ fuel ih =>
      unfold freeIdFrom at hfound
      dsimp only at hfound
      split at hfound
      · cases hfound
        exact hid
      · split at hfound
        · exact ih (Nat.mod_lt _ (Nat.two_pow_pos 64)) hfound
        · exact ih hid hfound

theorem mkdir_ends_table (hmissing : ¬ParentExists disk m path)
    (hrun : echfsMkdir disk m path = some after) :
    ∃ slot, findEmpty disk m = some slot ∧ (rdEntry after m slot).parentId = 0 := by
  obtain ⟨-, hfailure⟩ := pathResolver_missing_parent hmissing
  unfold echfsMkdir addEntry at hrun
  rw [pathResolver_failed hfailure] at hrun
  cases hid : getFreeId disk m with
  | none =>
      rw [hid] at hrun
      cases hrun
  | some id =>
      rw [hid] at hrun
      cases hslot : findEmpty disk m with
      | none =>
          rw [hslot] at hrun
          cases hrun
      | some slot =>
          rw [hslot] at hrun
          have hlt : id < 2 ^ 64 := freeIdFrom_lt (show 1 < 2 ^ 64 by decide) hid
          have hfits : Entry.Fits
              { parentId := 0, type := DIRECTORY_TYPE, name := [], payload := id } :=
            ⟨Nat.two_pow_pos 64, hlt, Nat.two_pow_pos 64, show 0 < FILENAME_LEN by decide, by simp⟩
          refine ⟨slot, rfl, ?_⟩
          cases hrun
          exact congrArg Entry.parentId (rdEntry_wrEntry disk m slot hfits)

-- A path that resolves ends at an entry in front of the first free slot.
theorem resolveFrom_before (hfailure : (resolveFrom disk m type start name text).failure = false)
    (hfound : (resolveFrom disk m type start name text).notFound = false)
    (hslot : (rdEntry disk m slot).parentId = 0) :
    (resolveFrom disk m type start name text).targetEntry < slot := by
  obtain ⟨last, within, hsearch, -⟩ := resolveFrom_found hfailure hfound
  obtain ⟨-, hused, -⟩ := search_eq_some_iff.mp hsearch
  by_contra hbehind
  exact hused slot (Nat.not_lt.mp hbehind) hslot

theorem pathResolver_before {other : Path} (hroot : other.text ≠ [47])
    (hresolves : Resolves disk m other type) (hslot : (rdEntry disk m slot).parentId = 0) :
    (pathResolver disk m other type).targetEntry < slot := by
  obtain ⟨hfailure, hfound⟩ := hresolves
  unfold pathResolver at hfailure hfound ⊢
  rw [if_neg (fun h => hroot h.2), if_neg (fun h => hroot h.2)] at hfailure hfound ⊢
  exact resolveFrom_before hfailure hfound hslot

-- Under a missing parent echfs_mkdir never fails. Whenever it returns, the first free slot
-- has become the end of the table and no path leads to an entry behind it.
theorem mkdir_missing_parent (hmissing : ¬ParentExists disk m path) :
    ¬MkdirRefused disk m path ∧
    ∀ code after, echfsMkdirCode disk m path = some (code, after) →
      code = SUCCESS ∧ ∃ slot, findEmpty disk m = some slot ∧
        ∀ other type, other.text ≠ [47] → Resolves after m other type →
          (pathResolver after m other type).targetEntry < slot := by
  have hcode : ∀ code after, echfsMkdirCode disk m path = some (code, after) →
      code = SUCCESS ∧ echfsMkdir disk m path = some after := by
    intro code after hrun
    obtain ⟨final, hfinal, hpair⟩ := Option.map_eq_some_iff.mp hrun
    obtain ⟨rfl, rfl⟩ := Prod.mk.inj hpair
    exact ⟨rfl, hfinal⟩
  constructor
  · rintro ⟨after, hrun, -⟩
    exact absurd (hcode FAILURE after hrun).1 (by decide)
  · intro code after hrun
    obtain ⟨hsuccess, hmade⟩ := hcode code after hrun
    obtain ⟨slot, hslot, hend⟩ := mkdir_ends_table hmissing hmade
    refine ⟨hsuccess, slot, hslot, ?_⟩
    intro other type hroot hresolves
    exact pathResolver_before hroot hresolves hend

theorem mkdir_under_x :
    ¬MkdirRefused smallDisk smallMount pathXY ∧
    ∀ code after, echfsMkdirCode smallDisk smallMount pathXY = some (code, after) →
      code = SUCCESS ∧ ∃ slot, findEmpty smallDisk smallMount = some slot ∧
        ∀ other type, other.text ≠ [47] → Resolves after smallMount other type →
          (pathResolver after smallMount other type).targetEntry < slot :=
  mkdir_missing_parent (by decide +kernel)

-- The image with the file /b in the second slot; the file of the first one is deleted.
def deletedFirst : Store := wrEntry twoFiles smallMount 0 deletedEntry

theorem deletedFirst_wellFormed :
    WellFormed smallMount deletedFirst [deletedEntry, fileB] fun _ => [] := by
  have hindex : 0 < [emptyFile, fileB].length := by decide
  have htable := twoFiles_table.set smallMount_fits hindex deletedEntry_fits (by decide)
  refine ⟨smallMount_geometry, htable, by decide +kernel, ?_, ?_⟩
  · intro index hindex hfile
    have hlength : ([] : List Nat).length = blockCount fileB.size := by decide
    have hentry : [deletedEntry, fileB][index] = fileB := by
      have hcases : index = 0 ∨ index = 1 := by simp at hindex; omega
      rcases hcases with rfl | rfl
      · exact absurd rfl hfile.2
      · rfl
    rw [hentry]
    exact ⟨fun _ h => absurd h List.not_mem_nil, rfl, List.nodup_nil, hlength⟩
  · intro first second _ _ _ _ _
    exact List.disjoint_nil_left []

-- /b is there before mkdir /x/y and cannot be found after it.
theorem mkdir_hides_file :
    WellFormed smallMount deletedFirst [deletedEntry, fileB] (fun _ => []) ∧
    ¬ParentExists deletedFirst smallMount pathXY ∧
    ¬MkdirRefused deletedFirst smallMount pathXY ∧
    Resolves deletedFirst smallMount (rootPath 98 (by decide)) FILE_TYPE ∧
    ∃ after, echfsMkdirCode deletedFirst smallMount pathXY = some (SUCCESS, after) ∧
      ¬Resolves after smallMount (rootPath 98 (by decide)) FILE_TYPE := by
  have hmissing : ¬ParentExists deletedFirst smallMount pathXY := by decide +kernel
  have hgone : ((echfsMkdir deletedFirst smallMount pathXY).any fun after =>
      (pathResolver after smallMount (rootPath 98 (by decide)) FILE_TYPE).notFound) = true := by
    decide +kernel
  have hresolves : Resolves deletedFirst smallMount (rootPath 98 (by decide)) FILE_TYPE := by
    constructor <;> decide +kernel
  cases hrun : echfsMkdir deletedFirst smallMount pathXY with
  | none =>
      rw [hrun] at hgone
      cases hgone
  | some after =>
      rw [hrun, Option.any_some] at hgone
      have hcall : echfsMkdirCode deletedFirst smallMount pathXY = some (SUCCESS, after) := by
        rw [echfsMkdirCode, hrun, Option.map_some]
      refine ⟨deletedFirst_wellFormed, hmissing, ?_, hresolves, after, hcall, ?_⟩
      · rintro ⟨other, hother, -⟩
        have hcode : SUCCESS = FAILURE :=
          congrArg Prod.fst (Option.some.inj (hcall.symm.trans hother))
        exact absurd hcode (by decide)
      · rintro ⟨-, hfound⟩
        rw [hgone] at hfound
        cases hfound

end EchidnaOS.Echfs
