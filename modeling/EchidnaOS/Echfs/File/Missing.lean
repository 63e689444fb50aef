import EchidnaOS.Echfs.Directory.Unresolved

namespace EchidnaOS.Echfs

open EchidnaOS.Lib.ByteStore

-- A path that is not there is neither read nor written.
structure RefusesMissing (v : Volume) (m : Mount) (path : Path) (loc : Nat) : Prop where
  read : ∃ next, echfsRead v m path loc = some (FAILURE, next) ∧ next.disk = v.disk
  write : ∀ val, ∃ next, echfsWrite v m path val loc = some (FAILURE, next) ∧ next.disk = v.disk

-- The volume after one of the two calls.
def Asked (v : Volume) (m : Mount) (path : Path) (loc : Nat) (next : Volume) : Prop :=
  (∃ code, echfsRead v m path loc = some (code, next)) ∨
    ∃ val code, echfsWrite v m path val loc = some (code, next)

-- A file that is created after such a call takes a byte and gives it back.
def ReadsBackCreated (v : Volume) (m : Mount) (path : Path) (loc : Nat) : Prop :=
  ∀ next, Asked v m path loc next → ∀ disk, echfsCreate next.disk m path = some (some disk) →
    ∀ later val, ∃ code wrote, echfsWrite { next with disk := disk } m path val later = some (code, wrote) ∧
      ∃ last, echfsRead wrote m path later = some ((val.toNat : Int), last)

-- The chain that begins with a block comes to its end.
def ChainEnds (disk : Store) (m : Mount) (block : Nat) : Prop :=
  (allocMapFrom disk m CHAIN_LOOP block).isSome = true

-- The paths that are missing and handled well: path_resolver has not failed for them, the chain of
-- the block 0 ends, and echfs_create finds no slot anywhere.
def MissingHandled (v : Volume) (m : Mount) (path : Path) : Prop :=
  match v.record path with
  | some file =>
      file.pathResult.notFound = true ∧
        (path.text = [47] ∨ ¬ ParentExists v.disk m path ∨ findEmpty v.disk m = none)
  | none =>
      path.text ≠ [47] ∧ ParentExists v.disk m path ∧ ChainEnds v.disk m 0 ∧ findEmpty v.disk m = none

def Unresolved (disk : Store) (m : Mount) (path : Path) : Prop :=
  (pathResolver disk m path FILE_TYPE).failure = true ∨
    (pathResolver disk m path FILE_TYPE).notFound = true

variable {v next : Volume} {m : Mount} {path : Path} {loc slot fuel block : Nat} {file : CachedFile}
  {disk : Store} {type : UInt8} {start : Entry} {name text : CString} {entries : List Entry}

-- What is looked up without success has no target.
theorem resolveFrom_notFound (hmissing : (resolveFrom disk m type start name text).notFound = true) :
    (resolveFrom disk m type start name text).failure = false ∧
      (resolveFrom disk m type start name text).target.payload = 0 := by
  rcases resolveFrom_cases disk m type start name text with hfailed | ⟨parent, last, hlast, -⟩
  · rw [hfailed] at hmissing
    cases hmissing
  · rw [hlast] at hmissing ⊢
    rcases resolveLast_cases disk m type parent last with ⟨-, heq⟩ | ⟨found, -, heq⟩
    · rw [heq]
      exact ⟨rfl, rfl⟩
    · rw [heq] at hmissing
      cases hmissing

theorem pathResolver_notFound (hmissing : (pathResolver disk m path FILE_TYPE).notFound = true) :
    (pathResolver disk m path FILE_TYPE).failure = false ∧
      (pathResolver disk m path FILE_TYPE).target.payload = 0 := by
  unfold pathResolver at hmissing ⊢
  rw [if_neg fun h => absurd h.1 (by decide)] at hmissing ⊢
  split at hmissing
  · cases hmissing
  · rename_i hroot
    rw [if_neg hroot]
    exact resolveFrom_notFound hmissing

-- Of a path that is not resolved, either flag is set.
theorem Unresolved.notFound_iff (hunresolved : Unresolved disk m path) :
    (pathResolver disk m path FILE_TYPE).notFound = true ↔
      path.text ≠ [47] ∧ ParentExists disk m path := by
  rw [← pathResolver_failure_file]
  constructor
  · exact fun hmissing => (pathResolver_notFound hmissing).1
  · intro hparent
    refine hunresolved.resolve_left ?_
    rw [hparent]
    exact Bool.false_ne_true

theorem cacheFile_disk (hcache : cacheFile v m path = some (slot, file, next)) : next.disk = v.disk := by
  unfold cacheFile at hcache
  split at hcache
  · obtain ⟨other, -, hpair⟩ := Option.map_eq_some_iff.mp hcache
    rw [← (Prod.mk.inj (Prod.mk.inj hpair).2).2]
  · obtain ⟨other, -, hpair⟩ := Option.map_eq_some_iff.mp hcache
    rw [← (Prod.mk.inj (Prod.mk.inj hpair).2).2]

-- What a lookup has put in the cache is found there by every later call.
theorem cacheFile_again (hcache : cacheFile v m path = some (slot, file, next)) (disk : Store) :
    cacheFile { next with disk := disk } m path = some (slot, file, { next with disk := disk }) := by
  unfold cacheFile at hcache
  cases hfound : findCached v.cachedFiles path with
  | some index =>
      rw [hfound] at hcache
      obtain ⟨other, hother, hpair⟩ := Option.map_eq_some_iff.mp hcache
      obtain ⟨rfl, hrest⟩ := Prod.mk.inj hpair
      obtain ⟨rfl, rfl⟩ := Prod.mk.inj hrest
      unfold cacheFile
      dsimp only
      rw [hfound]
      dsimp only
      rw [hother, Option.map_some]
  | none =>
      rw [hfound] at hcache
      obtain ⟨other, hother, hpair⟩ := Option.map_eq_some_iff.mp hcache
      obtain ⟨rfl, hrest⟩ := Prod.mk.inj hpair
      obtain ⟨rfl, rfl⟩ := Prod.mk.inj hrest
      have hpath : other.path = path := by
        obtain ⟨allocMap, -, rfl⟩ := Option.map_eq_some_iff.mp hother
        rfl
      have hnew : findCached (v.cachedFiles ++ [other]) path = some v.cachedFiles.length := by
        unfold findCached at hfound ⊢
        rw [List.findIdx?_append, hfound]
        simp [hpath]
      unfold cacheFile
      dsimp only
      rw [hnew]
      dsimp only
      rw [List.getElem?_append_right (Nat.le_refl _), Nat.sub_self]
      rfl

-- A read fails only when the record of the path says that it was not found.
theorem echfsRead_failure (hread : echfsRead v m path loc = some (FAILURE, next)) :
    ∃ slot file next, cacheFile v m path = some (slot, file, next) ∧ file.pathResult.notFound = true := by
  unfold echfsRead at hread
  obtain ⟨⟨slot, file, cached⟩, hcache, hcall⟩ := Option.map_eq_some_iff.mp hread
  refine ⟨slot, file, cached, hcache, ?_⟩
  dsimp only at hcall
  by_contra hfound
  rw [if_neg hfound] at hcall
  split at hcall
  · have hcode : EOF = FAILURE := congrArg Prod.fst hcall
    exact absurd hcode (by decide)
  · have hcode := congrArg Prod.fst hcall
    simp only [FAILURE] at hcode
    omega

theorem echfsRead_missing (hcache : cacheFile v m path = some (slot, file, next))
    (hmissing : file.pathResult.notFound = true) : echfsRead v m path loc = some (FAILURE, next) := by
  unfold echfsRead
  rw [hcache, Option.map_some]
  dsimp only
  rw [if_pos hmissing]

theorem echfsWrite_missing (hcache : cacheFile v m path = some (slot, file, next))
    (hmissing : file.pathResult.notFound = true) (val : UInt8) :
    echfsWrite v m path val loc = some (FAILURE, next) := by
  unfold echfsWrite
  rw [hcache, Option.bind_some]
  dsimp only
  rw [if_pos hmissing]

theorem refusesMissing_iff : RefusesMissing v m path loc ↔
    ∃ slot file next, cacheFile v m path = some (slot, file, next) ∧ file.pathResult.notFound = true := by
  constructor
  · intro hrefuses
    obtain ⟨next, hread, -⟩ := hrefuses.read
    exact echfsRead_failure hread
  · rintro ⟨slot, file, next, hcache, hmissing⟩
    have hdisk := cacheFile_disk hcache
    exact ⟨⟨next, echfsRead_missing hcache hmissing, hdisk⟩,
      fun val => ⟨next, echfsWrite_missing hcache hmissing val, hdisk⟩⟩

-- Whether the record says so, without one as path_resolver and the chain of block 0 have it.
theorem cacheFile_missing_iff (hunresolved : Unresolved v.disk m path) :
    (∃ slot file next, cacheFile v m path = some (slot, file, next) ∧ file.pathResult.notFound = true) ↔
      match v.record path with
      | some file => file.pathResult.notFound = true
      | none => path.text ≠ [47] ∧ ParentExists v.disk m path ∧ ChainEnds v.disk m 0 := by
  cases hrecord : v.record path with
  | some record =>
      obtain ⟨index, hfound, hindex⟩ := Volume.record_slot hrecord
      have hcache : cacheFile v m path = some (index, record, v) := by
        unfold cacheFile
        rw [hfound]
        dsimp only
        rw [hindex, Option.map_some]
      constructor
      · rintro ⟨slot, file, next, hother, hmissing⟩
        have hsame := Option.some.inj (hcache.symm.trans hother)
        rw [← (Prod.mk.inj (Prod.mk.inj hsame).2).1] at hmissing
        exact hmissing
      · exact fun hmissing => ⟨index, record, v, hcache, hmissing⟩
  | none =>
      have hfound : findCached v.cachedFiles path = none := by
        unfold Volume.record at hrecord
        rw [findCached, List.findIdx?_eq_none_iff]
        intro file hfile
        simpa using List.find?_eq_none.mp hrecord file hfile
      have hcache : cacheFile v m path = (newCachedFile v.disk m path).map fun file =>
          (v.cachedFiles.length, file, { v with cachedFiles := v.cachedFiles ++ [file] }) := by
        unfold cacheFile
        rw [hfound]
      rw [hcache, ← and_assoc, ← hunresolved.notFound_iff]
      unfold newCachedFile ChainEnds
      dsimp only
      constructor
      · rintro ⟨slot, file, next, hnew, hmissing⟩
        obtain ⟨other, hother, hpair⟩ := Option.map_eq_some_iff.mp hnew
        obtain ⟨allocMap, hchain, rfl⟩ := Option.map_eq_some_iff.mp hother
        rw [← (Prod.mk.inj (Prod.mk.inj hpair).2).1] at hmissing
        rw [(pathResolver_notFound hmissing).2] at hchain
        exact ⟨hmissing, by rw [hchain]; rfl⟩
      · rintro ⟨hmissing, hends⟩
        obtain ⟨allocMap, hchain⟩ := Option.isSome_iff_exists.mp hends
        rw [(pathResolver_notFound hmissing).2, hchain, Option.map_some, Option.map_some]
        exact ⟨_, _, _, rfl, hmissing⟩

-- Reading and writing change nothing in a path that they refuse but the cache.
theorem asked_missing (hcache : cacheFile v m path = some (slot, file, next))
    (hmissing : file.pathResult.notFound = true) {after : Volume} (hasked : Asked v m path loc after) :
    after = next := by
  rcases hasked with ⟨code, hread⟩ | ⟨val, code, hwrite⟩
  · rw [echfsRead_missing hcache hmissing] at hread
    exact (Prod.mk.inj (Option.some.inj hread)).2.symm
  · rw [echfsWrite_missing hcache hmissing] at hwrite
    exact (Prod.mk.inj (Option.some.inj hwrite)).2.symm

-- The record that was not found outlives the creation of the file.
theorem readsBackCreated_iff (hcache : cacheFile v m path = some (slot, file, next))
    (hmissing : file.pathResult.notFound = true) :
    ReadsBackCreated v m path loc ↔ ∀ disk, echfsCreate v.disk m path ≠ some (some disk) := by
  have hdisk := cacheFile_disk hcache
  constructor
  · intro hreads disk hcreate
    rw [← hdisk] at hcreate
    have hasked : Asked v m path loc next := Or.inl ⟨FAILURE, echfsRead_missing hcache hmissing⟩
    obtain ⟨code, wrote, hwrite, last, hread⟩ := hreads next hasked disk hcreate 0 0
    have hagain := cacheFile_again hcache disk
    rw [echfsWrite_missing hagain hmissing] at hwrite
    rw [← (Prod.mk.inj (Option.some.inj hwrite)).2, echfsRead_missing (cacheFile_again hcache disk) hmissing]
      at hread
    have hcode : FAILURE = 0 := congrArg Prod.fst (Option.some.inj hread)
    exact absurd hcode (by decide)
  · intro hnever after hasked disk hcreate
    rw [asked_missing hcache hmissing hasked, hdisk] at hcreate
    exact absurd hcreate (hnever disk)

theorem echfsCreate_never_iff : (∀ disk', echfsCreate disk m path ≠ some (some disk')) ↔
    path.text = [47] ∨ ¬ ParentExists disk m path ∨ findEmpty disk m = none := by
  have hfailure := @pathResolver_failure_file disk m path
  unfold echfsCreate addEntry
  dsimp only
  by_cases hfailed : (pathResolver disk m path FILE_TYPE).failure = true
  · rw [if_pos hfailed]
    have hnot : ¬ (path.text ≠ [47] ∧ ParentExists disk m path) := by
      rw [← hfailure, hfailed]
      exact Bool.noConfusion
    refine iff_of_true (fun after => by simp) ?_
    by_cases hroot : path.text = [47]
    · exact Or.inl hroot
    · exact Or.inr (Or.inl fun hparent => hnot ⟨hroot, hparent⟩)
  · obtain ⟨hroot, hparent⟩ := hfailure.mp (by simpa using hfailed)
    rw [if_neg hfailed]
    cases hempty : findEmpty disk m with
    | none => exact iff_of_true (fun after => by simp) (Or.inr (Or.inr rfl))
    | some slot =>
        refine iff_of_false (fun hnever => hnever _ rfl) ?_
        rintro (hslash | hmissing | hnone)
        · exact hroot hslash
        · exact hmissing hparent
        · cases hnone

-- A path that does not exist is handled as it should be exactly under the conditions of
-- `MissingHandled`.
theorem missing_path_handled_iff (v : Volume) (m : Mount) (path : Path) (loc : Nat)
    (hunresolved : Unresolved v.disk m path) :
    RefusesMissing v m path loc ∧ ReadsBackCreated v m path loc ↔ MissingHandled v m path := by
  have hcached := cacheFile_missing_iff hunresolved
  have hboth : RefusesMissing v m path loc ∧ ReadsBackCreated v m path loc ↔
      (∃ slot file next, cacheFile v m path = some (slot, file, next) ∧
        file.pathResult.notFound = true) ∧
        (path.text = [47] ∨ ¬ ParentExists v.disk m path ∨ findEmpty v.disk m = none) := by
    rw [refusesMissing_iff, ← echfsCreate_never_iff]
    refine and_congr_right fun hrefuses => ?_
    obtain ⟨slot, file, next, hcache, hmissing⟩ := hrefuses
    exact readsBackCreated_iff hcache hmissing
  rw [hboth, hcached]
  unfold MissingHandled
  cases v.record path with
  | some file => exact Iff.rfl
  | none =>
      dsimp only
      constructor
      · rintro ⟨⟨hroot, hparent, hends⟩, hnever⟩
        refine ⟨hroot, hparent, hends, ?_⟩
        exact (hnever.resolve_left hroot).resolve_left (not_not.mpr hparent)
      · rintro ⟨hroot, hparent, hends, hnone⟩
        exact ⟨⟨hroot, hparent, hends⟩, Or.inr (Or.inr hnone)⟩

-- In a directory table with a terminator there is a slot, so that no path that is not cached is
-- handled as it should be.
theorem Table.not_missingHandled (hfits : DirectoryFits m) (htable : Table m v.disk entries)
    (hrecord : v.record path = none) : ¬ MissingHandled v m path := by
  unfold MissingHandled
  rw [hrecord, htable.findEmpty hfits]
  rintro ⟨-, -, -, hnone⟩
  cases hnone

-- /b in an image with the file /a.
theorem missing_path_handled_iff_b :
    ¬ (RefusesMissing smallVolume smallMount (rootPath 98 (by decide)) 0 ∧
      ReadsBackCreated smallVolume smallMount (rootPath 98 (by decide)) 0) := by
  have hunresolved : Unresolved smallVolume.disk smallMount (rootPath 98 (by decide)) :=
    Or.inr (by decide +kernel)
  rw [missing_path_handled_iff smallVolume smallMount (rootPath 98 (by decide)) 0 hunresolved]
  exact smallVolume_wellFormed.table.not_missingHandled smallMount_fits rfl

-- A chain that stays within some blocks does not end.
theorem allocMapFrom_none {inside : Nat → Prop}
    (hstep : ∀ block, inside block → block ≠ END_OF_CHAIN ∧ inside (rdQword disk (fatLoc m block)))
    (hblock : inside block) : allocMapFrom disk m fuel block = none := by
  induction fuel generalizing block with
  | zero => rfl
  | succ fuel ih =>
      obtain ⟨hne, hnext⟩ := hstep block hblock
      rw [allocMapFrom, if_neg hne, ih hnext]
      rfl

def RESERVED_BLOCK : Nat := 0xfffffffffffffff0

-- The image with the file /a as mkfs leaves it: the reserved blocks before the allocation table
-- are zeros, and their entries in it are RESERVED_BLOCK.
def formattedTable : Store := fun address =>
  if smallMount.fatstart * BYTES_PER_BLOCK ≤ address ∧
      address < smallMount.fatstart * BYTES_PER_BLOCK + smallMount.datastart * 8 then
    if address % 8 = 0 then 0xf0 else 255
  else 0

def formatted : Store := wrEntry formattedTable smallMount 0 emptyFile

theorem formatted_wellFormed : WellFormed smallMount formatted [emptyFile] fun _ => [] := by
  have hempty : EmptyTable smallMount formattedTable := by decide +kernel
  have hlength : ([] : List Nat).length = blockCount emptyFile.size := by decide
  exact hempty.wellFormed smallMount_geometry emptyFile_fits (by decide) (by decide +kernel)
    ⟨fun _ h => absurd h List.not_mem_nil, rfl, List.nodup_nil, hlength⟩

-- Reading /b follows the entry of block 0 to the qword 128 bytes before the table, and that back
-- to block 0.
theorem missing_file_read_for_ever : WellFormed smallMount formatted [emptyFile] (fun _ => []) ∧
    (∀ block, block < smallMount.datastart → fat formatted smallMount block = RESERVED_BLOCK) ∧
    (pathResolver formatted smallMount (rootPath 98 (by decide)) FILE_TYPE).notFound = true ∧
    echfsRead { disk := formatted } smallMount (rootPath 98 (by decide)) 0 = none ∧
    ¬ (RefusesMissing { disk := formatted } smallMount (rootPath 98 (by decide)) 0 ∧
      ReadsBackCreated { disk := formatted } smallMount (rootPath 98 (by decide)) 0) := by
  have hmissing : (pathResolver formatted smallMount (rootPath 98 (by decide)) FILE_TYPE).notFound =
      true := by decide +kernel
  have hfirst : rdQword formatted (fatLoc smallMount 0) = RESERVED_BLOCK := by decide +kernel
  have hsecond : rdQword formatted (fatLoc smallMount RESERVED_BLOCK) = 0 := by decide +kernel
  have hchain : allocMapFrom formatted smallMount CHAIN_LOOP 0 = none := by
    refine @allocMapFrom_none smallMount _ 0 formatted
      (fun block => block = 0 ∨ block = RESERVED_BLOCK) ?_ (Or.inl rfl)
    rintro block (rfl | rfl)
    · exact ⟨by decide, Or.inr hfirst⟩
    · exact ⟨by decide, Or.inl hsecond⟩
  have hread : echfsRead { disk := formatted } smallMount (rootPath 98 (by decide)) 0 = none := by
    have hnew : newCachedFile formatted smallMount (rootPath 98 (by decide)) = none := by
      unfold newCachedFile
      dsimp only
      rw [(pathResolver_notFound hmissing).2, hchain]
      rfl
    have hcache : cacheFile { disk := formatted } smallMount (rootPath 98 (by decide)) = none := by
      unfold cacheFile
      rw [show findCached [] (rootPath 98 (by decide)) = none from rfl]
      dsimp only
      rw [hnew, Option.map_none]
    unfold echfsRead
    rw [hcache, Option.map_none]
  refine ⟨formatted_wellFormed, by decide +kernel, hmissing, hread, ?_⟩
  rintro ⟨hrefuses, -⟩
  obtain ⟨next, hother, -⟩ := hrefuses.read
  rw [hread] at hother
  cases hother

end EchidnaOS.Echfs
