import EchidnaOS.Vfs.CacheMemory.Live
import EchidnaOS.Echfs.Image.Write
import EchidnaOS.Klib.Heap.Objects

namespace EchidnaOS.Vfs

open EchidnaOS.Lib EchidnaOS.Lib.Run EchidnaOS.Lib.SlotTable EchidnaOS.Lib.ByteStore EchidnaOS.Klib
  EchidnaOS.Devfs EchidnaOS.Echfs

variable {mem next : Memory} {slot : Nat} {m : Mount} {device : Nat} {path : Path} {action : VolumeCall}

-- A part of a call that adds at most one file to the table.
structure Later (mem next : Memory) : Prop where
  reads : ∀ slot ∈ mem.reads, slot ∈ next.reads
  count : next.s.cachedFilesPtr ≤ mem.s.cachedFilesPtr + 1

theorem Later.same {last : Memory} (hlater : Later mem next) (hsame : SameDriver next last) :
    Later mem last := by
  constructor
  · rw [hsame.reads]
    exact hlater.reads
  · rw [hsame.count]
    exact hlater.count

theorem search_later (mem : Memory) (path : Path) :
    (∀ slot ∈ mem.reads, slot ∈ (mem.search path).reads) ∧ (mem.search path).s = mem.s := by
  unfold Memory.search
  split
  all_goals exact ⟨fun slot hmem => List.mem_append_left _ hmem, rfl⟩

theorem addCached_later {file : CachedFile} {reset : Bool}
    (hadd : mem.addCached file reset = some next) :
    next.reads = mem.reads ∧ next.s.cachedFilesPtr = mem.s.cachedFilesPtr + 1 := by
  unfold Memory.addCached at hadd
  dsimp only at hadd
  split at hadd
  · cases hadd
  · cases hadd
    exact ⟨rfl, rfl⟩

theorem cacheFile_later {reset : Bool} {result : Nat × Memory}
    (hcache : mem.cacheFile m device path reset = some result) : Later mem result.2 := by
  obtain ⟨hreads, hsame⟩ := search_later mem path
  unfold Memory.cacheFile at hcache
  split at hcache
  · cases hcache
    refine ⟨hreads, ?_⟩
    rw [hsame]
    exact Nat.le_succ _
  · obtain ⟨file, -, hcache⟩ := Option.bind_eq_some_iff.mp hcache
    obtain ⟨added, hadd, hcache⟩ := Option.bind_eq_some_iff.mp hcache
    obtain ⟨loaded, hload, rfl⟩ := Option.map_eq_some_iff.mp hcache
    obtain ⟨hkept, hcount⟩ := addCached_later hadd
    have hdriver := loadMap_same hload
    constructor
    · intro slot hmem
      apply List.mem_append_left
      rw [hdriver.reads, hkept]
      exact hreads slot hmem
    · show loaded.s.cachedFilesPtr ≤ _
      rw [hdriver.count, hcount, hsame]

theorem growDevfs_same (hgrow : mem.growDevfs = some next) : SameDriver mem next := by
  unfold Memory.growDevfs at hgrow
  split at hgrow
  · cases hgrow
    exact .refl _
  · obtain ⟨⟨new, grown⟩, hresize, rfl⟩ := Option.map_eq_some_iff.mp hgrow
    have hsame := resize_same hresize
    exact ⟨hsame.cachedFiles, hsame.count, hsame.reads⟩

theorem growEchfs_same (hgrow : mem.growEchfs = some next) : SameDriver mem next := by
  unfold Memory.growEchfs at hgrow
  split at hgrow
  · cases hgrow
    exact .refl _
  · obtain ⟨⟨new, grown⟩, hresize, rfl⟩ := Option.map_eq_some_iff.mp hgrow
    have hsame := resize_same hresize
    exact ⟨hsame.cachedFiles, hsame.count, hsame.reads⟩

theorem kopen_same {result : Int × Memory} (hopen : mem.kopen device = some result) :
    SameDriver mem result.2 := by
  obtain ⟨grown, hgrow, hopen⟩ := Option.bind_eq_some_iff.mp hopen
  have hsame := growDevfs_same hgrow
  dsimp only at hopen
  split at hopen
  · cases hopen
    exact ⟨hsame.cachedFiles, hsame.count, hsame.reads⟩
  · split at hopen
    · cases hopen
    · cases hopen
      exact ⟨hsame.cachedFiles, hsame.count, hsame.reads⟩

theorem openCached_later {flags size : Nat} {result : Int × Memory}
    (hopen : mem.openCached m device path flags size = some result) : Later mem result.2 := by
  obtain ⟨cached, hcache, hopen⟩ := Option.bind_eq_some_iff.mp hopen
  obtain ⟨opened, hkopen, hopen⟩ := Option.bind_eq_some_iff.mp hopen
  obtain ⟨grown, hgrow, rfl⟩ := Option.map_eq_some_iff.mp hopen
  have hsame := (kopen_same hkopen).trans (growEchfs_same hgrow)
  exact (cacheFile_later hcache).same ⟨hsame.cachedFiles, hsame.count, hsame.reads⟩

theorem count_of_heap (mem : Memory) (heap : Heap) (live : List Nat) :
    (Memory.s { mem with s.kernel.heap := heap, live := live }).cachedFilesPtr = mem.s.cachedFilesPtr :=
  rfl

theorem free_count (mem : Memory) (ptr : Nat) :
    (mem.free ptr).s.cachedFilesPtr = mem.s.cachedFilesPtr := by
  unfold Memory.free
  exact count_of_heap mem _ _

theorem dropCached_reads (hdrop : mem.dropCached slot = some next) :
    next.reads = mem.reads ++ List.range' (slot + 1) (mem.s.cachedFilesPtr - slot) ∧
      next.s.cachedFilesPtr = mem.s.cachedFilesPtr - 1 := by
  unfold Memory.dropCached at hdrop
  dsimp only at hdrop
  split at hdrop
  · cases hdrop
  · rw [← Option.some.inj hdrop]
    exact ⟨rfl, rfl⟩

-- The last turn of the loop that shifts the slots reads the one behind the table.
theorem remove_reads_behind (hfound : mem.s.findCached path = some slot) {result : Int × Memory}
    (hremove : mem.remove m device path = some result) :
    mem.s.cachedFilesPtr ∈ result.2.reads ∧
      result.2.s.cachedFilesPtr + 1 = mem.s.cachedFilesPtr := by
  have hlt := findCached_lt hfound
  have hsame := (search_later mem path).2
  obtain ⟨found, hdropped, hremoved⟩ := Option.bind_eq_some_iff.mp hremove
  have hafter : mem.s.cachedFilesPtr ∈ found.2.reads ∧
      found.2.s.cachedFilesPtr + 1 = mem.s.cachedFilesPtr := by
    split at hdropped
    · rename_i index hindex
      obtain rfl : slot = index := Option.some.inj (hfound.symm.trans hindex)
      obtain ⟨dropped, hdrop, rfl⟩ := Option.map_eq_some_iff.mp hdropped
      obtain ⟨hreads, hcount⟩ := dropCached_reads hdrop
      rw [hreads, hcount, free_count, hsame]
      constructor
      · apply List.mem_append_right
        rw [List.mem_range'_1]
        omega
      · omega
    · rename_i hnone
      rw [hfound] at hnone
      cases hnone
  obtain ⟨removed, -, rfl⟩ := Option.map_eq_some_iff.mp hremoved
  cases removed with
  | none => exact hafter
  | some disk => exact hafter

theorem truncate_reads_behind {flags size : Nat} (hflags : flags &&& O_TRUNC ≠ 0)
    (hfound : mem.s.findCached path = some slot) {result : Nat × Memory}
    (htruncate : mem.truncate m device path flags size = some result) :
    mem.s.cachedFilesPtr ∈ result.2.reads ∧
      result.2.s.cachedFilesPtr + 1 = mem.s.cachedFilesPtr := by
  unfold Memory.truncate at htruncate
  rw [if_neg hflags] at htruncate
  obtain ⟨removed, hremove, hcreate⟩ := Option.bind_eq_some_iff.mp htruncate
  obtain ⟨created, -, rfl⟩ := Option.map_eq_some_iff.mp hcreate
  cases created with
  | none => exact remove_reads_behind hfound hremove
  | some disk => exact remove_reads_behind hfound hremove

-- Every call that takes a file out of the table reads behind it.
theorem RemovesCached.reads_behind (hremoves : RemovesCached mem action)
    (hreturns : mem.step action ≠ none) : ¬ ReadsInside mem action := by
  obtain ⟨next, hstep⟩ := Option.ne_none_iff_exists'.mp hreturns
  intro hreads
  have hbehind : mem.s.cachedFilesPtr ∈ next.reads ∧ next.s.cachedFilesPtr ≤ mem.s.cachedFilesPtr := by
    obtain ⟨result, hcall, rfl⟩ := Option.map_eq_some_iff.mp hstep
    obtain ⟨m, device, call⟩ := action
    cases call with
    | read path loc => exact absurd hremoves not_false
    | write path val loc => exact absurd hremoves not_false
    | remove path =>
        obtain ⟨slot, hfound⟩ := Option.ne_none_iff_exists'.mp hremoves
        obtain ⟨hmem, hcount⟩ :=
          remove_reads_behind (show (Memory.s { mem with reads := [] }).findCached path = _ from hfound) hcall
        exact ⟨hmem, hcount ▸ Nat.le_succ _⟩
    | «open» path flags =>
        obtain ⟨hflags, hcached, found, hcreated⟩ := hremoves
        obtain ⟨slot, hfound⟩ := Option.ne_none_iff_exists'.mp hcached
        obtain ⟨other, hother, hopen⟩ := Option.bind_eq_some_iff.mp hcall
        obtain rfl : some found = other := Option.some.inj (hcreated.symm.trans hother)
        obtain ⟨ready, htruncate, hopen⟩ := Option.bind_eq_some_iff.mp hopen
        obtain ⟨-, hfiles, hcount, hrecord⟩ := findOrCreate_kernel hcreated
        have hsame : found.2.findCached path = some slot := by
          unfold State.findCached State.cachedFile at hfound ⊢
          rwa [hcount, hfiles, hrecord]
        obtain ⟨hmem, hless⟩ := truncate_reads_behind hflags hsame htruncate
        have hlater := openCached_later hopen
        constructor
        · exact hlater.reads _ (hcount ▸ hmem)
        · have hle := hlater.count
          exact hcount ▸ hless ▸ hle
  rcases hreads next hstep _ hbehind.1 with hlt | hlt
  · exact absurd hlt (Nat.lt_irrefl _)
  · exact absurd (Nat.lt_of_lt_of_le hlt hbehind.2) (Nat.lt_irrefl _)

-- The calls that return leave the files in the table.
def KeepsCached (mem : Memory) (action : VolumeCall) : Prop :=
  mem.step action ≠ none → ¬ RemovesCached mem action

-- The table is live in every state and no call reads behind it, exactly when no call takes a
-- file out of it.
theorem cache_table_live_iff {calls : List VolumeCall} (hstart : Started mem) :
    Throughout Memory.step TableLive mem calls ∧ Guarded Memory.step ReadsInside mem calls ↔
      Guarded Memory.step KeepsCached mem calls := by
  have hkept : ∀ mem action next, (∃ owner, Intact mem mem.s.cachedFilesPtr owner) →
      KeepsCached mem action → mem.step action = some next →
      Sound mem.s.cachedFilesPtr next := by
    intro mem action next hin hkeeps hstep
    exact Intact.step hin (hkeeps (by rw [hstep]; exact Option.some_ne_none _)) hstep
  constructor
  · rintro ⟨-, hreads⟩
    have hstep : ∀ mem action next, True → ReadsInside mem action → mem.step action = some next → True :=
      fun _ _ _ htrue _ _ => htrue
    apply Guarded.of_invariant hstep _ trivial hreads
    intro mem action _ hinside hreturns hremoves
    exact hremoves.reads_behind hreturns hinside
  · intro hkeeps
    constructor
    · apply (Guarded.throughout (fun _ _ _ hin hkeep hstep => (hkept _ _ _ hin hkeep hstep).intact)
        hstart.intact hkeeps).mono
      rintro mem ⟨owner, hin⟩
      exact hin.tableLive
    · apply Guarded.of_invariant (fun _ _ _ hin hkeep hstep => (hkept _ _ _ hin hkeep hstep).intact)
        _ hstart.intact hkeeps
      intro mem action hin hkeep next hstep slot hmem
      exact (hkept mem action next hin hkeep hstep).reads slot hmem

-- A volume with the empty file /a, before a file is cached.
def freshMemory : Memory where
  s :=
    { kernel := { heap := sixteenPages, taskTable := fun _ => .null, others := fun _ => 0 }
      mountpoint := fun _ => none
      devMountpoint := 0
      devices := []
      disks := fun _ => smallDisk
      record := fun _ => zeroRecord }
  live := []

theorem freshMemory_started : Started freshMemory :=
  ⟨(UseIntact.start (by decide) (by decide) (by decide)).ok, ⟨rfl, rfl⟩, ⟨rfl, rfl⟩,
    fun hne => absurd rfl hne⟩

def callA (call : Path → FileCall) : VolumeCall := ⟨smallMount, 0, call pathA⟩

theorem cache_table_live_write :
    ((run Memory.step freshMemory [callA (.write · 7 0), callA (.read · 0)]).map fun mem =>
        (mem.s.cachedFiles, mem.s.cachedFilesPtr)) = some (2 * PAGE_SIZE, 1) ∧
      Throughout Memory.step TableLive freshMemory [callA (.write · 7 0), callA (.read · 0)] ∧
      Guarded Memory.step ReadsInside freshMemory [callA (.write · 7 0), callA (.read · 0)] := by
  have hkeeps : Guarded Memory.step KeepsCached freshMemory [callA (.write · 7 0), callA (.read · 0)] :=
    ⟨fun _ => not_false, fun _ _ => ⟨fun _ => not_false, fun _ _ => trivial⟩⟩
  exact ⟨by decide +kernel, (cache_table_live_iff freshMemory_started).mpr hkeeps⟩

-- /a is read and removed: the block that krealloc frees is where `cached_files` still points to.
theorem removed_table_dangles :
    Started freshMemory ∧
      ((run Memory.step freshMemory [callA (.read · 0), callA .remove]).map fun mem =>
        (mem.s.cachedFiles, mem.live, mem.reads)) = some (2 * PAGE_SIZE, [14 * PAGE_SIZE], [0, 1]) ∧
      ¬ (Throughout Memory.step TableLive freshMemory [callA (.read · 0), callA .remove] ∧
        Guarded Memory.step ReadsInside freshMemory [callA (.read · 0), callA .remove]) := by
  have hrun : ((run Memory.step freshMemory [callA (.read · 0), callA .remove]).map fun mem =>
      (mem.s.cachedFiles, mem.live, mem.reads)) = some (2 * PAGE_SIZE, [14 * PAGE_SIZE], [0, 1]) := by
    decide +kernel
  refine ⟨freshMemory_started, hrun, ?_⟩
  rintro ⟨hall, -⟩
  obtain ⟨final, hfinal, hvalues⟩ := Option.map_eq_some_iff.mp hrun
  obtain ⟨cached, hcached, hrest⟩ := run_cons hfinal
  obtain ⟨removed, hremoved, hlast⟩ := run_cons hrest
  obtain rfl : removed = final := Option.some.inj hlast
  have htable : TableLive removed := (hall.2 cached hcached).2 removed hremoved
  obtain ⟨hptr, hlive, -⟩ : removed.s.cachedFiles = 2 * PAGE_SIZE ∧ removed.live = [14 * PAGE_SIZE] ∧
      removed.reads = [0, 1] := by
    simpa using hvalues
  rcases htable with ⟨hnull, -⟩ | ⟨hmem, -⟩
  · rw [hptr] at hnull
    exact absurd hnull (by decide)
  · rw [hptr, hlive] at hmem
    exact absurd hmem (by decide)

end EchidnaOS.Vfs
