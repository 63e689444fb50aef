import EchidnaOS.Vfs.CacheMemory.Housed

namespace EchidnaOS.Vfs

open EchidnaOS.Lib EchidnaOS.Lib.Run EchidnaOS.Lib.SlotTable EchidnaOS.Lib.ByteStore EchidnaOS.Klib
  EchidnaOS.Devfs EchidnaOS.Echfs

variable {mem next : Memory} {owner owner' : Nat → Option Part} {tag : Part} {mapped slot ptr new : Nat}
  {m : Mount} {device : Nat} {path : Path} {action : VolumeCall}

-- The table has `cachedFilesPtr` slots of its size, or there is none yet.
def TableLive (mem : Memory) : Prop :=
  mem.s.cachedFiles = 0 ∧ mem.s.cachedFilesPtr = 0 ∨
    mem.s.cachedFiles ∈ mem.live ∧
      mem.s.cachedFilesPtr * SIZEOF_CACHED_FILE ≤ (mem.s.kernel.heap.metadata mem.s.cachedFiles).size

-- Every pointer of the driver is that of an object of its own; the slots below `mapped` have
-- their allocation maps.
structure Intact (mem : Memory) (mapped : Nat) (owner : Nat → Option Part) : Prop
    extends Housed mem.s owner where
  live : ∀ ptr, ptr ∈ mem.live ↔ owner ptr ≠ none
  maps : ∀ slot, slot < mapped → owner (mem.maps slot) = some (.map slot)
  devfs : mem.devfsArray ≠ 0 → owner mem.devfsArray = some .devfs
  echfs : mem.echfsArray ≠ 0 → owner mem.echfsArray = some .echfs

theorem Intact.tableLive (hin : Intact mem mapped owner) : TableLive mem := by
  rcases hin.table with hnull | ⟨howner, hsize⟩
  · exact Or.inl hnull
  · refine Or.inr ⟨(hin.live _).mpr ?_, Nat.le_of_eq hsize.symm⟩
    rw [howner]
    exact Option.some_ne_none _

-- The driver apart from the heap and the pointers to it.
structure SameDriver (mem next : Memory) : Prop where
  cachedFiles : next.s.cachedFiles = mem.s.cachedFiles
  count : next.s.cachedFilesPtr = mem.s.cachedFilesPtr
  reads : next.reads = mem.reads

theorem SameDriver.refl (mem : Memory) : SameDriver mem mem := ⟨rfl, rfl, rfl⟩

theorem SameDriver.trans {last : Memory} (hfirst : SameDriver mem next) (hsecond : SameDriver next last) :
    SameDriver mem last :=
  ⟨hsecond.cachedFiles.trans hfirst.cachedFiles, hsecond.count.trans hfirst.count,
    hsecond.reads.trans hfirst.reads⟩

theorem resize_same {size : Nat} (hresize : mem.resize ptr size = some (new, next)) :
    SameDriver mem next := by
  unfold Memory.resize at hresize
  dsimp only at hresize
  split at hresize
  · cases hresize
  · cases hresize
    exact ⟨rfl, rfl, rfl⟩

theorem growMap_same {entries : List Nat} (hgrow : mem.growMap slot entries = some next) :
    SameDriver mem next := by
  induction entries generalizing mem with
  | nil =>
      cases hgrow
      exact .refl _
  | cons i rest ih =>
      obtain ⟨⟨new, grown⟩, hresize, hrest⟩ := Option.bind_eq_some_iff.mp hgrow
      have hlast := ih hrest
      exact (resize_same hresize).trans ⟨hlast.cachedFiles, hlast.count, hlast.reads⟩

theorem loadMap_same {length : Nat} (hload : mem.loadMap slot length = some next) :
    SameDriver mem next := by
  obtain ⟨⟨new, first⟩, hfirst, hgrow⟩ := Option.bind_eq_some_iff.mp hload
  have hlast := growMap_same hgrow
  exact (resize_same hfirst).trans ⟨hlast.cachedFiles, hlast.count, hlast.reads⟩

-- One object is moved by krealloc.
theorem Intact.move (hin : Intact mem mapped owner) (hhoused : Housed next.s owner')
    (hlive : ∀ ptr, ptr ∈ next.live ↔ owner' ptr ≠ none)
    (hkept : Kept (· ≠ tag) mem.s.kernel.heap next.s.kernel.heap owner owner')
    (hmaps : ∀ slot, slot < mapped → next.maps slot = mem.maps slot ∧ tag ≠ .map slot ∨
      owner' (next.maps slot) = some (.map slot))
    (hdevfs : next.devfsArray = mem.devfsArray ∧ tag ≠ .devfs ∨ owner' next.devfsArray = some .devfs)
    (hechfs : next.echfsArray = mem.echfsArray ∧ tag ≠ .echfs ∨ owner' next.echfsArray = some .echfs) :
    Intact next mapped owner' where
  toHoused := hhoused
  live := hlive
  maps slot hslot := by
    rcases hmaps slot hslot with ⟨heq, hne⟩ | hmoved
    · rw [heq]
      exact (hkept _ _ (Ne.symm hne) (hin.maps slot hslot)).1
    · exact hmoved
  devfs hne := by
    rcases hdevfs with ⟨heq, htag⟩ | hmoved
    · rw [heq] at hne ⊢
      exact (hkept _ _ (Ne.symm htag) (hin.devfs hne)).1
    · exact hmoved
  echfs hne := by
    rcases hechfs with ⟨heq, htag⟩ | hmoved
    · rw [heq] at hne ⊢
      exact (hkept _ _ (Ne.symm htag) (hin.echfs hne)).1
    · exact hmoved

theorem mem_moved {live : List Nat} (hlive : ∀ ptr, ptr ∈ live ↔ owner ptr ≠ none) (old new : Nat)
    (tag : Part) (ptr : Nat) :
    ptr ∈ new :: live.filter (· ≠ old) ↔ moved owner old new tag ptr ≠ none := by
  unfold moved
  by_cases hnew : ptr = new
  · rw [hnew, Function.update_self]
    simp
  · rw [Function.update_of_ne hnew, List.mem_cons, List.mem_filter, hlive]
    by_cases hold : ptr = old
    · rw [hold, Function.update_self]
      simp [← hold, hnew]
    · rw [Function.update_of_ne hold]
      simp [hnew, hold]

-- What resize leaves of an object that is neither the table nor the descriptors.
theorem Intact.resize (hin : Intact mem mapped owner) {size : Nat} (htable : tag ≠ .table)
    (hdescriptors : tag ≠ .descriptors) (hptr : ptr ≠ 0 → owner ptr = some tag)
    (hresize : mem.resize ptr size = some (new, next)) :
    Housed next.s (moved owner ptr new tag) ∧
      (∀ other, other ∈ next.live ↔ moved owner ptr new tag other ≠ none) ∧
      Kept (· ≠ tag) mem.s.kernel.heap next.s.kernel.heap owner (moved owner ptr new tag) ∧
      ∃ heap live, next = { mem with s.kernel.heap := heap, live := live } := by
  unfold Memory.resize at hresize
  dsimp only at hresize
  split at hresize
  · cases hresize
  · rename_i hne
    cases hresize
    obtain ⟨htagged, -, hkept⟩ := hin.tagged.moved hptr (size % 2 ^ 32) hne
    exact ⟨hin.toHoused.move htagged hkept (Or.inl ⟨⟨rfl, rfl⟩, htable⟩) (Or.inl ⟨rfl, hdescriptors⟩),
      mem_moved hin.live _ _ _, hkept, _, _, rfl⟩

-- The allocation map of one slot.
theorem Intact.resizeMap (hin : Intact mem mapped owner) {size : Nat}
    (hptr : ptr ≠ 0 → owner ptr = some (.map slot)) (hresize : mem.resize ptr size = some (new, next)) :
    ∃ owner', Intact { next with maps := Function.update next.maps slot new } mapped owner' ∧
      owner' new = some (.map slot) := by
  obtain ⟨hhoused, hlive, hkept, heap, live, rfl⟩ := hin.resize (by simp) (by simp) hptr hresize
  have hself : moved owner ptr new (Part.map slot) new = some (.map slot) := Function.update_self _ _ _
  refine ⟨_, hin.move hhoused hlive hkept ?_ (Or.inl ⟨rfl, by simp⟩) (Or.inl ⟨rfl, by simp⟩), hself⟩
  intro other _
  dsimp only
  by_cases heq : other = slot
  · right
    rw [heq, Function.update_self]
    exact hself
  · left
    exact ⟨Function.update_of_ne heq _ _, fun h => heq (Part.map.inj h).symm⟩

theorem Intact.growMap (hin : Intact mem mapped owner) (howner : owner (mem.maps slot) = some (.map slot))
    {entries : List Nat} (hgrow : mem.growMap slot entries = some next) :
    ∃ owner', Intact next mapped owner' ∧ owner' (next.maps slot) = some (.map slot) := by
  induction entries generalizing mem owner with
  | nil =>
      cases hgrow
      exact ⟨owner, hin, howner⟩
  | cons i rest ih =>
      obtain ⟨⟨new, grown⟩, hresize, hrest⟩ := Option.bind_eq_some_iff.mp hgrow
      obtain ⟨middle, hmiddle, hnew⟩ := hin.resizeMap (fun _ => howner) hresize
      have hmap : middle (Function.update grown.maps slot new slot) = some (.map slot) := by
        rw [Function.update_self]
        exact hnew
      exact ih hmiddle hmap hrest

-- The slot behind the ones that have their maps.
theorem Intact.loadMap (hin : Intact mem slot owner) {length : Nat}
    (hload : mem.loadMap slot length = some next) :
    ∃ owner', Intact next (slot + 1) owner' := by
  obtain ⟨⟨new, first⟩, hfirst, hgrow⟩ := Option.bind_eq_some_iff.mp hload
  obtain ⟨middle, hmiddle, hnew⟩ := hin.resizeMap (fun hne => absurd rfl hne) hfirst
  have hmap : middle (Function.update first.maps slot new slot) = some (.map slot) := by
    rw [Function.update_self]
    exact hnew
  obtain ⟨owner', hnext, hlast⟩ := hmiddle.growMap hmap hgrow
  refine ⟨owner', { hnext with maps := ?_ }⟩
  intro other hother
  by_cases heq : other = slot
  · rw [heq]
    exact hlast
  · exact hnext.maps other (by omega)

-- The table gets a slot.
theorem Intact.addCached (hin : Intact mem mapped owner) {file : CachedFile} {reset : Bool}
    (hadd : mem.addCached file reset = some next) :
    ∃ owner', Intact next mapped owner' ∧ next.s.cachedFilesPtr = mem.s.cachedFilesPtr + 1 ∧
      next.reads = mem.reads := by
  unfold Memory.addCached at hadd
  dsimp only at hadd
  split at hadd
  · cases hadd
  · rename_i hne
    cases hadd
    obtain ⟨hhoused, hkept⟩ := hin.toHoused.addCached file reset hne
    refine ⟨_, hin.move hhoused (mem_moved hin.live _ _ _) hkept ?_ (Or.inl ⟨rfl, by simp⟩)
      (Or.inl ⟨rfl, by simp⟩), rfl, rfl⟩
    exact fun _ _ => Or.inl ⟨rfl, by simp⟩

-- The driver state changes, but not what the heap holds of it.
theorem Intact.of_state (hin : Intact mem mapped owner) {s : State} (hkernel : s.kernel = mem.s.kernel)
    (hfiles : s.cachedFiles = mem.s.cachedFiles) (hcount : s.cachedFilesPtr = mem.s.cachedFilesPtr) :
    Intact { mem with s := s } mapped owner :=
  ⟨hin.toHoused.of_state hkernel hfiles hcount, hin.live, hin.maps, hin.devfs, hin.echfs⟩

theorem Intact.of_reads (hin : Intact mem mapped owner) (reads : List Nat) :
    Intact { mem with reads := reads } mapped owner :=
  ⟨hin.toHoused, hin.live, hin.maps, hin.devfs, hin.echfs⟩

-- The heap is as it must be, and no slot from `bound` on has been read but a new one.
structure Sound (bound : Nat) (mem : Memory) : Prop where
  intact : ∃ owner, Intact mem mem.s.cachedFilesPtr owner
  reads : ∀ slot ∈ mem.reads, slot < bound ∨ slot < mem.s.cachedFilesPtr

variable {bound : Nat}

theorem Sound.of_state (hsound : Sound bound mem) {s : State} (hkernel : s.kernel = mem.s.kernel)
    (hfiles : s.cachedFiles = mem.s.cachedFiles) (hcount : s.cachedFilesPtr = mem.s.cachedFilesPtr) :
    Sound bound { mem with s := s } := by
  obtain ⟨⟨owner, hin⟩, hreads⟩ := hsound
  refine ⟨⟨owner, ?_⟩, hcount ▸ hreads⟩
  have hnext := hin.of_state hkernel hfiles hcount
  rw [← hcount] at hnext
  exact hnext

theorem findCached_lt (hfound : mem.s.findCached path = some slot) : slot < mem.s.cachedFilesPtr :=
  List.mem_range.mp (List.mem_of_find?_eq_some hfound)

theorem Sound.search (hsound : Sound bound mem) (hbound : mem.s.cachedFilesPtr = bound) (path : Path) :
    Sound bound (mem.search path) ∧ (mem.search path).s = mem.s := by
  have hlook : ∀ count, count ≤ bound → Sound bound (mem.look (List.range count)) := by
    intro count hcount
    obtain ⟨⟨owner, hin⟩, hreads⟩ := hsound
    refine ⟨⟨owner, ?_⟩, ?_⟩
    · exact hin.of_reads _
    · intro slot hmem
      rcases List.mem_append.mp hmem with hold | hnew
      · exact hreads slot hold
      · exact Or.inl (Nat.lt_of_lt_of_le (List.mem_range.mp hnew) hcount)
  unfold Memory.search
  split
  · rename_i slot hfound
    have hlt := findCached_lt hfound
    exact ⟨hlook _ (by omega), rfl⟩
  · exact ⟨hlook _ (by omega), rfl⟩

theorem Sound.cacheFile (hsound : Sound bound mem) (hbound : mem.s.cachedFilesPtr = bound) {reset : Bool}
    {result : Nat × Memory} (hcache : mem.cacheFile m device path reset = some result) :
    Sound bound result.2 ∧ result.1 < result.2.s.cachedFilesPtr := by
  obtain ⟨hsearch, hsame⟩ := hsound.search hbound path
  unfold Memory.cacheFile at hcache
  split at hcache
  · rename_i slot hfound
    cases hcache
    refine ⟨hsearch, ?_⟩
    rw [hsame]
    exact findCached_lt hfound
  · obtain ⟨file, -, hcache⟩ := Option.bind_eq_some_iff.mp hcache
    obtain ⟨added, hadd, hrest⟩ := Option.bind_eq_some_iff.mp hcache
    obtain ⟨loaded, hload, rfl⟩ := Option.map_eq_some_iff.mp hrest
    obtain ⟨owner, hin⟩ := hsearch.intact
    obtain ⟨middle, hmiddle, hcount, hreads⟩ := hin.addCached hadd
    rw [hsame] at hmiddle hcount
    obtain ⟨owner', hnext⟩ := hmiddle.loadMap hload
    have hdriver := loadMap_same hload
    have hnew : loaded.s.cachedFilesPtr = mem.s.cachedFilesPtr + 1 := hdriver.count.trans hcount
    have hlast : mem.s.cachedFilesPtr < loaded.s.cachedFilesPtr := by
      rw [hnew]
      exact Nat.lt_succ_self _
    have hlooked : Intact (loaded.look [mem.s.cachedFilesPtr]) loaded.s.cachedFilesPtr owner' := by
      rw [hnew]
      exact hnext.of_reads _
    refine ⟨⟨⟨owner', hlooked⟩, ?_⟩, hlast⟩
    intro slot hmem
    rcases List.mem_append.mp hmem with hold | hown
    · rw [hdriver.reads, hreads] at hold
      rcases hsearch.reads slot hold with hbefore | hbefore
      · exact Or.inl hbefore
      · rw [hsame] at hbefore
        exact Or.inr (Nat.lt_trans hbefore hlast)
    · rw [List.mem_singleton.mp hown]
      exact Or.inr hlast

theorem Sound.read (hsound : Sound bound mem) (hbound : mem.s.cachedFilesPtr = bound) {loc : Nat}
    {result : Int × Memory} (hread : mem.read m device path loc = some result) : Sound bound result.2 := by
  obtain ⟨cached, hcache, rfl⟩ := Option.map_eq_some_iff.mp hread
  have hcached := (hsound.cacheFile hbound hcache).1
  dsimp only
  split
  · exact hcached
  · split
    · exact hcached
    · exact hcached.of_state rfl rfl rfl

theorem Sound.write (hsound : Sound bound mem) (hbound : mem.s.cachedFilesPtr = bound) {val : UInt8}
    {loc : Nat} {result : Int × Memory} (hwrite : mem.write m device path val loc = some result) :
    Sound bound result.2 := by
  obtain ⟨cached, hcache, hrest⟩ := Option.bind_eq_some_iff.mp hwrite
  obtain ⟨hcached, hslot⟩ := hsound.cacheFile hbound hcache
  dsimp only at hrest
  split at hrest
  · cases hrest
    exact hcached
  · obtain ⟨written, -, hrest⟩ := Option.bind_eq_some_iff.mp hrest
    obtain ⟨grown, hgrow, rfl⟩ := Option.map_eq_some_iff.mp hrest
    obtain ⟨⟨owner, hin⟩, hreads⟩ := hcached
    obtain ⟨owner', hnext, -⟩ := hin.growMap (hin.maps _ hslot) hgrow
    have hdriver := growMap_same hgrow
    have hgrown : Sound bound grown := by
      refine ⟨⟨owner', hdriver.count ▸ hnext⟩, fun slot hmem => ?_⟩
      rw [hdriver.reads] at hmem
      rw [hdriver.count]
      exact hreads slot hmem
    exact hgrown.of_state rfl rfl rfl

-- The removal of a file that is not in the table leaves the table alone.
theorem Sound.remove (hsound : Sound bound mem) (hbound : mem.s.cachedFilesPtr = bound)
    (hfound : mem.s.findCached path = none) {result : Int × Memory}
    (hremove : mem.remove m device path = some result) :
    Sound bound result.2 ∧ result.2.s.cachedFilesPtr = bound := by
  obtain ⟨hsearch, hsame⟩ := hsound.search hbound path
  unfold Memory.remove at hremove
  rw [hfound] at hremove
  obtain ⟨removed, -, rfl⟩ := Option.map_eq_some_iff.mp hremove
  cases removed with
  | none => exact ⟨hsearch, by rw [hsame]; exact hbound⟩
  | some disk => exact ⟨hsearch.of_state rfl rfl rfl, by rw [← hbound, ← hsame]; rfl⟩

theorem findOrCreate_kernel {s : State} {flags : Nat} {found : Nat × State}
    (hfound : s.findOrCreate m device path flags = some (some found)) :
    found.2.kernel = s.kernel ∧ found.2.cachedFiles = s.cachedFiles ∧
      found.2.cachedFilesPtr = s.cachedFilesPtr ∧ found.2.record = s.record := by
  unfold State.findOrCreate at hfound
  split at hfound
  · cases hfound
    exact ⟨rfl, rfl, rfl, rfl⟩
  · split at hfound
    · cases hfound
    · obtain ⟨created, -, hcreated⟩ := Option.map_eq_some_iff.mp hfound
      obtain ⟨disk, -, rfl⟩ := Option.map_eq_some_iff.mp hcreated
      exact ⟨rfl, rfl, rfl, rfl⟩

theorem Sound.truncate (hsound : Sound bound mem) (hbound : mem.s.cachedFilesPtr = bound) {flags size : Nat}
    (hfound : flags &&& O_TRUNC ≠ 0 → mem.s.findCached path = none) {result : Nat × Memory}
    (htruncate : mem.truncate m device path flags size = some result) :
    Sound bound result.2 ∧ result.2.s.cachedFilesPtr = bound := by
  unfold Memory.truncate at htruncate
  by_cases hflags : flags &&& O_TRUNC = 0
  · rw [if_pos hflags] at htruncate
    cases htruncate
    exact ⟨hsound, hbound⟩
  · rw [if_neg hflags] at htruncate
    obtain ⟨removed, hremove, hcreate⟩ := Option.bind_eq_some_iff.mp htruncate
    obtain ⟨created, -, rfl⟩ := Option.map_eq_some_iff.mp hcreate
    obtain ⟨hremoved, hcount⟩ := hsound.remove hbound (hfound hflags) hremove
    cases created with
    | none => exact ⟨hremoved.of_state rfl rfl rfl, hcount⟩
    | some disk => exact ⟨hremoved.of_state rfl rfl rfl, hcount⟩

theorem Sound.growDevfs (hsound : Sound bound mem) (hgrow : mem.growDevfs = some next) :
    Sound bound next := by
  unfold Memory.growDevfs at hgrow
  split at hgrow
  · cases hgrow
    exact hsound
  · obtain ⟨⟨new, grown⟩, hresize, rfl⟩ := Option.map_eq_some_iff.mp hgrow
    obtain ⟨⟨owner, hin⟩, hreads⟩ := hsound
    obtain ⟨hhoused, hlive, hkept, heap, live, rfl⟩ := hin.resize (by simp) (by simp) hin.devfs hresize
    exact ⟨⟨_, hin.move hhoused hlive hkept (fun _ _ => Or.inl ⟨rfl, by simp⟩)
      (Or.inr (Function.update_self _ _ _)) (Or.inl ⟨rfl, by simp⟩)⟩, hreads⟩

theorem Sound.growEchfs (hsound : Sound bound mem) (hgrow : mem.growEchfs = some next) :
    Sound bound next := by
  unfold Memory.growEchfs at hgrow
  split at hgrow
  · cases hgrow
    exact hsound
  · obtain ⟨⟨new, grown⟩, hresize, rfl⟩ := Option.map_eq_some_iff.mp hgrow
    obtain ⟨⟨owner, hin⟩, hreads⟩ := hsound
    obtain ⟨hhoused, hlive, hkept, heap, live, rfl⟩ := hin.resize (by simp) (by simp) hin.echfs hresize
    exact ⟨⟨_, hin.move hhoused hlive hkept (fun _ _ => Or.inl ⟨rfl, by simp⟩)
      (Or.inl ⟨rfl, by simp⟩) (Or.inr (Function.update_self _ _ _))⟩, hreads⟩

-- The descriptor of the device, in the table of the kernel's task.
theorem Sound.kopen (hsound : Sound bound mem) {result : Int × Memory}
    (hopen : mem.kopen device = some result) : Sound bound result.2 := by
  obtain ⟨grown, hgrow, hopen⟩ := Option.bind_eq_some_iff.mp hopen
  obtain ⟨⟨owner, hin⟩, hreads⟩ := hsound.growDevfs hgrow
  dsimp only at hopen
  rcases vfsKopen_descriptors grown.s device with ⟨hfree, hheap, hsame⟩ | ⟨hfree, -, hnull⟩ |
    ⟨hfree, size, hheap, hnew⟩
  · rw [if_pos hfree] at hopen
    cases hopen
    refine ⟨⟨owner, ?_⟩, hreads⟩
    have hhoused : Housed (vfsKopen grown.s device).2 owner :=
      ⟨hheap ▸ hin.tagged, hheap ▸ hin.table, hin.count_le, hsame ▸ hin.descriptors⟩
    exact ⟨hhoused, hin.live, hin.maps, hin.devfs, hin.echfs⟩
  · rw [if_neg (by simp [hfree]), if_pos hnull] at hopen
    cases hopen
  · rw [if_neg (by simp [hfree])] at hopen
    split at hopen
    · cases hopen
    · rename_i hne
      cases hopen
      rw [hnew] at hne
      obtain ⟨htagged, -, hkept⟩ := hin.tagged.moved hin.descriptors size hne
      have hlive := mem_moved hin.live (Memory.descriptors grown.s)
        (krealloc grown.s.kernel.heap (Memory.descriptors grown.s) size).1 .descriptors
      rw [← hheap] at htagged hkept
      rw [← hnew] at htagged hkept hlive
      have hhoused := hin.toHoused.move htagged hkept (Or.inl ⟨vfsKopen_table _ _, by simp⟩)
        (Or.inr fun _ => Function.update_self _ _ _)
      exact ⟨⟨_, hin.move hhoused hlive hkept (fun _ _ => Or.inl ⟨rfl, by simp⟩)
        (Or.inl ⟨rfl, by simp⟩) (Or.inl ⟨rfl, by simp⟩)⟩, hreads⟩

theorem Sound.openCached (hsound : Sound bound mem) (hbound : mem.s.cachedFilesPtr = bound)
    {flags size : Nat} {result : Int × Memory}
    (hopen : mem.openCached m device path flags size = some result) : Sound bound result.2 := by
  obtain ⟨cached, hcache, hopen⟩ := Option.bind_eq_some_iff.mp hopen
  obtain ⟨opened, hkopen, hopen⟩ := Option.bind_eq_some_iff.mp hopen
  obtain ⟨grown, hgrow, rfl⟩ := Option.map_eq_some_iff.mp hopen
  have hcached := (hsound.cacheFile hbound hcache).1
  exact ((hcached.kopen hkopen).growEchfs hgrow).of_state rfl rfl rfl

-- The call takes a file out of the table: echfs_remove of a path with a slot, or an
-- echfs_open with O_TRUNC that gets to its echfs_remove with such a path.
def RemovesCached (mem : Memory) (action : VolumeCall) : Prop :=
  match action.call with
  | .remove path => mem.s.findCached path ≠ none
  | .open path flags => flags &&& O_TRUNC ≠ 0 ∧ mem.s.findCached path ≠ none ∧
      ∃ found, mem.s.findOrCreate action.m action.device path flags = some (some found)
  | _ => False

-- A call looks at no slot from the end of the table on, but at the one that it adds itself.
def ReadsInside (mem : Memory) (action : VolumeCall) : Prop :=
  ∀ next, mem.step action = some next → ∀ slot ∈ next.reads,
    slot < mem.s.cachedFilesPtr ∨ slot < next.s.cachedFilesPtr

-- A call that takes no file out of the table and truncates has no slot for the path.
theorem uncached_of_truncate {flags : Nat} (hkeeps : ¬ RemovesCached mem ⟨m, device, .open path flags⟩)
    {found : Nat × State} (hfound : mem.s.findOrCreate m device path flags = some (some found))
    (hflags : flags &&& O_TRUNC ≠ 0) : found.2.findCached path = none := by
  obtain ⟨-, hfiles, hcount, hrecord⟩ := findOrCreate_kernel hfound
  by_contra hsome
  apply hkeeps
  refine ⟨hflags, ?_, found, hfound⟩
  unfold State.findCached State.cachedFile at hsome ⊢
  rwa [hcount, hfiles, hrecord] at hsome

theorem Sound.openFile (hsound : Sound bound mem) (hbound : mem.s.cachedFilesPtr = bound) {flags : Nat}
    (hkeeps : ¬ RemovesCached mem ⟨m, device, .open path flags⟩) {result : Int × Memory}
    (hopen : mem.openFile m device path flags = some result) : Sound bound result.2 := by
  obtain ⟨found, hfound, hopen⟩ := Option.bind_eq_some_iff.mp hopen
  cases found with
  | none =>
      cases hopen
      exact hsound
  | some found =>
      obtain ⟨ready, htruncate, hopen⟩ := Option.bind_eq_some_iff.mp hopen
      obtain ⟨hkernel, hfiles, hcount, -⟩ := findOrCreate_kernel hfound
      obtain ⟨hready, hbound'⟩ := (hsound.of_state hkernel hfiles hcount).truncate
        (hcount.trans hbound) (uncached_of_truncate hkeeps hfound) htruncate
      exact hready.openCached hbound' hopen

-- One call that takes no file out of the table.
theorem Intact.step (hin : ∃ owner, Intact mem mem.s.cachedFilesPtr owner) (hkeeps : ¬ RemovesCached mem action)
    (hstep : mem.step action = some next) : Sound mem.s.cachedFilesPtr next := by
  obtain ⟨result, hcall, rfl⟩ := Option.map_eq_some_iff.mp hstep
  obtain ⟨owner, hin⟩ := hin
  have hstart : Sound mem.s.cachedFilesPtr { mem with reads := [] } :=
    ⟨⟨owner, hin.of_reads []⟩, fun slot hmem => absurd hmem List.not_mem_nil⟩
  obtain ⟨m, device, call⟩ := action
  cases call with
  | «open» path flags => exact hstart.openFile rfl hkeeps hcall
  | read path loc => exact hstart.read rfl hcall
  | write path val loc => exact hstart.write rfl hcall
  | remove path => exact (hstart.remove rfl (not_not.mp hkeeps) hcall).1

-- The driver before it has cached a file: the table is NULL, and the objects are those of the
-- rest of the kernel, among them the descriptors of the kernel's task.
structure Started (mem : Memory) : Prop where
  heap : HeapOk mem.s.kernel.heap (· ∈ mem.live)
  table : mem.s.cachedFiles = 0 ∧ mem.s.cachedFilesPtr = 0
  arrays : mem.devfsArray = 0 ∧ mem.echfsArray = 0
  descriptors : Memory.descriptors mem.s ≠ 0 → Memory.descriptors mem.s ∈ mem.live

theorem Started.intact (hstart : Started mem) : ∃ owner, Intact mem mem.s.cachedFilesPtr owner := by
  obtain ⟨hheap, htable, ⟨hdevfs, hechfs⟩, hdescriptors⟩ := hstart
  obtain ⟨owner, hhoused, hlive⟩ := Housed.start hheap htable hdescriptors
  refine ⟨owner, hhoused, hlive, ?_, fun hne => absurd hdevfs hne, fun hne => absurd hechfs hne⟩
  intro slot hslot
  rw [htable.2] at hslot
  exact absurd hslot (Nat.not_lt_zero slot)

end EchidnaOS.Vfs
