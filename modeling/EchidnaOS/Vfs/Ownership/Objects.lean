import EchidnaOS.Lib.Roots
import EchidnaOS.Task.Table
import EchidnaOS.Vfs.Ownership

namespace EchidnaOS.Vfs

open EchidnaOS.Lib EchidnaOS.Lib.Roots EchidnaOS.Lib.SlotTable EchidnaOS.Klib EchidnaOS.Devfs EchidnaOS.Echfs

variable {mem middle next : Memory} {slot ptr new size pid : Nat} {m : Mount} {device : Nat} {path : Path}
  {flags : Nat} {handle : Int}

-- A call that loses no object, whatever is in local variables meanwhile.
def Accounts (mem next : Memory) : Prop :=
  ∀ held, Accounted held mem.root mem.live → Accounted held next.root next.live

theorem Accounts.refl (mem : Memory) : Accounts mem mem := fun _ h => h

theorem Accounts.trans (hfirst : Accounts mem middle) (hsecond : Accounts middle next) :
    Accounts mem next :=
  fun held h => hsecond held (hfirst held h)

theorem Accounts.of_same (hroot : next.root = mem.root) (hlive : next.live = mem.live) :
    Accounts mem next := by
  intro held haccounted
  rw [hroot, hlive]
  exact haccounted

theorem Accounts.of_move (root : Root) (hnew : new ≠ 0)
    (hroot : next.root = Function.update mem.root root new)
    (hlive : next.live = new :: mem.live.filter (· ≠ mem.root root)) : Accounts mem next := by
  intro held haccounted
  rw [hroot, hlive]
  exact haccounted.move root hnew

theorem resize_spec (hresize : mem.resize ptr size = some (new, next)) :
    new ≠ 0 ∧ ∃ heap, next =
      { mem with s.kernel.heap := heap, live := new :: mem.live.filter (· ≠ ptr) } := by
  unfold Memory.resize at hresize
  dsimp only at hresize
  split at hresize
  · cases hresize
  · rename_i hne
    cases hresize
    exact ⟨hne, _, rfl⟩

theorem root_setHeap (mem : Memory) (heap : Heap) (live : List Nat) :
    Memory.root { mem with s.kernel.heap := heap, live := live } = mem.root := by
  funext root
  cases root <;> rfl

-- The map of a slot of the table.
theorem root_setMap (mem : Memory) (hslot : slot < mem.s.cachedFilesPtr) (new : Nat) :
    Memory.root { mem with maps := Function.update mem.maps slot new } =
      Function.update mem.root (.allocMap slot) new := by
  funext root
  by_cases heq : root = .allocMap slot
  · rw [heq, Function.update_self]
    simp [Memory.root, hslot]
  · rw [Function.update_of_ne heq]
    cases root with
    | allocMap other =>
        have hne : other ≠ slot := fun h => heq (by rw [h])
        simp [Memory.root, Function.update_of_ne hne]
    | task pid field => rfl
    | cachedFiles => rfl
    | devfsHandles => rfl
    | echfsHandles => rfl
    | other name => rfl

theorem root_map (hslot : slot < mem.s.cachedFilesPtr) : mem.root (.allocMap slot) = mem.maps slot :=
  if_pos hslot

theorem resizeMap_accounts (hslot : slot < mem.s.cachedFilesPtr)
    (hresize : mem.resize (mem.maps slot) size = some (new, next)) :
    Accounts mem { next with maps := Function.update next.maps slot new } := by
  obtain ⟨hne, heap, rfl⟩ := resize_spec hresize
  refine .of_move (.allocMap slot) hne ?_ ?_
  · rw [← root_setHeap mem heap (new :: mem.live.filter (· ≠ mem.maps slot))]
    exact root_setMap _ hslot new
  · rw [root_map hslot]

theorem growMap_accounts {entries : List Nat} (hslot : slot < mem.s.cachedFilesPtr)
    (hgrow : mem.growMap slot entries = some next) : Accounts mem next := by
  induction entries generalizing mem with
  | nil =>
      cases hgrow
      exact .refl _
  | cons i rest ih =>
      obtain ⟨⟨new, grown⟩, hresize, hrest⟩ := Option.bind_eq_some_iff.mp hgrow
      have hfirst := resizeMap_accounts hslot hresize
      have hcount := (resize_same hresize).count
      exact hfirst.trans (ih (by rw [← hcount] at hslot; exact hslot) hrest)

-- The table grows by a slot that has no map yet, and the slot gets its map.
theorem root_addCached (mem : Memory) (file : CachedFile) (reset : Bool) (heap : Heap) (live : List Nat)
    (new : Nat) :
    Memory.root { mem with
        s := { (mem.s.addCached file reset).2 with
          kernel := { (mem.s.addCached file reset).2.kernel with heap := heap } }
        live := live
        maps := Function.update mem.maps mem.s.cachedFilesPtr new } =
      Function.update (Function.update mem.root .cachedFiles (mem.s.addCached file reset).2.cachedFiles)
        (.allocMap mem.s.cachedFilesPtr) new := by
  funext root
  cases root with
  | allocMap other =>
      by_cases heq : other = mem.s.cachedFilesPtr
      · rw [heq, Function.update_self]
        simp [Memory.root, State.addCached]
      · have hlt : other < mem.s.cachedFilesPtr + 1 ↔ other < mem.s.cachedFilesPtr := by omega
        rw [Function.update_of_ne (by simpa using heq), Function.update_of_ne (by simp)]
        simp [Memory.root, State.addCached, hlt, Function.update_of_ne heq]
  | cachedFiles => rfl
  | task pid field => rfl
  | devfsHandles => rfl
  | echfsHandles => rfl
  | other name => rfl

theorem addCached_accounts {file : CachedFile} {reset : Bool} {length : Nat}
    (hadd : mem.addCached file reset = some middle)
    (hload : middle.loadMap mem.s.cachedFilesPtr length = some next) : Accounts mem next := by
  obtain ⟨⟨new, first⟩, hfirst, hgrow⟩ := Option.bind_eq_some_iff.mp hload
  obtain ⟨hne, heap, rfl⟩ := resize_spec hfirst
  unfold Memory.addCached at hadd
  dsimp only at hadd
  split at hadd
  · cases hadd
  rename_i htable
  cases hadd
  refine Accounts.trans ?_ (growMap_accounts (Nat.lt_succ_self _) hgrow)
  intro held haccounted
  have hmoved := (haccounted.move Root.cachedFiles htable).alloc hne
  have hnull : Function.update mem.root .cachedFiles (mem.s.addCached file reset).2.cachedFiles
      (.allocMap mem.s.cachedFilesPtr) = 0 := by
    simp [Memory.root]
  refine (hmoved.store hnull).mono ?_ (fun ptr hptr => Or.inl hptr) ?_
  · intro ptr hptr
    rcases List.mem_cons.mp hptr with rfl | hold
    · exact List.mem_cons_self
    · exact List.mem_cons_of_mem _ (List.mem_filter.mp hold).1
  · intro root _ _
    exact ⟨root, congrFun (root_addCached mem file reset heap _ new) root⟩

theorem search_accounts (mem : Memory) (path : Path) : Accounts mem (mem.search path) := by
  unfold Memory.search
  split
  · exact .of_same rfl rfl
  · exact .of_same rfl rfl

theorem cacheFile_accounts {reset : Bool} {result : Nat × Memory}
    (hcache : mem.cacheFile m device path reset = some result) : Accounts mem result.2 := by
  have hsearch := search_accounts mem path
  unfold Memory.cacheFile at hcache
  split at hcache
  · cases hcache
    exact hsearch
  · rename_i hfound
    obtain ⟨file, -, hcache⟩ := Option.bind_eq_some_iff.mp hcache
    obtain ⟨added, hadd, hcache⟩ := Option.bind_eq_some_iff.mp hcache
    obtain ⟨loaded, hload, rfl⟩ := Option.map_eq_some_iff.mp hcache
    have hsame : (mem.search path).s = mem.s := by
      unfold Memory.search
      rw [hfound]
      rfl
    rw [← hsame] at hload
    have hadded := hsearch.trans (addCached_accounts hadd hload)
    exact hadded.trans (.of_same rfl rfl)

theorem growDevfs_accounts (hgrow : mem.growDevfs = some next) : Accounts mem next := by
  unfold Memory.growDevfs at hgrow
  split at hgrow
  · cases hgrow
    exact .refl _
  · obtain ⟨⟨new, grown⟩, hresize, rfl⟩ := Option.map_eq_some_iff.mp hgrow
    obtain ⟨hne, heap, rfl⟩ := resize_spec hresize
    refine .of_move .devfsHandles hne ?_ rfl
    funext root
    cases root <;> rfl

theorem growEchfs_accounts (hgrow : mem.growEchfs = some next) : Accounts mem next := by
  unfold Memory.growEchfs at hgrow
  split at hgrow
  · cases hgrow
    exact .refl _
  · obtain ⟨⟨new, grown⟩, hresize, rfl⟩ := Option.map_eq_some_iff.mp hgrow
    obtain ⟨hne, heap, rfl⟩ := resize_spec hresize
    refine .of_move .echfsHandles hne ?_ rfl
    funext root
    cases root <;> rfl

-- The entry of one task is replaced.
structure NewSlot (mem next : Memory) (pid : Nat) (slot : Slot) : Prop where
  taskTable : next.s.kernel.taskTable = Function.update mem.s.kernel.taskTable pid slot
  others : ∀ root, (∀ pid field, root ≠ .task pid field) → next.root root = mem.root root

theorem NewSlot.self {slot : Slot} (hnew : NewSlot mem next pid slot) (field : Field) :
    next.root (.task pid field) = Slot.field slot field := by
  simp [Memory.root, hnew.taskTable]

theorem NewSlot.root_ne {slot : Slot} {root : Root} (hnew : NewSlot mem next pid slot)
    (hne : ∀ field, root ≠ .task pid field) : next.root root = mem.root root := by
  cases root with
  | task other field =>
      have hother : other ≠ pid := fun h => hne field (by rw [h])
      simp [Memory.root, hnew.taskTable, Function.update_of_ne hother]
  | cachedFiles => exact hnew.others _ (by simp)
  | allocMap slot => exact hnew.others _ (by simp)
  | devfsHandles => exact hnew.others _ (by simp)
  | echfsHandles => exact hnew.others _ (by simp)
  | other name => exact hnew.others _ (by simp)

-- A record with the pointers of the old one, and one in which a pointer is another.
theorem NewSlot.root_same {slot : Slot} (hnew : NewSlot mem next pid slot)
    (hsame : ∀ field, Slot.field slot field = mem.root (.task pid field)) : next.root = mem.root := by
  funext root
  by_cases htask : ∃ field, root = .task pid field
  · obtain ⟨field, rfl⟩ := htask
    rw [hnew.self, hsame]
  · exact hnew.root_ne fun field h => htask ⟨field, h⟩

theorem NewSlot.root_update {slot : Slot} {changed : Field} (hnew : NewSlot mem next pid slot)
    (hself : Slot.field slot changed = new)
    (hsame : ∀ field, field ≠ changed → Slot.field slot field = mem.root (.task pid field)) :
    next.root = Function.update mem.root (.task pid changed) new := by
  funext root
  by_cases hchanged : root = .task pid changed
  · rw [hchanged, Function.update_self, hnew.self, hself]
  · rw [Function.update_of_ne hchanged]
    by_cases htask : ∃ field, root = .task pid field
    · obtain ⟨field, rfl⟩ := htask
      rw [hnew.self, hsame field fun h => hchanged (by rw [h])]
    · exact hnew.root_ne fun field h => htask ⟨field, h⟩

theorem root_task {address : Nat} {task : Task} (hslot : mem.s.kernel.taskTable pid = .task address task)
    (field : Field) : mem.root (.task pid field) = Slot.field (.task address task) field := by
  rw [Memory.root, hslot]

theorem newSlot_kernel (mem : Memory) (kernel : Kernel) (live : List Nat) {slot : Slot}
    (htable : kernel.taskTable = Function.update mem.s.kernel.taskTable pid slot)
    (hothers : kernel.others = mem.s.kernel.others) :
    NewSlot mem { mem with s.kernel := kernel, live := live } pid slot := by
  refine ⟨htable, ?_⟩
  intro root hroot
  cases root with
  | task other field => exact absurd rfl (hroot other field)
  | other name => exact congrFun hothers name
  | cachedFiles => rfl
  | allocMap slot => rfl
  | devfsHandles => rfl
  | echfsHandles => rfl

-- The table of a task stays where it is, or goes where krealloc has put it.
theorem createFileHandleV2_slot {k : Kernel} {address : Nat} {task : Task}
    (hslot : k.taskTable pid = .task address task) (entry : FileHandleV2) :
    ∃ pointer, (createFileHandleV2 k pid entry).taskTable = Function.update k.taskTable pid
        (.task address { task with
          fileHandlesV2 := pointer
          handlesV2 := (SlotTable.create (·.free) task.handlesV2 entry).2 }) ∧
      (createFileHandleV2 k pid entry).others = k.others ∧
      (task.handlesV2.any (·.free) = true → pointer = task.fileHandlesV2) := by
  unfold createFileHandleV2
  rw [hslot]
  dsimp only
  split
  · exact ⟨_, rfl, rfl, fun _ => rfl⟩
  · rename_i hfull
    exact ⟨_, rfl, rfl, fun hfree => absurd hfree hfull⟩

theorem createDescriptor_accounts {entry : FileHandleV2} {result : Int × Memory}
    (hcreate : mem.createDescriptor pid entry = some result) : Accounts mem result.2 := by
  unfold Memory.createDescriptor State.createDescriptor at hcreate
  dsimp only at hcreate
  cases hslot : mem.s.kernel.taskTable pid with
  | null => simp [createFileHandleV2, hslot, State.table, Slot.handlesV2, Slot.field] at hcreate
  | empty => simp [createFileHandleV2, hslot, State.table, Slot.handlesV2, Slot.field] at hcreate
  | task address task =>
      obtain ⟨pointer, htable, hothers, hfree⟩ := createFileHandleV2_slot hslot entry
      have hdescriptors : mem.s.table pid = task.handlesV2 := by rw [State.table, hslot, Slot.handlesV2]
      rw [hdescriptors, htable, Function.update_self] at hcreate
      split at hcreate
      · rename_i hany
        cases hcreate
        refine .of_same ((newSlot_kernel mem _ mem.live htable hothers).root_same ?_) rfl
        intro field
        rw [root_task hslot, hfree hany]
        cases field <;> rfl
      · split at hcreate
        · cases hcreate
        · rename_i hne
          cases hcreate
          refine .of_move (.task pid .descriptors) hne ?_ rfl
          refine (newSlot_kernel mem _ _ htable hothers).root_update rfl ?_
          intro field hfield
          rw [root_task hslot]
          cases field with
          | descriptors => exact absurd rfl hfield
          | entry => rfl
          | image => rfl
          | handles => rfl
          | ldt => rfl

theorem createFileHandle_slot {k : Kernel} {address : Nat} {task : Task}
    (hslot : k.taskTable pid = .task address task) :
    ∃ pointer count, (createFileHandle k pid).taskTable = Function.update k.taskTable pid
        (.task address { task with fileHandles := pointer, fileHandlesPtr := count }) ∧
      (createFileHandle k pid).others = k.others := by
  unfold createFileHandle
  rw [hslot]
  exact ⟨_, _, rfl, rfl⟩

theorem createHandle_accounts (hcreate : mem.createHandle pid = some next) : Accounts mem next := by
  unfold Memory.createHandle at hcreate
  dsimp only at hcreate
  cases hslot : mem.s.kernel.taskTable pid with
  | null => simp [createFileHandle, hslot, Slot.field] at hcreate
  | empty => simp [createFileHandle, hslot, Slot.field] at hcreate
  | task address task =>
      obtain ⟨pointer, count, htable, hothers⟩ := createFileHandle_slot hslot
      rw [htable, Function.update_self] at hcreate
      split at hcreate
      · cases hcreate
      · rename_i hne
        cases hcreate
        refine .of_move (.task pid .handles) hne ?_ rfl
        refine (newSlot_kernel mem _ _ htable hothers).root_update rfl ?_
        intro field hfield
        rw [root_task hslot]
        cases field with
        | handles => exact absurd rfl hfield
        | entry => rfl
        | image => rfl
        | descriptors => rfl
        | ldt => rfl

-- A state with the pointers of another.
structure SamePointers (s next : State) : Prop where
  tasks : ∀ pid field, Slot.field (next.kernel.taskTable pid) field = Slot.field (s.kernel.taskTable pid) field
  others : next.kernel.others = s.kernel.others
  cachedFiles : next.cachedFiles = s.cachedFiles
  count : next.cachedFilesPtr = s.cachedFilesPtr

theorem SamePointers.refl (s : State) : SamePointers s s := ⟨fun _ _ => rfl, rfl, rfl, rfl⟩

theorem SamePointers.trans {s middle next : State} (hfirst : SamePointers s middle)
    (hsecond : SamePointers middle next) : SamePointers s next where
  tasks pid field := (hsecond.tasks pid field).trans (hfirst.tasks pid field)
  others := hsecond.others.trans hfirst.others
  cachedFiles := hsecond.cachedFiles.trans hfirst.cachedFiles
  count := hsecond.count.trans hfirst.count

theorem Accounts.of_pointers {s : State} (hsame : SamePointers mem.s s) :
    Accounts mem { mem with s := s } := by
  refine .of_same ?_ rfl
  funext root
  cases root with
  | task pid field => exact hsame.tasks pid field
  | cachedFiles => exact hsame.cachedFiles
  | allocMap slot => simp only [Memory.root, hsame.count]
  | devfsHandles => rfl
  | echfsHandles => rfl
  | other name => exact congrFun hsame.others name

theorem Accounts.of_state {s : State} (hkernel : s.kernel = mem.s.kernel)
    (hfiles : s.cachedFiles = mem.s.cachedFiles) (hcount : s.cachedFilesPtr = mem.s.cachedFilesPtr) :
    Accounts mem { mem with s := s } :=
  .of_pointers ⟨fun pid field => by rw [hkernel], by rw [hkernel], hfiles, hcount⟩

-- The handle that vfs_kopen gets for a device.
def deviceHandle (s : State) (device : Nat) : DevfsHandle where
  path := (s.devices[device]?.map (·.name)).getD []
  flags := O_RDWR
  finish := (s.devices[device]?.map (·.size)).getD 0
  isblock := (s.devices[device]?.map (·.size)).getD 0 = 0
  device := device

theorem descriptors_eq (s : State) :
    Memory.descriptors s = Slot.field (s.kernel.taskTable 0) .descriptors := by
  unfold Memory.descriptors
  cases s.kernel.taskTable 0 <;> rfl

theorem kopen_eq (mem : Memory) (device : Nat) : mem.kopen device = mem.growDevfs.bind fun grown =>
    ({ grown with s := (devfsCreateHandle grown.s (deviceHandle grown.s device)).2 } :
      Memory).createDescriptor 0
        { mountpoint := grown.s.devMountpoint
          internalHandle := (devfsCreateHandle grown.s (deviceHandle grown.s device)).1 } := by
  unfold Memory.kopen
  congr 1
  funext grown
  simp only [descriptors_eq]
  rfl

theorem kopen_accounts {result : Int × Memory} (hopen : mem.kopen device = some result) :
    Accounts mem result.2 := by
  rw [kopen_eq] at hopen
  obtain ⟨grown, hgrow, hcreate⟩ := Option.bind_eq_some_iff.mp hopen
  have hstate : Accounts grown
      { grown with s := (devfsCreateHandle grown.s (deviceHandle grown.s device)).2 } :=
    .of_state rfl rfl rfl
  exact ((growDevfs_accounts hgrow).trans hstate).trans (createDescriptor_accounts hcreate)

theorem openCached_accounts {size : Nat} {result : Int × Memory}
    (hopen : mem.openCached m device path flags size = some result) : Accounts mem result.2 := by
  obtain ⟨cached, hcache, hopen⟩ := Option.bind_eq_some_iff.mp hopen
  obtain ⟨opened, hkopen, hopen⟩ := Option.bind_eq_some_iff.mp hopen
  obtain ⟨grown, hgrow, rfl⟩ := Option.map_eq_some_iff.mp hopen
  have hopened := (cacheFile_accounts hcache).trans (kopen_accounts hkopen)
  exact (hopened.trans (growEchfs_accounts hgrow)).trans (.of_state rfl rfl rfl)

-- A removal that takes no file out of the cache.
theorem remove_accounts (hfound : mem.s.findCached path = none) {result : Int × Memory}
    (hremove : mem.remove m device path = some result) :
    Accounts mem result.2 ∧ result.2.s.kernel = mem.s.kernel := by
  have hsearch := search_accounts mem path
  have hsame : (mem.search path).s = mem.s := by
    unfold Memory.search
    rw [hfound]
    rfl
  unfold Memory.remove at hremove
  rw [hfound] at hremove
  obtain ⟨removed, -, rfl⟩ := Option.map_eq_some_iff.mp hremove
  cases removed with
  | none =>
      refine ⟨hsearch, ?_⟩
      rw [hsame]
  | some disk =>
      refine ⟨hsearch.trans (.of_state rfl rfl rfl), ?_⟩
      rw [← hsame]
      rfl

theorem truncate_accounts {size : Nat} (hfound : flags &&& O_TRUNC ≠ 0 → mem.s.findCached path = none)
    {result : Nat × Memory} (htruncate : mem.truncate m device path flags size = some result) :
    Accounts mem result.2 := by
  unfold Memory.truncate at htruncate
  by_cases hflags : flags &&& O_TRUNC = 0
  · rw [if_pos hflags] at htruncate
    cases htruncate
    exact .refl _
  · rw [if_neg hflags] at htruncate
    obtain ⟨removed, hremove, hcreate⟩ := Option.bind_eq_some_iff.mp htruncate
    obtain ⟨created, -, rfl⟩ := Option.map_eq_some_iff.mp hcreate
    have hremoved := (remove_accounts (hfound hflags) hremove).1
    cases created with
    | none => exact hremoved.trans (.of_state rfl rfl rfl)
    | some disk => exact hremoved.trans (.of_state rfl rfl rfl)

theorem openFile_accounts (hkeeps : ¬ RemovesCached mem ⟨m, device, .open path flags⟩)
    {result : Int × Memory} (hopen : mem.openFile m device path flags = some result) :
    Accounts mem result.2 := by
  obtain ⟨found, hfound, hopen⟩ := Option.bind_eq_some_iff.mp hopen
  cases found with
  | none =>
      cases hopen
      exact .refl _
  | some found =>
      obtain ⟨ready, htruncate, hopen⟩ := Option.bind_eq_some_iff.mp hopen
      obtain ⟨hkernel, hfiles, hcount, -⟩ := findOrCreate_kernel hfound
      have hfirst := Accounts.of_state hkernel hfiles hcount
      have htruncated := truncate_accounts (uncached_of_truncate hkeeps hfound) htruncate
      exact (hfirst.trans htruncated).trans (openCached_accounts hopen)

theorem devfsOpen_same (s : State) (path : Path) (flags : Nat) :
    (devfsOpen s path flags).2.kernel = s.kernel ∧
      (devfsOpen s path flags).2.cachedFiles = s.cachedFiles ∧
      (devfsOpen s path flags).2.cachedFilesPtr = s.cachedFilesPtr := by
  unfold devfsOpen
  split
  · exact ⟨rfl, rfl, rfl⟩
  · split
    · exact ⟨rfl, rfl, rfl⟩
    · exact ⟨rfl, rfl, rfl⟩

variable {mountpoint : Int}

theorem OpenKeeps.of_flags (mem : Memory) (mountpoint : Int) (path : Path)
    (hflags : flags &&& O_TRUNC = 0) : OpenKeeps mem mountpoint path flags :=
  fun _ _ _ hremoves => hremoves.1 hflags

theorem vfsOpen_accounts (hkeeps : OpenKeeps mem mountpoint path flags) {result : Int × Memory}
    (hopen : mem.vfsOpen pid mountpoint path flags = some result) : Accounts mem result.2 := by
  obtain ⟨opened, hinternal, hopen⟩ := Option.bind_eq_some_iff.mp hopen
  have hopened : Accounts mem opened.2 := by
    unfold Memory.internalOpen at hinternal
    split at hinternal
    · cases hinternal
      exact .refl _
    · unfold Memory.devfsOpen at hinternal
      split at hinternal
      · cases hinternal
        exact .refl _
      · obtain ⟨grown, hgrow, rfl⟩ := Option.map_eq_some_iff.mp hinternal
        obtain ⟨hkernel, hfiles, hcount⟩ := devfsOpen_same grown.s path flags
        exact (growDevfs_accounts hgrow).trans (.of_state hkernel hfiles hcount)
    · rename_i m device hmount
      exact openFile_accounts (hkeeps m device hmount) hinternal
  split at hopen
  · cases hopen
    exact hopened
  · exact hopened.trans (createDescriptor_accounts hopen)

theorem devfsFork_accounts {result : Int × Memory} (hfork : mem.devfsFork handle = some result) :
    Accounts mem result.2 := by
  obtain ⟨entry, -, hfork⟩ := Option.bind_eq_some_iff.mp hfork
  obtain ⟨grown, hgrow, rfl⟩ := Option.map_eq_some_iff.mp hfork
  exact (growDevfs_accounts hgrow).trans (.of_state rfl rfl rfl)

theorem internalFork_accounts {descriptor : FileHandleV2} {result : Int × Memory}
    (hfork : mem.internalFork descriptor = some result) : Accounts mem result.2 := by
  unfold Memory.internalFork at hfork
  split at hfork
  · cases hfork
  · exact devfsFork_accounts hfork
  · obtain ⟨entry, -, hfork⟩ := Option.bind_eq_some_iff.mp hfork
    obtain ⟨forked, hkfork, hfork⟩ := Option.bind_eq_some_iff.mp hfork
    obtain ⟨grown, hgrow, rfl⟩ := Option.map_eq_some_iff.mp hfork
    have hforked : Accounts mem forked.2 := by
      unfold Memory.vfsKfork at hkfork
      dsimp only at hkfork
      split at hkfork
      · cases hkfork
        exact .refl _
      · obtain ⟨copied, hcopy, hcreate⟩ := Option.bind_eq_some_iff.mp hkfork
        exact (devfsFork_accounts hcopy).trans (createDescriptor_accounts hcreate)
      · cases hkfork
    exact (hforked.trans (growEchfs_accounts hgrow)).trans (.of_state rfl rfl rfl)

theorem cloneDescriptors_accounts {table : List FileHandleV2} {cloned : List FileHandleV2 × Memory}
    (hclone : mem.cloneDescriptors table = some cloned) : Accounts mem cloned.2 := by
  induction table generalizing mem cloned with
  | nil =>
      cases hclone
      exact .refl _
  | cons descriptor rest ih =>
      rw [Memory.cloneDescriptors] at hclone
      split at hclone
      · obtain ⟨tail, htail, rfl⟩ := Option.map_eq_some_iff.mp hclone
        have hrest := ih htail
        exact hrest
      · obtain ⟨forked, hfork, hclone⟩ := Option.bind_eq_some_iff.mp hclone
        obtain ⟨tail, htail, rfl⟩ := Option.map_eq_some_iff.mp hclone
        have hrest := ih htail
        exact (internalFork_accounts hfork).trans hrest

section Close

variable {s : State}

theorem setTable_pointers (s : State) (pid : Nat) (table : List FileHandleV2) :
    SamePointers s (s.setTable pid table) := by
  unfold State.setTable
  cases hslot : s.kernel.taskTable pid with
  | null => exact .refl s
  | empty => exact .refl s
  | task address task =>
      refine ⟨?_, rfl, rfl, rfl⟩
      intro other field
      dsimp only [Kernel.setTask]
      by_cases heq : other = pid
      · rw [heq, Function.update_self, hslot]
        cases field <;> rfl
      · rw [Function.update_of_ne heq]

theorem finishClose_pointers (s : State) (pid : Nat) (handle ret : Int) :
    SamePointers s (finishClose s pid handle ret).2 := by
  unfold finishClose
  split
  · exact .refl s
  · split
    · exact .refl s
    · split
      · exact .refl s
      · exact setTable_pointers s pid _

theorem devfsClose_pointers (s : State) (handle : Int) : SamePointers s (devfsClose s handle).2 := by
  unfold devfsClose
  split
  · exact .refl s
  · split
    · exact .refl s
    · exact ⟨fun _ _ => rfl, rfl, rfl, rfl⟩

theorem echfsClose_pointers {closed : Int × State} (hclose : echfsClose s handle = some closed) :
    SamePointers s closed.2 := by
  unfold echfsClose at hclose
  split at hclose
  · cases hclose
    exact .refl s
  · split at hclose
    · cases hclose
      exact .refl s
    · obtain ⟨kernel, hkclose, rfl⟩ := Option.map_eq_some_iff.mp hclose
      have hkernel : SamePointers s kernel.2 := by
        unfold vfsKclose at hkclose
        split at hkclose
        · cases hkclose
          exact (devfsClose_pointers s _).trans (finishClose_pointers _ _ _ _)
        · cases hkclose
      exact hkernel.trans ⟨fun _ _ => rfl, rfl, rfl, rfl⟩

theorem vfsClose_accounts {result : Int × Memory} (hclose : mem.vfsClose pid handle = some result) :
    Accounts mem result.2 := by
  obtain ⟨closed, hclosed, rfl⟩ := Option.map_eq_some_iff.mp hclose
  obtain ⟨internal, hinternal, rfl⟩ := Option.map_eq_some_iff.mp hclosed
  refine .of_pointers (SamePointers.trans ?_ (finishClose_pointers _ _ _ _))
  unfold State.internalClose at hinternal
  split at hinternal
  · cases hinternal
  · cases hinternal
    exact devfsClose_pointers _ _
  · exact echfsClose_pointers hinternal

end Close

theorem alloc_spec (mem : Memory) (size : Nat) : ∃ heap,
    ((mem.alloc size).1 = 0 → (mem.alloc size).2 = { mem with s.kernel.heap := heap }) ∧
    ((mem.alloc size).1 ≠ 0 → (mem.alloc size).2 =
      { mem with s.kernel.heap := heap, live := (mem.alloc size).1 :: mem.live }) := by
  unfold Memory.alloc
  dsimp only
  split
  · exact ⟨_, fun _ => rfl, fun hne => absurd rfl hne⟩
  · rename_i hne
    exact ⟨_, fun hnull => absurd hnull hne, fun _ => rfl⟩

-- An object that a local variable gets.
theorem alloc_accounts {held : List Nat} (haccounted : Accounted held mem.root mem.live) (size : Nat)
    (hne : (mem.alloc size).1 ≠ 0) :
    Accounted ((mem.alloc size).1 :: held) (mem.alloc size).2.root (mem.alloc size).2.live := by
  obtain ⟨heap, -, hsome⟩ := alloc_spec mem size
  rw [hsome hne, root_setHeap]
  exact haccounted.alloc hne

theorem alloc_null_accounts (mem : Memory) (size : Nat) (hnull : (mem.alloc size).1 = 0) :
    Accounts mem (mem.alloc size).2 := by
  obtain ⟨heap, hnone, -⟩ := alloc_spec mem size
  rw [hnone hnull]
  exact .of_same (root_setHeap mem heap mem.live) rfl

theorem free_accounts {held : List Nat} {ptr : Nat} (haccounted : Accounted (ptr :: held) mem.root mem.live) :
    Accounted held (mem.free ptr).root (mem.free ptr).live := by
  unfold Memory.free
  rw [root_setHeap]
  exact haccounted.free

theorem field_free {slot : Slot} (hfree : slot.status = none) (field : Field) :
    Slot.field slot field = 0 := by
  cases slot with
  | task address task => cases hfree
  | null => cases field <;> rfl
  | empty => cases field <;> rfl

theorem handlesV2_free {slot : Slot} (hfree : slot.status = none) : Slot.handlesV2 slot = [] := by
  cases slot with
  | task address task => cases hfree
  | null => rfl
  | empty => rfl

-- A new task has a free number and an object for its record; else only a free entry is marked.
theorem taskCreate_spec (mem : Memory) (new : Task) :
    ((mem.taskCreate new).1 = none ∧
      (freePid mem.s.kernel.taskTable KRNL_MAX_TASKS 0 = none ∨
        (kalloc mem.s.kernel.heap SIZEOF_TASK).1 = 0) ∧
      ∃ kernel, (mem.taskCreate new).2 = { mem with s.kernel := kernel } ∧
        kernel.others = mem.s.kernel.others ∧
        ∀ pid, kernel.taskTable pid = mem.s.kernel.taskTable pid ∨
          (kernel.taskTable pid).status = none ∧ (mem.s.kernel.taskTable pid).status = none) ∨
    ∃ child address kernel, (mem.taskCreate new).1 = some child ∧ address ≠ 0 ∧
      (mem.s.kernel.taskTable child).status = none ∧
      (mem.taskCreate new).2 = { mem with s.kernel := kernel, live := address :: mem.live } ∧
      kernel.taskTable = Function.update mem.s.kernel.taskTable child (.task address new) ∧
      kernel.others = mem.s.kernel.others := by
  unfold Memory.taskCreate EchidnaOS.taskCreate
  split
  · rename_i hnone
    exact Or.inl ⟨rfl, Or.inl hnone, _, rfl, rfl, fun _ => Or.inl rfl⟩
  · rename_i child hfound
    have hfree := (freePid_free hfound).2
    split
    · rename_i hnull
      refine Or.inl ⟨rfl, Or.inr hnull, _, rfl, rfl, ?_⟩
      intro pid
      dsimp only
      by_cases heq : pid = child
      · rw [heq, Function.update_self]
        exact Or.inr ⟨rfl, hfree⟩
      · exact Or.inl (Function.update_of_ne heq _ _)
    · rename_i hne
      refine Or.inr ⟨child, (kalloc mem.s.kernel.heap SIZEOF_TASK).1,
        { mem.s.kernel with
          heap := (kalloc mem.s.kernel.heap SIZEOF_TASK).2
          taskTable := Function.update mem.s.kernel.taskTable child
            (.task (kalloc mem.s.kernel.heap SIZEOF_TASK).1 new) }, rfl, hne, hfree, ?_, rfl, rfl⟩
      simp [Slot.field]

-- The record of a new task takes over pointers from local variables.
theorem NewSlot.created {held mine : List Nat} {child address : Nat} {new : Task}
    (hnew : NewSlot mem next child (.task address new)) (hne : address ≠ 0)
    (hfree : (mem.s.kernel.taskTable child).status = none) (hlive : next.live = address :: mem.live)
    (hmine : ∀ ptr ∈ mine, ∃ field, Slot.field (.task address new) field = ptr)
    (haccounted : Accounted (mine ++ held) mem.root mem.live) : Accounted held next.root next.live := by
  rw [hlive]
  refine (haccounted.alloc hne).mono (fun _ h => h) ?_ ?_
  · intro ptr hptr
    rcases List.mem_cons.mp hptr with rfl | hptr
    · exact Or.inr ⟨.task child .entry, hnew.self _⟩
    · rcases List.mem_append.mp hptr with hptr | hptr
      · obtain ⟨field, hfield⟩ := hmine ptr hptr
        exact Or.inr ⟨.task child field, (hnew.self field).trans hfield⟩
      · exact Or.inl hptr
  · intro root hroot _
    refine ⟨root, hnew.root_ne ?_⟩
    rintro field rfl
    exact hroot (field_free hfree field)

end EchidnaOS.Vfs
