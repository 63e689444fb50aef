import EchidnaOS.Vfs.Ownership.Tasks

namespace EchidnaOS.Vfs

open EchidnaOS.Lib EchidnaOS.Lib.Roots EchidnaOS.Lib.SlotTable EchidnaOS.Lib.Reference
  EchidnaOS.Klib EchidnaOS.Devfs EchidnaOS.Echfs

variable {mem later : Memory} {pid child address : Nat} {held mine : List Nat} {partitions : List Int}
  {pending : List Node} {new : Task}

theorem setHeap_quiet (mem : Memory) (heap : Heap) (live : List Nat) :
    Quiet mem.s ({ mem with s.kernel.heap := heap, live := live } : Memory).s :=
  ⟨rfl, rfl, rfl, rfl, rfl⟩

theorem alloc_quiet (mem : Memory) (size : Nat) : Quiet mem.s (mem.alloc size).2.s := by
  obtain ⟨heap, hnull, hsome⟩ := alloc_spec mem size
  by_cases hzero : (mem.alloc size).1 = 0
  · rw [hnull hzero]
    exact setHeap_quiet mem heap mem.live
  · rw [hsome hzero]
    exact setHeap_quiet mem heap _

theorem free_quiet (mem : Memory) (ptr : Nat) : Quiet mem.s (mem.free ptr).s :=
  setHeap_quiet mem (kfree mem.s.kernel.heap ptr) (mem.live.filter (· ≠ ptr))

theorem Holds.alloc (hholds : Holds partitions held mem) (size : Nat) :
    ((mem.alloc size).1 = 0 → Holds partitions held (mem.alloc size).2) ∧
    ((mem.alloc size).1 ≠ 0 → Holds partitions ((mem.alloc size).1 :: held) (mem.alloc size).2) := by
  have hsame := (alloc_quiet mem size).nodes
  constructor
  · intro hzero
    exact hholds.of_same hsame (alloc_null_accounts mem size hzero)
  · intro hne
    refine ⟨hsame.attached hholds.attached, ?_, alloc_accounts hholds.accounted size hne⟩
    rw [hsame.refers]
    exact hholds.covered

theorem Holds.free {ptr : Nat} (hholds : Holds partitions (ptr :: held) mem) :
    Holds partitions held (mem.free ptr) := by
  have hsame : SameNodes mem.s (mem.free ptr).s := (free_quiet mem ptr).nodes
  refine ⟨hsame.attached hholds.attached, ?_, free_accounts hholds.accounted⟩
  rw [hsame.refers]
  exact hholds.covered

-- No task comes of it; an entry may be marked as free.
theorem Holds.notCreated (hholds : Holds partitions held mem) {kernel : Kernel}
    (hothers : kernel.others = mem.s.kernel.others)
    (htable : ∀ pid, kernel.taskTable pid = mem.s.kernel.taskTable pid ∨
      (kernel.taskTable pid).status = none ∧ (mem.s.kernel.taskTable pid).status = none) :
    Holds partitions held { mem with s.kernel := kernel } := by
  refine hholds.of_same ⟨⟨?_, rfl, rfl⟩, refers_same ⟨rfl, rfl, rfl, rfl⟩ ?_⟩ ?_
  · intro pid
    rcases htable pid with heq | ⟨hfree, hfree'⟩
    · exact congrArg Slot.status heq
    · exact hfree.trans hfree'.symm
  · funext pid
    rcases htable pid with heq | ⟨hfree, hfree'⟩
    · exact congrArg Slot.handlesV2 heq
    · exact (handlesV2_free hfree).trans (handlesV2_free hfree').symm
  · refine .of_pointers ⟨?_, hothers, rfl, rfl⟩
    intro pid field
    rcases htable pid with heq | ⟨hfree, hfree'⟩
    · exact congrArg (Slot.field · field) heq
    · exact (field_free hfree field).trans (field_free hfree' field).symm

-- A new task, with handles and objects that nobody else has.
structure NewTask (mem later : Memory) (child address : Nat) (new : Task) (mine : List Nat)
    (pending : List Node) : Prop where
  slot : NewSlot mem later child (.task address new)
  drivers : SameDrivers mem.s later.s
  live : later.live = address :: mem.live
  address_ne : address ≠ 0
  free : (mem.s.kernel.taskTable child).status = none
  pointers : ∀ ptr ∈ mine, ∃ field, Slot.field (.task address new) field = ptr
  fresh : ∀ handle entry there, inUse (·.free) new.handlesV2 handle = some entry →
    mem.s.internal entry = some there → Fresh mem.s.refers there
  distinct : ∀ first second entry entry' there, inUse (·.free) new.handlesV2 first = some entry →
    inUse (·.free) new.handlesV2 second = some entry' → mem.s.internal entry = some there →
    mem.s.internal entry' = some there → first = second
  handles : ∀ node ∈ pending, ∃ handle entry, inUse (·.free) new.handlesV2 handle = some entry ∧
    mem.s.internal entry = some node

theorem refers_free (hfree : (mem.s.kernel.taskTable child).status = none) (handle : Int) :
    mem.s.refers (.descriptor child handle) = none := by
  rw [State.refers, State.table, handlesV2_free hfree]
  simp [inUse, entryAt]

theorem child_ne_zero (hattached : Attached mem.s)
    (hfree : (mem.s.kernel.taskTable child).status = none) : 0 ≠ child := by
  rintro rfl
  rw [hattached.kernel] at hfree
  cases hfree

theorem NewTask.holds (hnew : NewTask mem later child address new mine pending)
    (hattached : Attached mem.s) (hcovered : Covered partitions pending mem.s.refers)
    (haccounted : Accounted (mine ++ held) mem.root mem.live) : Holds partitions held later := by
  have hnone := refers_free hnew.free
  have htable : later.s.table = Function.update mem.s.table child new.handlesV2 := by
    funext pid
    rw [State.table, hnew.slot.taskTable]
    by_cases heq : pid = child
    · rw [heq, Function.update_self, Function.update_self]
      rfl
    · rw [Function.update_of_ne heq, Function.update_of_ne heq]
      rfl
  have hrefers := refers_graft hnew.drivers htable
  have hkernel : (later.s.kernel.taskTable 0).status = (mem.s.kernel.taskTable 0).status := by
    have hne := child_ne_zero hattached hnew.free
    rw [hnew.slot.taskTable, Function.update_of_ne hne]
  constructor
  · refine hnew.drivers.attached hattached hkernel ?_
    rw [hrefers]
    refine hattached.chained.graft hnone ?_ ?_
    · intro handle there hthere
      obtain ⟨entry, hentry, hinternal⟩ := Option.map_eq_some_iff.mp hthere
      exact hnew.fresh handle entry there hentry hinternal
    · intro first second there hfirst hsecond
      obtain ⟨entry, hentry, hinternal⟩ := Option.map_eq_some_iff.mp hfirst
      obtain ⟨entry', hentry', hinternal'⟩ := Option.map_eq_some_iff.mp hsecond
      exact hnew.distinct first second entry entry' there hentry hentry' hinternal hinternal'
  · rw [hrefers]
    refine hcovered.graft hnone ?_
    intro node hnode
    obtain ⟨handle, entry, hentry, hinternal⟩ := hnew.handles node hnode
    exact ⟨handle, by rw [hentry, Option.map_some, hinternal]⟩
  · exact hnew.slot.created hnew.address_ne hnew.free hnew.live hnew.pointers haccounted

-- The record that task_create has put in, replaced by another.
theorem newSlot_created {kernel : Kernel} {slot : Slot}
    (htable : kernel.taskTable = Function.update mem.s.kernel.taskTable child slot)
    (hothers : kernel.others = mem.s.kernel.others) (live : List Nat) (address : Nat) (changed : Task) :
    NewSlot mem (({ mem with s.kernel := kernel, live := live } : Memory).setSlot child address changed)
      child (.task address changed) := by
  refine newSlot_kernel mem _ live ?_ hothers
  dsimp only [Kernel.setTask]
  rw [htable, Function.update_idem]

theorem Holds.launch {base : Nat} (hholds : Holds partitions (base :: held) mem) {info : TaskInfo}
    {file : ProgramFile} {streams : Streams} (hlaunch : mem.launch pid base info file streams = some later) :
    Holds partitions held later := by
  unfold Memory.launch at hlaunch
  rcases taskCreate_spec mem (newTask pid base file) with ⟨hnone, -, kernel, hcreated, hothers, htable⟩ |
    ⟨child, address, kernel, hsome, hne, hfree, hcreated, htable, hothers⟩
  · dsimp only at hlaunch
    rw [hnone, hcreated] at hlaunch
    cases hlaunch
    exact (hholds.notCreated hothers htable).free
  · dsimp only at hlaunch
    rw [hsome, hcreated] at hlaunch
    obtain ⟨opened, hopen, rfl⟩ := Option.map_eq_some_iff.mp hlaunch
    have haddress : Memory.root { mem with s.kernel := kernel, live := address :: mem.live }
        (.task child .entry) = address := by
      simp [Memory.root, htable, Slot.field]
    rw [haddress] at hopen
    have hslot := newSlot_created htable hothers (address :: mem.live) address
      (setupTask (newTask pid base file) file info)
    have hnew : NewTask mem _ child address (setupTask (newTask pid base file) file info) [base] [] :=
      { slot := hslot
        drivers := ⟨rfl, rfl, rfl, rfl⟩
        live := rfl
        address_ne := hne
        free := hfree
        pointers := fun ptr hptr => ⟨.image, (List.mem_singleton.mp hptr).symm⟩
        fresh := by simp [setupTask, newTask, inUse, entryAt]
        distinct := by simp [setupTask, newTask, inUse, entryAt]
        handles := by simp }
    have hcreatedHolds := hnew.holds hholds.attached hholds.covered hholds.accounted
    have hlive : ∀ next : Memory, NewSlot mem next child
        (.task address (setupTask (newTask pid base file) file info)) →
        (next.s.kernel.taskTable child).status ≠ none := by
      intro next hnext
      rw [hnext.taskTable, Function.update_self]
      simp [Slot.status]
    have hchild := (child_ne_zero hholds.attached hfree).symm
    have hopened := (hcreatedHolds.openStreams hchild (hlive _ hslot) hopen).1
    exact hopened.of_same (setHeap_quiet opened _ opened.live).nodes
      (.of_same (root_setHeap opened _ opened.live) rfl)

theorem Holds.generalExecute (hholds : Holds partitions held mem) {info : TaskInfo} {program : Target}
    {streams : Streams} (hexecute : mem.generalExecute pid info program streams = some later) :
    Holds partitions held later := by
  unfold Memory.generalExecute at hexecute
  split at hexecute
  · cases hexecute
    exact hholds
  · rename_i size _
    obtain ⟨hnull, hsome⟩ := hholds.alloc (programPages size * PAGE_SIZE % 2 ^ 32)
    dsimp only at hexecute
    split at hexecute
    · rename_i hzero
      cases hexecute
      exact hnull hzero
    · rename_i hne
      obtain ⟨loaded, hload, hlaunch⟩ := Option.bind_eq_some_iff.mp hexecute
      exact ((hsome hne).loadProgram hload).1.launch hlaunch

section Fork

variable {address' : Nat} {task : Task} {copies : Copies} {copied : Memory}

theorem createDescriptor_tasks {other : Nat} {entry : FileHandleV2} {result : Int × Memory}
    (hne : other ≠ pid) (hcreate : mem.createDescriptor pid entry = some result) :
    result.2.s.kernel.taskTable other = mem.s.kernel.taskTable other := by
  rw [(createDescriptor_state hcreate).2, State.createDescriptor]
  dsimp only
  cases hslot : mem.s.kernel.taskTable pid with
  | null => simp [createFileHandleV2, hslot]
  | empty => simp [createFileHandleV2, hslot]
  | task address task =>
      obtain ⟨pointer, htable, -⟩ := createFileHandleV2_slot hslot entry
      rw [htable, Function.update_of_ne hne]

theorem devfsFork_tasks {handle : Int} {result : Int × Memory} (hfork : mem.devfsFork handle = some result) :
    result.2.s.kernel.taskTable = mem.s.kernel.taskTable := by
  obtain ⟨entry, -, hfork⟩ := Option.bind_eq_some_iff.mp hfork
  obtain ⟨grown, hgrow, rfl⟩ := Option.map_eq_some_iff.mp hfork
  exact (growDevfs_quiet hgrow).taskTable

-- The forks of handles touch no table but the kernel's.
theorem internalFork_tasks (hpid : pid ≠ 0) {descriptor : FileHandleV2} {result : Int × Memory}
    (hfork : mem.internalFork descriptor = some result) :
    result.2.s.kernel.taskTable pid = mem.s.kernel.taskTable pid := by
  unfold Memory.internalFork at hfork
  split at hfork
  · cases hfork
  · rw [devfsFork_tasks hfork]
  · obtain ⟨entry, -, hfork⟩ := Option.bind_eq_some_iff.mp hfork
    obtain ⟨forked, hkfork, hfork⟩ := Option.bind_eq_some_iff.mp hfork
    obtain ⟨grown, hgrow, rfl⟩ := Option.map_eq_some_iff.mp hfork
    have hgrown := congrFun (growEchfs_quiet hgrow).taskTable pid
    refine Eq.trans hgrown ?_
    unfold Memory.vfsKfork at hkfork
    dsimp only at hkfork
    split at hkfork
    · cases hkfork
      rfl
    · obtain ⟨copied, hcopy, hcreate⟩ := Option.bind_eq_some_iff.mp hkfork
      rw [createDescriptor_tasks hpid hcreate, devfsFork_tasks hcopy]
    · cases hkfork

theorem cloneDescriptors_tasks (hpid : pid ≠ 0) {table : List FileHandleV2}
    {cloned : List FileHandleV2 × Memory} (hclone : mem.cloneDescriptors table = some cloned) :
    cloned.2.s.kernel.taskTable pid = mem.s.kernel.taskTable pid ∧
      ((∀ entry ∈ table, entry.free = true) → ∀ entry ∈ cloned.1, entry.free = true) := by
  induction table generalizing mem cloned with
  | nil =>
      cases hclone
      exact ⟨rfl, fun h => h⟩
  | cons entry rest ih =>
      rw [Memory.cloneDescriptors] at hclone
      split at hclone
      · obtain ⟨tail, htail, rfl⟩ := Option.map_eq_some_iff.mp hclone
        obtain ⟨htable, hfree⟩ := ih htail
        refine ⟨htable, ?_⟩
        intro hall other hother
        rcases List.mem_cons.mp hother with rfl | hother
        · rfl
        · exact hfree (fun entry h => hall entry (List.mem_cons_of_mem _ h)) other hother
      · rename_i hused
        obtain ⟨forked, hfork, hclone⟩ := Option.bind_eq_some_iff.mp hclone
        obtain ⟨tail, htail, rfl⟩ := Option.map_eq_some_iff.mp hclone
        refine ⟨(ih htail).1.trans (internalFork_tasks hpid hfork), ?_⟩
        intro hall
        exact absurd (hall entry List.mem_cons_self) hused

theorem Cloned.before {s middle next : State} {cloned : List FileHandleV2} (hsame : SameNodes s middle)
    (hcloned : Cloned middle next cloned) : Cloned s next cloned := by
  obtain ⟨hsystem, hattached, hgrows, hfresh, hdistinct, hcovered⟩ := hcloned
  rw [entryNode_congr hsame.system.mountpoint] at hfresh hdistinct hcovered
  rw [hsame.refers] at hgrows hfresh hcovered
  exact ⟨hsame.system.trans hsystem, hattached, hgrows, hfresh, hdistinct, hcovered⟩

-- What task_fork has when it comes to the new task.
structure Copied (mem copied : Memory) (pid : Nat) (table : List FileHandleV2) (copies : Copies) : Prop where
  cloned : Cloned mem.s copied.s copies.descriptors
  accounted : Accounted [copies.base, copies.handles, copies.handlesV2] copied.root copied.live
  slot : copied.s.kernel.taskTable pid = mem.s.kernel.taskTable pid
  free : (∀ entry ∈ table, entry.free = true) → ∀ entry ∈ copies.descriptors, entry.free = true

theorem open_descriptor (htable : mem.s.table pid = task.handlesV2) :
    ∀ entry ∈ task.handlesV2, entry.free = false →
      ∃ source, mem.s.refers source = some (mem.s.internal entry) := by
  intro entry hentry hlive
  obtain ⟨handle, huse⟩ := mem_inUse (·.free) hentry hlive
  refine ⟨.descriptor pid handle, ?_⟩
  rw [State.refers, htable, huse]
  rfl

theorem Holds.forkCopies (hholds : Holds partitions [] mem) (hpid : pid ≠ 0)
    (htable : mem.s.table pid = task.handlesV2) {result : Option Copies × Memory}
    (hcopies : mem.forkCopies task = some result) :
    (result.1 = none → Holds partitions [] result.2 ∧
      result.2.s.kernel.taskTable pid = mem.s.kernel.taskTable pid) ∧
    ∀ copies, result.1 = some copies → Copied mem result.2 pid task.handlesV2 copies := by
  unfold Memory.forkCopies at hcopies
  dsimp only at hcopies
  obtain ⟨hnull, hsome⟩ := hholds.alloc (task.pages * PAGE_SIZE % 2 ^ 32)
  have hquiet := alloc_quiet mem (task.pages * PAGE_SIZE % 2 ^ 32)
  generalize mem.alloc (task.pages * PAGE_SIZE % 2 ^ 32) = base at *
  split at hcopies
  · rename_i hzero
    cases hcopies
    exact ⟨fun _ => ⟨hnull hzero, congrFun hquiet.taskTable pid⟩, nofun⟩
  rename_i hbase
  obtain ⟨hnull, hsome⟩ := (hsome hbase).alloc (task.fileHandlesPtr * SIZEOF_FILE_HANDLE % 2 ^ 32)
  have hquiet := hquiet.trans (alloc_quiet base.2 (task.fileHandlesPtr * SIZEOF_FILE_HANDLE % 2 ^ 32))
  generalize base.2.alloc (task.fileHandlesPtr * SIZEOF_FILE_HANDLE % 2 ^ 32) = handles at *
  split at hcopies
  · rename_i hzero
    cases hcopies
    exact ⟨fun _ => ⟨(hnull hzero).free, congrFun hquiet.taskTable pid⟩, nofun⟩
  rename_i hhandles
  obtain ⟨hnull, hsome⟩ :=
    (hsome hhandles).alloc (task.handlesV2.length * SIZEOF_FILE_HANDLE_V2 % 2 ^ 32)
  have hquiet := hquiet.trans (alloc_quiet handles.2 (task.handlesV2.length * SIZEOF_FILE_HANDLE_V2 % 2 ^ 32))
  generalize handles.2.alloc (task.handlesV2.length * SIZEOF_FILE_HANDLE_V2 % 2 ^ 32) = handlesV2 at *
  split at hcopies
  · rename_i hzero
    cases hcopies
    exact ⟨fun _ => ⟨((hnull hzero).held_mono (by simp)).free.free, congrFun hquiet.taskTable pid⟩, nofun⟩
  rename_i hlast
  have hheld := hsome hlast
  obtain ⟨cloned, hclone, rfl⟩ := Option.map_eq_some_iff.mp hcopies
  refine ⟨nofun, ?_⟩
  intro copies hcopies
  cases hcopies
  have hopen : ∀ entry ∈ task.handlesV2, entry.free = false →
      ∃ source, handlesV2.2.s.refers source = some (handlesV2.2.s.internal entry) := by
    rw [hquiet.nodes.refers, internal_congr hquiet.mountpoint]
    exact open_descriptor htable
  obtain ⟨hslot, hfree⟩ := cloneDescriptors_tasks hpid hclone
  exact
    { cloned := (cloneDescriptors_cloned hheld.attached hopen hclone).before hquiet.nodes
      accounted := (cloneDescriptors_accounts hclone _ hheld.accounted).held_mono (by simp)
      slot := hslot.trans (congrFun hquiet.taskTable pid)
      free := hfree }

-- The record of a task, written back with another result of its call.
theorem setSlot_same (hslot : mem.s.kernel.taskTable pid = .task address task) {changed : Task}
    (hfields : ∀ field, Slot.field (.task address changed) field = Slot.field (.task address task) field)
    (hstatus : changed.status = task.status) (htable : changed.handlesV2 = task.handlesV2) :
    SameNodes mem.s (mem.setSlot pid address changed).s ∧ Accounts mem (mem.setSlot pid address changed) := by
  have hnew : NewSlot mem (mem.setSlot pid address changed) pid (.task address changed) :=
    newSlot_kernel mem _ mem.live rfl rfl
  refine ⟨hnew.sameNodes ⟨rfl, rfl, rfl, rfl⟩ ?_ ?_, .of_same (hnew.root_same ?_) rfl⟩
  · rw [hslot]
    exact congrArg some hstatus
  · rw [State.table, hslot]
    exact htable
  · intro field
    rw [root_task hslot]
    exact hfields field

theorem setCpu_same (mem : Memory) (hslot : mem.s.kernel.taskTable pid = .task address task) (cpu : GprState) :
    SameNodes mem.s (mem.setSlot pid address { task with cpu := cpu }).s ∧
      Accounts mem (mem.setSlot pid address { task with cpu := cpu }) :=
  setSlot_same hslot (fun field => by cases field <;> rfl) rfl rfl

theorem Holds.setCpu (hholds : Holds partitions held mem)
    (hslot : mem.s.kernel.taskTable pid = .task address task) (cpu : GprState) :
    Holds partitions held (mem.setSlot pid address { task with cpu := cpu }) := by
  obtain ⟨hnodes, haccounts⟩ := setCpu_same mem hslot cpu
  exact hholds.of_same hnodes haccounts

theorem filterMap_closed {s : State} {table : List FileHandleV2} (hclosed : ∀ entry ∈ table, entry.free = true) :
    table.filterMap s.entryNode = [] := by
  refine List.filterMap_eq_nil_iff.mpr ?_
  intro entry hentry
  rw [State.entryNode, if_pos (hclosed entry hentry)]

theorem entryNode_used {s : State} {entry : FileHandleV2} (hlive : entry.free = false) :
    s.entryNode entry = s.internal entry := by
  rw [State.entryNode, if_neg (by simp [hlive])]

-- The handles of a copied table, and the record of its task beside that of another.
theorem Cloned.newTask {s next : State} {table : List FileHandleV2} (hcloned : Cloned s next table)
    (hsame : SameNodes next mem.s) (hslot : NewSlot mem later child (.task address new))
    (hdrivers : SameDrivers mem.s later.s) (hlive : later.live = address :: mem.live) (hne : address ≠ 0)
    (hfree : (mem.s.kernel.taskTable child).status = none)
    (hpointers : ∀ ptr ∈ mine, ∃ field, Slot.field (.task address new) field = ptr)
    (htable : new.handlesV2 = table) :
    NewTask mem later child address new mine (table.filterMap s.entryNode) := by
  have hinternal : mem.s.internal = s.internal :=
    internal_congr (hsame.system.mountpoint.trans hcloned.system.mountpoint)
  have hnode : ∀ {handle : Int} {entry : FileHandleV2} {there : Node},
      inUse (·.free) new.handlesV2 handle = some entry → mem.s.internal entry = some there →
      s.entryNode entry = some there := by
    intro handle entry there huse hthere
    rw [entryNode_used (inUse_mem huse).2, ← hinternal]
    exact hthere
  refine
    { slot := hslot, drivers := hdrivers, live := hlive, address_ne := hne, free := hfree
      pointers := hpointers, fresh := ?_, distinct := ?_, handles := ?_ }
  · intro handle entry there huse hthere
    rw [hsame.refers]
    have hmem := (inUse_mem huse).1
    rw [htable] at hmem
    exact (hcloned.fresh there (List.mem_filterMap.mpr ⟨entry, hmem, hnode huse hthere⟩)).1
  · intro first second entry entry' there huse huse' hthere hthere'
    by_contra hne
    have hpairwise := hcloned.distinct
    rw [← htable] at hpairwise
    rcases inUse_pairwise hpairwise huse huse' hne with hdistinct | hdistinct
    · exact hdistinct there (hnode huse hthere) (hnode huse' hthere')
    · exact hdistinct there (hnode huse' hthere') (hnode huse hthere)
  · intro node hmem
    obtain ⟨entry, hentry, hthere⟩ := List.mem_filterMap.mp hmem
    cases hused : entry.free with
    | true =>
        rw [State.entryNode, if_pos hused] at hthere
        cases hthere
    | false =>
        obtain ⟨handle, huse⟩ := mem_inUse (·.free) hentry hused
        rw [entryNode_used hused, ← hinternal] at hthere
        exact ⟨handle, entry, by rw [htable, huse], hthere⟩

theorem newSlot_beside {kernel : Kernel} {slot : Slot} (hne : pid ≠ child)
    (htable : kernel.taskTable = Function.update mem.s.kernel.taskTable child slot)
    (hothers : kernel.others = mem.s.kernel.others) (live : List Nat) (address address' : Nat)
    (task new : Task) :
    NewSlot (mem.setSlot pid address task)
      ((({ mem with s.kernel := kernel, live := live } : Memory).setSlot pid address task).setSlot child
        address' new) child (.task address' new) := by
  refine newSlot_kernel (mem.setSlot pid address task) _ live ?_ hothers
  dsimp only [Kernel.setTask, Memory.setSlot]
  rw [htable, Function.update_comm hne.symm, Function.update_idem]

theorem Copied.forkTask (hcopied : Copied mem copied pid task.handlesV2 copies)
    (hcovered : Covered partitions [] mem.s.refers)
    (hslot : mem.s.kernel.taskTable pid = .task address task)
    (hroom : (∀ handle ∈ task.handlesV2, handle.free = true) ∨
      freePid copied.s.kernel.taskTable KRNL_MAX_TASKS 0 ≠ none ∧
        (kalloc copied.s.kernel.heap SIZEOF_TASK).1 ≠ 0) (cpu : GprState) :
    Holds partitions [] (copied.forkTask pid address { task with cpu := cpu } copies) := by
  unfold Memory.forkTask
  dsimp only
  generalize ByteStore.write copied.s.kernel.heap.mem copies.base _ = contents
  have hquiet : Quiet copied.s ({ copied with s.kernel.heap.mem := contents } : Memory).s :=
    ⟨rfl, rfl, rfl, rfl, rfl⟩
  have hroot : Memory.root { copied with s.kernel.heap.mem := contents } = copied.root := by
    funext root
    cases root <;> rfl
  have hkalloc := kalloc_setMem copied.s.kernel.heap contents SIZEOF_TASK
  have haccounted : Accounted [copies.base, copies.handles, copies.handlesV2]
      (Memory.root { copied with s.kernel.heap.mem := contents }) copied.live := by
    rw [hroot]
    exact hcopied.accounted
  have hpid : copied.s.kernel.taskTable pid = .task address task := hcopied.slot.trans hslot
  have hattached := hquiet.nodes.attached hcopied.cloned.attached
  have hfull := hcopied.cloned.covered _ _ hcovered
  rw [← hquiet.nodes.refers, List.append_nil] at hfull
  have hpointers : ∀ address, ∀ ptr ∈ [copies.base, copies.handles, copies.handlesV2], ∃ field,
      Slot.field (.task address ((forkedTask { task with cpu := cpu } pid copies.base copies.handles
        copies.handlesV2 copies.descriptors).withEax 0)) field = ptr := by
    simp only [List.mem_cons, List.not_mem_nil, or_false]
    rintro address ptr (rfl | rfl | rfl)
    · exact ⟨.image, rfl⟩
    · exact ⟨.handles, rfl⟩
    · exact ⟨.descriptors, rfl⟩
  have htable' : (forkedTask { task with cpu := cpu } pid copies.base copies.handles
      copies.handlesV2 copies.descriptors).handlesV2 = copies.descriptors := rfl
  generalize forkedTask { task with cpu := cpu } pid copies.base copies.handles copies.handlesV2
    copies.descriptors = new at *
  rcases taskCreate_spec { copied with s.kernel.heap.mem := contents } new with
    ⟨hnone, hwhy, kernel, hcreated, hothers, htable⟩ |
    ⟨child, address', kernel, hsome, hne, hfree, hcreated, htable, hothers⟩
  · rw [hnone, hcreated]
    -- with room for the task there are no handles to lose
    have hclosed : ∀ entry ∈ copies.descriptors, entry.free = true := by
      rcases hroom with hclosed | ⟨hnumber, hrecord⟩
      · exact hcopied.free hclosed
      · rcases hwhy with hfull | hnull
        · exact absurd hfull hnumber
        · exact absurd (hkalloc.symm.trans hnull) hrecord
    rw [filterMap_closed hclosed] at hfull
    have hheld : Holds partitions [copies.base, copies.handles, copies.handlesV2]
        { copied with s.kernel.heap.mem := contents } := ⟨hattached, hfull, haccounted⟩
    have hfreed := (hheld.notCreated hothers htable).free.free.free
    have hsame : kernel.taskTable pid = .task address task := by
      rcases htable pid with heq | ⟨-, hnone⟩
      · exact heq.trans hpid
      · rw [hpid] at hnone
        cases hnone
    exact hfreed.setCpu hsame { cpu with eax := EchidnaOS.FAILURE }
  · rw [hsome, hcreated]
    dsimp only
    have haddress : Memory.root { copied with s.kernel := kernel, live := address' :: copied.live }
        (.task child .entry) = address' := by
      simp [Memory.root, htable, Slot.field]
    have hne' : pid ≠ child := by
      rintro rfl
      have hnone : (copied.s.kernel.taskTable pid).status = none := hfree
      rw [hpid] at hnone
      cases hnone
    rw [haddress]
    obtain ⟨hnodes, haccounts⟩ := setCpu_same { copied with s.kernel.heap.mem := contents } hpid
      { cpu with eax := child }
    have hbeside := newSlot_beside hne' htable hothers (address' :: copied.live) address address'
      { task with cpu := { cpu with eax := child } } (new.withEax 0)
    have hfree' : (Function.update copied.s.kernel.taskTable pid
        (.task address { task with cpu := { cpu with eax := child } }) child).status = none := by
      rw [Function.update_of_ne hne'.symm]
      exact hfree
    have hnew := hcopied.cloned.newTask (hquiet.nodes.trans hnodes) hbeside ⟨rfl, rfl, rfl, rfl⟩ rfl hne
      hfree' (hpointers address') htable'
    refine hnew.holds (hnodes.attached hattached) ?_ (haccounts _ haccounted)
    rw [hnodes.refers]
    exact hfull

theorem Holds.taskFork (hholds : Holds partitions [] mem) (hpid : pid ≠ 0) {cpu : GprState}
    (hreleases : Releases mem (.fork pid cpu)) (hfork : mem.taskFork pid cpu = some later) :
    Holds partitions [] later := by
  unfold Memory.taskFork at hfork
  split at hfork
  · rename_i address task hslot
    obtain ⟨⟨copies, copied⟩, hcopies, rfl⟩ := Option.map_eq_some_iff.mp hfork
    have htable : mem.s.table pid = task.handlesV2 := by
      rw [State.table, hslot]
      rfl
    obtain ⟨hnone, hsome⟩ := hholds.forkCopies hpid htable hcopies
    cases copies with
    | none =>
        obtain ⟨hheld, hsame⟩ := hnone rfl
        exact hheld.setCpu (hsame.trans hslot) { cpu with eax := EchidnaOS.FAILURE }
    | some copies =>
        have hroom := hreleases address task copies copied hslot hcopies
        exact (hsome copies rfl).forkTask hholds.covered hslot hroom cpu
  · cases hfork

end Fork

end EchidnaOS.Vfs
