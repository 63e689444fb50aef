import EchidnaOS.Vfs.Calls
import EchidnaOS.Echfs.Handle.Device
import EchidnaOS.Lib.Reference

namespace EchidnaOS.Vfs

open EchidnaOS.Lib EchidnaOS.Lib.SlotTable EchidnaOS.Lib.Reference EchidnaOS.Devfs EchidnaOS.Echfs

variable {s next : State} {pid : Nat} {handle : Int}

-- A descriptor of a task, or a handle of one of the file systems.
inductive Node where
  | descriptor (pid : Nat) (handle : Int)
  | devfs (handle : Int)
  | echfs (handle : Int)
  deriving DecidableEq

def Mountpoint.node (handle : Int) : Mountpoint → Node
  | .devfs => .devfs handle
  | .echfs _ _ => .echfs handle

-- The handle that a descriptor names, when its mount point leads somewhere.
def State.internal (s : State) (descriptor : FileHandleV2) : Option Node :=
  (s.mountpoint descriptor.mountpoint).map (Mountpoint.node descriptor.internalHandle)

-- What the open descriptors and the handles in use refer to. A handle of echfs keeps a
-- descriptor of the kernel, which stands for the device.
def State.refers (s : State) : Node → Option (Option Node)
  | .descriptor pid handle => (inUse (·.free) (s.table pid) handle).map s.internal
  | .devfs handle => (inUse (·.free) s.devfsHandles handle).map fun _ => none
  | .echfs handle => (inUse (·.free) s.echfsHandles handle).map fun entry =>
      some (.descriptor 0 entry.devHandle)

-- What no call on a descriptor changes.
structure SameSystem (s next : State) : Prop where
  status : ∀ pid, (next.kernel.taskTable pid).status = (s.kernel.taskTable pid).status
  mountpoint : next.mountpoint = s.mountpoint
  devMountpoint : next.devMountpoint = s.devMountpoint

theorem SameSystem.refl (s : State) : SameSystem s s := ⟨fun _ => rfl, rfl, rfl⟩

theorem SameSystem.trans {middle : State} (hfirst : SameSystem s middle)
    (hsecond : SameSystem middle next) : SameSystem s next where
  status pid := (hsecond.status pid).trans (hfirst.status pid)
  mountpoint := hsecond.mountpoint.trans hfirst.mountpoint
  devMountpoint := hsecond.devMountpoint.trans hfirst.devMountpoint

-- Nothing that a descriptor or a handle is made of.
structure Quiet (s next : State) : Prop where
  taskTable : next.kernel.taskTable = s.kernel.taskTable
  mountpoint : next.mountpoint = s.mountpoint
  devMountpoint : next.devMountpoint = s.devMountpoint
  devfsHandles : next.devfsHandles = s.devfsHandles
  echfsHandles : next.echfsHandles = s.echfsHandles

theorem Quiet.refl (s : State) : Quiet s s := ⟨rfl, rfl, rfl, rfl, rfl⟩

theorem Quiet.trans {middle : State} (hfirst : Quiet s middle) (hsecond : Quiet middle next) :
    Quiet s next where
  taskTable := hsecond.taskTable.trans hfirst.taskTable
  mountpoint := hsecond.mountpoint.trans hfirst.mountpoint
  devMountpoint := hsecond.devMountpoint.trans hfirst.devMountpoint
  devfsHandles := hsecond.devfsHandles.trans hfirst.devfsHandles
  echfsHandles := hsecond.echfsHandles.trans hfirst.echfsHandles

theorem Quiet.system (hquiet : Quiet s next) : SameSystem s next where
  status pid := by rw [hquiet.taskTable]
  mountpoint := hquiet.mountpoint
  devMountpoint := hquiet.devMountpoint

theorem internal_congr (hsame : next.mountpoint = s.mountpoint) : next.internal = s.internal := by
  funext descriptor
  rw [State.internal, State.internal, hsame]

theorem Quiet.refers (hquiet : Quiet s next) : next.refers = s.refers := by
  funext node
  cases node with
  | descriptor pid handle =>
      rw [State.refers, State.refers, State.table, State.table, hquiet.taskTable,
        internal_congr hquiet.mountpoint]
  | devfs handle => rw [State.refers, State.refers, hquiet.devfsHandles]
  | echfs handle => rw [State.refers, State.refers, hquiet.echfsHandles]

-- Only descriptors of the kernel are referred to, by handles of echfs.
theorem refers_descriptor {node : Node} (hrefers : s.refers node = some (some (.descriptor pid handle))) :
    pid = 0 ∧ ∃ number entry, node = .echfs number ∧
      inUse (·.free) s.echfsHandles number = some entry ∧ entry.devHandle = handle := by
  cases node with
  | descriptor other number =>
      obtain ⟨descriptor, -, hinternal⟩ := Option.map_eq_some_iff.mp hrefers
      obtain ⟨mountpoint, -, hnode⟩ := Option.map_eq_some_iff.mp hinternal
      cases mountpoint <;> cases hnode
  | devfs number =>
      obtain ⟨entry, -, hnone⟩ := Option.map_eq_some_iff.mp hrefers
      cases hnone
  | echfs number =>
      obtain ⟨entry, hentry, hnode⟩ := Option.map_eq_some_iff.mp hrefers
      cases hnode
      exact ⟨rfl, number, entry, rfl, hentry, rfl⟩

-- A call that adds a node, one that removes some, and one that leaves them all as they are.
structure Adds (s next : State) (node : Node) (target : Option Node) : Prop where
  system : SameSystem s next
  absent : s.refers node = none
  refers : next.refers = Function.update s.refers node (some target)

structure Drops (s next : State) (nodes : List Node) : Prop where
  system : SameSystem s next
  refers : next.refers = without s.refers (· ∈ nodes)

structure SameNodes (s next : State) : Prop where
  system : SameSystem s next
  refers : next.refers = s.refers

theorem Quiet.nodes (hquiet : Quiet s next) : SameNodes s next := ⟨hquiet.system, hquiet.refers⟩

theorem SameNodes.trans {middle : State} (hfirst : SameNodes s middle) (hsecond : SameNodes middle next) :
    SameNodes s next :=
  ⟨hfirst.system.trans hsecond.system, hsecond.refers.trans hfirst.refers⟩

theorem Drops.nil (s : State) : Drops s s [] := by
  refine ⟨.refl s, ?_⟩
  funext node
  simp [without]

theorem Drops.cons {middle : State} {nodes : List Node} {node : Node} (hfirst : Drops s middle nodes)
    (hsecond : Drops middle next [node]) : Drops s next (node :: nodes) := by
  refine ⟨hfirst.system.trans hsecond.system, ?_⟩
  rw [hsecond.refers, hfirst.refers]
  funext other
  by_cases heq : other = node <;> simp [without, heq]

theorem devfsCreateHandle_adds (s : State) {entry : DevfsHandle} (hused : entry.free = false) :
    Adds s (devfsCreateHandle s entry).2 (.devfs (devfsCreateHandle s entry).1) none := by
  obtain ⟨habsent, hcreated⟩ := inUse_create (·.free) s.devfsHandles entry
  refine ⟨⟨fun _ => rfl, rfl, rfl⟩, ?_, ?_⟩
  · rw [devfsCreateHandle, State.refers, habsent]
    rfl
  · funext node
    cases node with
    | descriptor pid handle => rfl
    | echfs handle => rfl
    | devfs handle =>
        simp only [devfsCreateHandle, State.refers, hcreated, hused, Function.update_apply]
        by_cases heq : handle = (SlotTable.create (·.free) s.devfsHandles entry).1 <;> simp [heq]

theorem echfsCreateHandle_adds (s : State) {entry : EchfsHandle} (hused : entry.free = false) :
    Adds s (echfsCreateHandle s entry).2 (.echfs (echfsCreateHandle s entry).1)
      (some (.descriptor 0 entry.devHandle)) := by
  obtain ⟨habsent, hcreated⟩ := inUse_create (·.free) s.echfsHandles entry
  refine ⟨⟨fun _ => rfl, rfl, rfl⟩, ?_, ?_⟩
  · rw [echfsCreateHandle, State.refers, habsent]
    rfl
  · funext node
    cases node with
    | descriptor pid handle => rfl
    | devfs handle => rfl
    | echfs handle =>
        simp only [echfsCreateHandle, State.refers, hcreated, hused, Function.update_apply]
        by_cases heq : handle = (SlotTable.create (·.free) s.echfsHandles entry).1 <;> simp [heq]

-- The table of one task is replaced.
structure NewTable (s next : State) (pid : Nat) (table : List FileHandleV2) : Prop where
  system : SameSystem s next
  table : next.table = Function.update s.table pid table
  devfsHandles : next.devfsHandles = s.devfsHandles
  echfsHandles : next.echfsHandles = s.echfsHandles

theorem NewTable.refers {table : List FileHandleV2} (hnew : NewTable s next pid table) {handle : Int}
    {value : Option FileHandleV2}
    (hupdate : inUse (·.free) table = Function.update (inUse (·.free) (s.table pid)) handle value) :
    next.refers = Function.update s.refers (.descriptor pid handle) (value.map s.internal) := by
  funext node
  cases node with
  | devfs number => simp [State.refers, hnew.devfsHandles]
  | echfs number => simp [State.refers, hnew.echfsHandles]
  | descriptor other number =>
      rw [State.refers, hnew.table, internal_congr hnew.system.mountpoint]
      by_cases hpid : other = pid
      · rw [hpid, Function.update_self, hupdate]
        by_cases hnumber : number = handle
        · rw [hnumber, Function.update_self, Function.update_self]
        · rw [Function.update_of_ne hnumber, Function.update_of_ne (by simp [hnumber]), State.refers]
      · rw [Function.update_of_ne hpid, Function.update_of_ne (by simp [hpid]), State.refers]

theorem slot_of_status (hstatus : (s.kernel.taskTable pid).status ≠ none) :
    ∃ address task, s.kernel.taskTable pid = .task address task := by
  cases hslot : s.kernel.taskTable pid with
  | task address task => exact ⟨address, task, rfl⟩
  | null => simp [hslot, Slot.status] at hstatus
  | empty => simp [hslot, Slot.status] at hstatus

-- Another table in the entry of a task.
theorem newTable_update {kernel : Kernel} {address pointer : Nat} {task : Task}
    {table : List FileHandleV2} (hslot : s.kernel.taskTable pid = .task address task)
    (htable : kernel.taskTable = Function.update s.kernel.taskTable pid
      (.task address { task with fileHandlesV2 := pointer, handlesV2 := table })) :
    NewTable s { s with kernel := kernel } pid table := by
  refine ⟨⟨?_, rfl, rfl⟩, ?_, rfl, rfl⟩
  · intro other
    dsimp only
    rw [htable]
    by_cases heq : other = pid
    · rw [heq, Function.update_self, hslot]
      rfl
    · rw [Function.update_of_ne heq]
  · funext other
    unfold State.table
    dsimp only
    rw [htable]
    by_cases heq : other = pid
    · rw [heq, Function.update_self, Function.update_self]
      rfl
    · rw [Function.update_of_ne heq, Function.update_of_ne heq]

theorem createDescriptor_table (hstatus : (s.kernel.taskTable pid).status ≠ none) (entry : FileHandleV2) :
    NewTable s (s.createDescriptor pid entry).2 pid (SlotTable.create (·.free) (s.table pid) entry).2 := by
  obtain ⟨address, task, hslot⟩ := slot_of_status hstatus
  have htask : s.table pid = task.handlesV2 := by rw [State.table, hslot, Slot.handlesV2]
  rw [htask]
  unfold State.createDescriptor createFileHandleV2
  rw [hslot]
  dsimp only
  split
  · exact newTable_update hslot rfl
  · exact newTable_update hslot rfl

theorem createDescriptor_adds (hstatus : (s.kernel.taskTable pid).status ≠ none)
    {entry : FileHandleV2} (hused : entry.free = false) :
    Adds s (s.createDescriptor pid entry).2 (.descriptor pid (s.createDescriptor pid entry).1)
      (s.internal entry) := by
  obtain ⟨habsent, hcreated⟩ := inUse_create (·.free) (s.table pid) entry
  have hnew := createDescriptor_table hstatus entry
  rw [hused, if_neg Bool.false_ne_true] at hcreated
  refine ⟨hnew.system, ?_, hnew.refers hcreated⟩
  rw [State.refers, State.createDescriptor, habsent]
  rfl

theorem status_of_entryAt {entry : FileHandleV2} (hentry : entryAt (s.table pid) handle = some entry) :
    (s.kernel.taskTable pid).status ≠ none := by
  intro hnone
  obtain ⟨-, hlt, -⟩ := entryAt_range hentry
  cases hslot : s.kernel.taskTable pid with
  | task address task => simp [hslot, Slot.status] at hnone
  | null => simp [State.table, hslot, Slot.handlesV2] at hlt
  | empty => simp [State.table, hslot, Slot.handlesV2] at hlt

theorem setTable_table (hstatus : (s.kernel.taskTable pid).status ≠ none) (table : List FileHandleV2) :
    NewTable s (s.setTable pid table) pid table := by
  obtain ⟨address, task, hslot⟩ := slot_of_status hstatus
  unfold State.setTable
  rw [hslot]
  exact newTable_update hslot rfl

-- Closing an open descriptor.
theorem finishClose_drops {ret : Int} (hret : ret ≠ -1)
    (hopen : s.refers (.descriptor pid handle) ≠ none) :
    Drops s (finishClose s pid handle ret).2 [.descriptor pid handle] := by
  obtain ⟨target, htarget⟩ := Option.ne_none_iff_exists'.mp hopen
  obtain ⟨entry, hentry, -⟩ := Option.map_eq_some_iff.mp htarget
  obtain ⟨hat, hused⟩ := inUse_eq_some.mp hentry
  have hclosed : inUse (·.free) (setAt (s.table pid) handle { entry with free := true }) = _ :=
    inUse_setAt hat { entry with free := true }
  have hnew := setTable_table (status_of_entryAt hat) (setAt (s.table pid) handle { entry with free := true })
  unfold finishClose
  rw [if_neg hret, hat]
  dsimp only
  rw [if_neg (by rw [hused]; exact Bool.false_ne_true)]
  refine ⟨hnew.system, ?_⟩
  rw [hnew.refers hclosed]
  funext node
  by_cases heq : node = .descriptor pid handle <;> simp [without, heq]

theorem devfsClose_drops (hused : s.refers (.devfs handle) ≠ none) :
    (devfsClose s handle).1 = 0 ∧ Drops s (devfsClose s handle).2 [.devfs handle] := by
  obtain ⟨target, htarget⟩ := Option.ne_none_iff_exists'.mp hused
  obtain ⟨entry, hentry, -⟩ := Option.map_eq_some_iff.mp htarget
  obtain ⟨hat, hlive⟩ := inUse_eq_some.mp hentry
  have hclosed : inUse (·.free) (setAt s.devfsHandles handle { entry with free := true }) = _ :=
    inUse_setAt hat { entry with free := true }
  unfold devfsClose
  rw [hat]
  dsimp only
  rw [if_neg (by rw [hlive]; exact Bool.false_ne_true)]
  refine ⟨rfl, ⟨fun _ => rfl, rfl, rfl⟩, ?_⟩
  funext node
  cases node with
  | descriptor pid number =>
      rw [without, if_neg (by simp)]
      rfl
  | echfs number =>
      rw [without, if_neg (by simp)]
      rfl
  | devfs number =>
      by_cases heq : number = handle <;> simp [State.refers, without, hclosed, heq]

-- A handle of echfs is marked free.
theorem echfsFree_drops {entry : EchfsHandle} (hentry : entryAt s.echfsHandles handle = some entry) :
    Drops s { s with echfsHandles := setAt s.echfsHandles handle { entry with free := true } }
      [.echfs handle] := by
  have hclosed : inUse (·.free) (setAt s.echfsHandles handle { entry with free := true }) = _ :=
    inUse_setAt hentry { entry with free := true }
  refine ⟨⟨fun _ => rfl, rfl, rfl⟩, ?_⟩
  funext node
  cases node with
  | descriptor pid number =>
      rw [without, if_neg (by simp)]
      rfl
  | devfs number =>
      rw [without, if_neg (by simp)]
      rfl
  | echfs number =>
      by_cases heq : number = handle <;> simp [State.refers, without, hclosed, heq]

-- The record of an open descriptor is what stands in its slot.
theorem descriptor_of_open (hopen : s.refers (.descriptor pid handle) ≠ none) :
    s.refers (.descriptor pid handle) = some (s.internal (s.descriptor pid handle)) := by
  obtain ⟨target, htarget⟩ := Option.ne_none_iff_exists'.mp hopen
  obtain ⟨entry, hentry, -⟩ := Option.map_eq_some_iff.mp htarget
  obtain ⟨hat, -⟩ := inUse_eq_some.mp hentry
  rw [State.refers, hentry, State.descriptor, hat]
  rfl

end EchidnaOS.Vfs
