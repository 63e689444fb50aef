import EchidnaOS.Vfs.Ownership.Handles

namespace EchidnaOS.Vfs

open EchidnaOS.Lib EchidnaOS.Lib.Roots EchidnaOS.Lib.SlotTable EchidnaOS.Lib.Reference EchidnaOS.Klib
  EchidnaOS.Devfs EchidnaOS.Echfs

variable {s middle next : State} {mem later : Memory} {node target : Node} {pid child : Nat}
  {handle : Int} {partitions : List Int} {pending : List Node} {graph : Node → Option (Option Node)}
  {table : Int → Option (Option Node)}

-- The graph with another table for one task.
def graft (graph : Node → Option (Option Node)) (child : Nat) (table : Int → Option (Option Node)) :
    Node → Option (Option Node)
  | .descriptor pid handle => if pid = child then table handle else graph (.descriptor pid handle)
  | .devfs handle => graph (.devfs handle)
  | .echfs handle => graph (.echfs handle)

theorem graft_self (handle : Int) : graft graph child table (.descriptor child handle) = table handle :=
  if_pos rfl

-- Where the task had no descriptors, what is there stays.
theorem graft_present (hnone : ∀ handle, graph (.descriptor child handle) = none)
    (hnode : graph node ≠ none) : graft graph child table node = graph node := by
  cases node with
  | descriptor pid handle =>
      have hne : pid ≠ child := by
        rintro rfl
        exact hnode (hnone handle)
      exact if_neg hne
  | devfs handle => rfl
  | echfs handle => rfl

theorem graft_refers (hrefers : graft graph child table node = some (some target)) :
    (∃ handle, node = .descriptor child handle ∧ table handle = some (some target)) ∨
      graph node = some (some target) := by
  cases node with
  | descriptor pid handle =>
      by_cases heq : pid = child
      · subst heq
        rw [graft_self] at hrefers
        exact Or.inl ⟨handle, rfl, hrefers⟩
      · exact Or.inr (Eq.trans (if_neg heq).symm hrefers)
  | devfs handle => exact Or.inr hrefers
  | echfs handle => exact Or.inr hrefers

theorem Chained.graft (hchained : Chained graph) (hnone : ∀ handle, graph (.descriptor child handle) = none)
    (hfresh : ∀ handle there, table handle = some (some there) → Fresh graph there)
    (hdistinct : ∀ first second there, table first = some (some there) →
      table second = some (some there) → first = second) : Chained (graft graph child table) := by
  constructor
  · constructor
    · intro source there hsource
      have hthere : graph there ≠ none := by
        rcases graft_refers hsource with ⟨handle, -, htable⟩ | hrefers
        · exact (hfresh handle there htable).present
        · exact hchained.exclusive.present source there hrefers
      rw [graft_present hnone hthere]
      exact hthere
    · intro source other there hsource hother
      rcases graft_refers hsource with ⟨first, rfl, hfirst⟩ | hold
      · rcases graft_refers hother with ⟨second, rfl, hsecond⟩ | hold
        · rw [hdistinct first second there hfirst hsecond]
        · exact absurd hold ((hfresh first there hfirst).unreferred other)
      · rcases graft_refers hother with ⟨second, rfl, hsecond⟩ | hold'
        · exact absurd hold ((hfresh second there hsecond).unreferred source)
        · exact hchained.exclusive.unique source other there hold hold'
  · intro number there hnumber
    obtain ⟨device, hdevice⟩ := hchained.devices number there hnumber
    refine ⟨device, ?_⟩
    rw [graft_present hnone (by simp [hdevice])]
    exact hdevice

theorem Covered.graft (hcovered : Covered partitions pending graph)
    (hnone : ∀ handle, graph (.descriptor child handle) = none)
    (htable : ∀ node ∈ pending, ∃ handle, table handle = some (some node)) :
    Covered partitions [] (graft graph child table) := by
  intro node hhandle hnode
  have hpresent : graph node ≠ none := by
    cases node with
    | descriptor pid handle => exact absurd hhandle not_false
    | devfs handle => exact hnode
    | echfs handle => exact hnode
  rcases hcovered node hhandle hpresent with (hpending | hpartition) | ⟨source, hsource⟩
  · obtain ⟨handle, hentry⟩ := htable node hpending
    refine Or.inr ⟨.descriptor child handle, ?_⟩
    rw [graft_self]
    exact hentry
  · exact Or.inl (Or.inr hpartition)
  · refine Or.inr ⟨source, ?_⟩
    rw [graft_present hnone (by simp [hsource])]
    exact hsource

-- The file systems, without the tasks.
structure SameDrivers (s next : State) : Prop where
  mountpoint : next.mountpoint = s.mountpoint
  devMountpoint : next.devMountpoint = s.devMountpoint
  devfsHandles : next.devfsHandles = s.devfsHandles
  echfsHandles : next.echfsHandles = s.echfsHandles

theorem Quiet.drivers (hquiet : Quiet s next) : SameDrivers s next :=
  ⟨hquiet.mountpoint, hquiet.devMountpoint, hquiet.devfsHandles, hquiet.echfsHandles⟩

theorem SameDrivers.trans {middle : State} (hfirst : SameDrivers s middle)
    (hsecond : SameDrivers middle next) : SameDrivers s next :=
  ⟨hsecond.mountpoint.trans hfirst.mountpoint, hsecond.devMountpoint.trans hfirst.devMountpoint,
    hsecond.devfsHandles.trans hfirst.devfsHandles, hsecond.echfsHandles.trans hfirst.echfsHandles⟩

-- The table of one task is another.
theorem refers_graft {descriptors : List FileHandleV2} (hsame : SameDrivers s next)
    (htable : next.table = Function.update s.table child descriptors) :
    next.refers = graft s.refers child fun handle =>
      (inUse (·.free) descriptors handle).map s.internal := by
  funext node
  cases node with
  | descriptor pid handle =>
      rw [State.refers, htable, internal_congr hsame.mountpoint]
      by_cases heq : pid = child
      · rw [heq, Function.update_self, graft_self]
      · rw [Function.update_of_ne heq]
        exact (if_neg heq).symm
  | devfs handle => rw [State.refers, hsame.devfsHandles]; rfl
  | echfs handle => rw [State.refers, hsame.echfsHandles]; rfl

theorem refers_same (hsame : SameDrivers s next) (htable : next.table = s.table) :
    next.refers = s.refers := by
  funext node
  cases node with
  | descriptor pid handle => rw [State.refers, State.refers, htable, internal_congr hsame.mountpoint]
  | devfs handle => rw [State.refers, State.refers, hsame.devfsHandles]
  | echfs handle => rw [State.refers, State.refers, hsame.echfsHandles]

theorem SameDrivers.attached (hsame : SameDrivers s next) (hattached : Attached s)
    (hkernel : (next.kernel.taskTable 0).status = (s.kernel.taskTable 0).status)
    (hchained : Chained next.refers) : Attached next where
  chained := hchained
  kernel := hkernel.trans hattached.kernel
  device := by
    rw [hsame.mountpoint, hsame.devMountpoint]
    exact hattached.device

-- Nothing is lost: `held` are the objects that local variables point to.
structure Holds (partitions : List Int) (held : List Nat) (mem : Memory) : Prop where
  attached : Attached mem.s
  covered : Covered partitions [] mem.s.refers
  accounted : Accounted held mem.root mem.live

variable {held : List Nat} {mountpoint : Int} {path : Path} {flags : Nat}

theorem Holds.of_same (hholds : Holds partitions held mem) (hsame : SameNodes mem.s later.s)
    (haccounts : Accounts mem later) : Holds partitions held later := by
  refine ⟨hsame.attached hholds.attached, ?_, haccounts held hholds.accounted⟩
  rw [hsame.refers]
  exact hholds.covered

-- A new descriptor is nobody's handle.
theorem Holds.held_mono {held' : List Nat} (hholds : Holds partitions held mem)
    (hheld : ∀ ptr ∈ held, ptr ∈ held') : Holds partitions held' mem :=
  ⟨hholds.attached, hholds.covered, hholds.accounted.held_mono hheld⟩

theorem Holds.vfsOpen (hholds : Holds partitions held mem)
    (hstatus : (mem.s.kernel.taskTable pid).status ≠ none) (hkeeps : OpenKeeps mem mountpoint path flags)
    {result : Int × Memory} (hopen : mem.vfsOpen pid mountpoint path flags = some result) :
    Holds partitions held result.2 ∧ OpensNode mem result (.descriptor pid) := by
  have hopens := memoryVfsOpen_opens hholds.attached hstatus hkeeps hopen
  refine ⟨?_, hopens⟩
  have haccounted := vfsOpen_accounts hkeeps hopen held hholds.accounted
  rcases hopens with rfl | ⟨-, hbrings⟩
  · exact hholds
  · exact ⟨hbrings.attached, (hbrings.covered _ _ hholds.covered).descriptor, haccounted⟩

theorem Holds.vfsClose (hholds : Holds partitions held mem)
    (hroot : ∀ source, mem.s.refers source ≠ some (some (.descriptor pid handle)))
    (hopen : mem.s.refers (.descriptor pid handle) ≠ none) {result : Int × Memory}
    (hclose : mem.vfsClose pid handle = some result) :
    Holds partitions held result.2 ∧ SameSystem mem.s result.2.s := by
  have haccounted := vfsClose_accounts hclose held hholds.accounted
  obtain ⟨closed, hclosed, rfl⟩ := Option.map_eq_some_iff.mp hclose
  obtain ⟨nodes, hdrops, hiff⟩ := vfsClose_drops hholds.attached hroot hopen hclosed
  have hattached := hdrops.attached hholds.attached fun source target h => (hiff source target h).mpr
  refine ⟨⟨hattached, ?_, haccounted⟩, hdrops.system⟩
  have hcovered := hholds.covered.without (· ∈ nodes) fun source target h => (hiff source target h).mp
  rw [← hdrops.refers] at hcovered
  exact hcovered

theorem freeDescriptor_state (hopen : mem.s.refers (.descriptor 0 handle) ≠ none) :
    (mem.freeDescriptor handle).s = (finishClose mem.s 0 handle 0).2 := by
  obtain ⟨target, htarget⟩ := Option.ne_none_iff_exists'.mp hopen
  obtain ⟨entry, hentry, -⟩ := Option.map_eq_some_iff.mp htarget
  obtain ⟨hat, hlive⟩ := inUse_eq_some.mp hentry
  unfold Memory.freeDescriptor finishClose
  rw [if_neg (by decide), State.descriptor, hat]
  dsimp only [Option.getD_some]
  rw [if_neg (by rw [hlive]; exact Bool.false_ne_true)]

-- What a node that goes referred to has to be kept by somebody else.
theorem Covered.drop {value : Option Node} (hcovered : Covered partitions pending graph)
    (hnode : graph node = some value) :
    Covered partitions (value.toList ++ pending) (without graph (· ∈ [node])) := by
  intro there hhandle hthere
  have hpresent : graph there ≠ none := by
    intro hnone
    apply hthere
    unfold without
    rw [hnone, ite_self]
  rcases hcovered there hhandle hpresent with (hpending | hpartition) | ⟨source, hsource⟩
  · exact Or.inl (Or.inl (List.mem_append_right _ hpending))
  · exact Or.inl (Or.inr hpartition)
  · by_cases heq : source = node
    · rw [heq, hnode] at hsource
      rw [Option.some.inj hsource]
      exact Or.inl (Or.inl (by simp))
    · refine Or.inr ⟨source, ?_⟩
      rw [without, if_neg (by simpa using heq)]
      exact hsource

-- A node goes, and another one refers to what it referred to.
structure Replaces (graph next : Node → Option (Option Node)) (old new : Node) : Prop where
  present : graph old ≠ none
  unreferred : ∀ source, graph source ≠ some (some old)
  absent : graph new = none
  next_eq : ∀ value, graph old = some value →
    next = Function.update (without graph (· ∈ [old])) new (some value)

theorem Replaces.chained {next : Node → Option (Option Node)} {old new : Node}
    (hreplaces : Replaces graph next old new) (hchained : Chained graph)
    (hnew : ∀ handle, new ≠ .echfs handle) : Chained next := by
  obtain ⟨value, hvalue⟩ := Option.ne_none_iff_exists'.mp hreplaces.present
  rw [hreplaces.next_eq value hvalue]
  have hclosed : ∀ source target, graph source = some (some target) → target ∈ [old] →
      source ∈ [old] := by
    intro source target hsource htarget
    rw [List.mem_singleton.mp htarget] at hsource
    exact absurd hsource (hreplaces.unreferred source)
  refine ((hchained.without [old] hclosed).insert ?_ ?_ fun handle _ heq _ => absurd heq (hnew handle)).1
  · rw [without, hreplaces.absent, ite_self]
  · intro there hthere
    rw [hthere] at hvalue
    have hne : there ∉ [old] := by
      intro hmem
      exact hreplaces.unreferred old (List.mem_singleton.mp hmem ▸ hvalue)
    constructor
    · rw [without, if_neg hne]
      exact hchained.exclusive.present old there hvalue
    · intro source hsource
      unfold without at hsource
      by_cases hgone : source ∈ [old]
      · rw [if_pos hgone] at hsource
        cases hsource
      · rw [if_neg hgone] at hsource
        exact hgone (List.mem_singleton.mpr (hchained.exclusive.unique source old there hsource hvalue))

theorem Replaces.covered {next : Node → Option (Option Node)} {old new : Node}
    (hreplaces : Replaces graph next old new) (hcovered : Covered partitions [] graph)
    (hnew : ¬ new.isHandle) : Covered partitions [] next := by
  obtain ⟨value, hvalue⟩ := Option.ne_none_iff_exists'.mp hreplaces.present
  rw [hreplaces.next_eq value hvalue]
  refine (hcovered.drop hvalue).insert ?_ ?_ fun hhandle => absurd hhandle hnew
  · rw [without, hreplaces.absent, ite_self]
  · intro there hthere
    simp only [List.append_nil, Option.mem_toList] at hthere
    exact Or.inr hthere

-- The entry of a descriptor of the kernel goes to another task.
theorem Holds.handOver (hholds : Holds partitions held mem)
    (hfresh : Fresh mem.s.refers (.descriptor 0 handle)) (hpid : pid ≠ 0)
    (hstatus : (mem.s.kernel.taskTable pid).status ≠ none) {created : Int × Memory}
    (hcreate : mem.createDescriptor pid (mem.s.descriptor 0 handle) = some created) :
    Holds partitions held (created.2.freeDescriptor handle) ∧
      SameSystem mem.s (created.2.freeDescriptor handle).s := by
  have hself := descriptor_of_open hfresh.present
  obtain ⟨entry, hentry, -⟩ := Option.map_eq_some_iff.mp hself
  obtain ⟨hat, hlive⟩ := inUse_eq_some.mp hentry
  have hdescriptor : mem.s.descriptor 0 handle = entry := by
    rw [State.descriptor, hat]
    rfl
  obtain ⟨-, hstate⟩ := createDescriptor_state hcreate
  have hadds := createDescriptor_adds hstatus (hdescriptor.symm ▸ hlive)
  rw [← hstate] at hadds
  generalize hnew : Node.descriptor pid (mem.s.createDescriptor pid (mem.s.descriptor 0 handle)).1 = new at hadds
  have hne : Node.descriptor 0 handle ≠ new := by
    rw [← hnew]
    simp [hpid.symm]
  have hopen : created.2.s.refers (.descriptor 0 handle) ≠ none := by
    rw [hadds.refers, Function.update_of_ne hne]
    exact hfresh.present
  have hdrops := finishClose_drops (show (0 : Int) ≠ -1 by decide) hopen
  rw [← freeDescriptor_state hopen] at hdrops
  have hreplaces : Replaces mem.s.refers (created.2.freeDescriptor handle).s.refers (.descriptor 0 handle) new := by
    refine ⟨hfresh.present, hfresh.unreferred, hadds.absent, ?_⟩
    intro value hvalue
    rw [hself, Option.some.injEq] at hvalue
    rw [hdrops.refers, hadds.refers, hvalue]
    funext node
    unfold without
    by_cases heq : node = new
    · rw [heq, Function.update_self, Function.update_self, if_neg (by simpa using hne.symm)]
    · rw [Function.update_of_ne heq, Function.update_of_ne heq]
  have hsystem := hadds.system.trans hdrops.system
  refine ⟨⟨?_, ?_, ?_⟩, hsystem⟩
  · exact hholds.attached.of_system hsystem
      (hreplaces.chained hholds.attached.chained (by rw [← hnew]; simp))
  · exact hreplaces.covered hholds.covered (by rw [← hnew]; exact not_false)
  · have hcreated := createDescriptor_accounts hcreate held hholds.accounted
    exact Accounts.of_pointers (setTable_pointers _ _ _) held hcreated

-- The record of one task is another, with the same descriptors.
theorem NewSlot.sameNodes {slot : Slot} (hnew : NewSlot mem later pid slot)
    (hdrivers : SameDrivers mem.s later.s)
    (hstatus : slot.status = (mem.s.kernel.taskTable pid).status)
    (htable : Slot.handlesV2 slot = mem.s.table pid) : SameNodes mem.s later.s := by
  refine ⟨⟨?_, hdrivers.mountpoint, hdrivers.devMountpoint⟩, refers_same hdrivers ?_⟩
  · intro other
    rw [hnew.taskTable]
    by_cases heq : other = pid
    · rw [heq, Function.update_self, hstatus]
    · rw [Function.update_of_ne heq]
  · funext other
    rw [State.table, hnew.taskTable]
    by_cases heq : other = pid
    · rw [heq, Function.update_self, htable]
    · rw [Function.update_of_ne heq]
      rfl

theorem createHandle_nodes (hcreate : mem.createHandle pid = some later) : SameNodes mem.s later.s := by
  unfold Memory.createHandle at hcreate
  dsimp only at hcreate
  cases hslot : mem.s.kernel.taskTable pid with
  | null => simp [createFileHandle, hslot, Slot.field] at hcreate
  | empty => simp [createFileHandle, hslot, Slot.field] at hcreate
  | task address task =>
      obtain ⟨pointer, count, htable, hothers⟩ := createFileHandle_slot hslot
      split at hcreate
      · cases hcreate
      · cases hcreate
        refine (newSlot_kernel mem _ _ htable hothers).sameNodes ⟨rfl, rfl, rfl, rfl⟩ ?_ ?_
        · rw [hslot]
          rfl
        · rw [State.table, hslot]
          rfl

theorem Holds.createHandle (hholds : Holds partitions held mem) (hcreate : mem.createHandle pid = some later) :
    Holds partitions held later ∧ SameSystem mem.s later.s := by
  have hnodes := createHandle_nodes hcreate
  exact ⟨hholds.of_same hnodes (createHandle_accounts hcreate), hnodes.system⟩

theorem vfsKuread_same {ptr len : Nat} {result : List UInt8 × Memory}
    (hread : mem.vfsKuread handle ptr len = some result) :
    SameNodes mem.s result.2.s ∧ Accounts mem result.2 := by
  unfold Memory.vfsKuread at hread
  dsimp only at hread
  split at hread
  · obtain ⟨read, htransfer, rfl⟩ := Option.map_eq_some_iff.mp hread
    have hmoves : SameNodes mem.s read.2 := by
      refine (transfer_moves ?_ htransfer).same
      intro m h result hcall
      cases hcall
      exact echfsUread_still h _
    have hpointers : SamePointers mem.s read.2 := by
      obtain ⟨entry, -, hrest⟩ := Option.bind_eq_some_iff.mp htransfer
      obtain ⟨device, -, hrest⟩ := Option.bind_eq_some_iff.mp hrest
      obtain ⟨h, -, hrest⟩ := Option.bind_eq_some_iff.mp hrest
      obtain ⟨moved, -, rfl⟩ := Option.map_eq_some_iff.mp hrest
      exact ⟨fun _ _ => rfl, rfl, rfl, rfl⟩
    have hquiet : Quiet read.2 { read.2 with
        kernel.heap.mem := ByteStore.write read.2.kernel.heap.mem ptr read.1 } :=
      ⟨rfl, rfl, rfl, rfl, rfl⟩
    exact ⟨hmoves.trans hquiet.nodes, .of_pointers (hpointers.trans ⟨fun _ _ => rfl, rfl, rfl, rfl⟩)⟩
  · cases hread

-- The kernel's descriptor of the program is closed again.
theorem Holds.loadProgram (hholds : Holds partitions held mem) {base size : Nat} {program : Target}
    {result : ProgramFile × Memory} (hload : mem.loadProgram base size program = some result) :
    Holds partitions held result.2 ∧ SameSystem mem.s result.2.s := by
  obtain ⟨opened, hopen, hload⟩ := Option.bind_eq_some_iff.mp hload
  have hstatus : (mem.s.kernel.taskTable 0).status ≠ none := by
    rw [hholds.attached.kernel]
    simp
  obtain ⟨hopened, hopens⟩ := hholds.vfsOpen hstatus (.of_flags mem _ _ (by decide)) hopen
  split at hload
  · cases hload
  rename_i hne
  obtain ⟨loaded, hread, hload⟩ := Option.bind_eq_some_iff.mp hload
  obtain ⟨closed, hclose, rfl⟩ := Option.map_eq_some_iff.mp hload
  rcases hopens with rfl | ⟨-, hbrings⟩
  · exact absurd rfl hne
  obtain ⟨hnodes, haccounts⟩ := vfsKuread_same hread
  have hfresh := hbrings.fresh
  rw [← hnodes.refers] at hfresh
  obtain ⟨hclosed, hsystem⟩ := (hopened.of_same hnodes haccounts).vfsClose hfresh.unreferred
    hfresh.present hclose
  exact ⟨hclosed, (hbrings.system.trans hnodes.system).trans hsystem⟩

theorem Holds.openStream (hholds : Holds partitions held mem) (hpid : pid ≠ 0)
    (hstatus : (mem.s.kernel.taskTable pid).status ≠ none) {stream : Target} {flags : Nat}
    (hflags : flags &&& O_TRUNC = 0) (hopen : mem.openStream pid stream flags = some later) :
    Holds partitions held later ∧ SameSystem mem.s later.s := by
  obtain ⟨opened, hopened, hopen⟩ := Option.bind_eq_some_iff.mp hopen
  have hkernel : (mem.s.kernel.taskTable 0).status ≠ none := by
    rw [hholds.attached.kernel]
    simp
  obtain ⟨hmiddle, hopens⟩ := hholds.vfsOpen hkernel (.of_flags mem _ _ hflags) hopened
  split at hopen
  · cases hopen
  rename_i hne
  obtain ⟨created, hcreate, rfl⟩ := Option.map_eq_some_iff.mp hopen
  rcases hopens with rfl | ⟨-, hbrings⟩
  · exact absurd rfl hne
  rw [← hbrings.system.status] at hstatus
  obtain ⟨hlater, hsystem⟩ := hmiddle.handOver hbrings.fresh hpid hstatus hcreate
  exact ⟨hlater, hbrings.system.trans hsystem⟩

theorem Holds.openStreams (hholds : Holds partitions held mem) (hpid : pid ≠ 0)
    (hstatus : (mem.s.kernel.taskTable pid).status ≠ none) {streams : Streams}
    (hopen : mem.openStreams pid streams = some later) :
    Holds partitions held later ∧ SameSystem mem.s later.s := by
  obtain ⟨first, hfirst, hopen⟩ := Option.bind_eq_some_iff.mp hopen
  obtain ⟨second, hsecond, hopen⟩ := Option.bind_eq_some_iff.mp hopen
  obtain ⟨third, hthird, hopen⟩ := Option.bind_eq_some_iff.mp hopen
  obtain ⟨hfirst, hfirstSystem⟩ := hholds.createHandle hfirst
  obtain ⟨hsecond, hsecondSystem⟩ := hfirst.createHandle hsecond
  obtain ⟨hthird, hthirdSystem⟩ := hsecond.createHandle hthird
  have hsystem := (hfirstSystem.trans hsecondSystem).trans hthirdSystem
  rw [← hsystem.status] at hstatus
  obtain ⟨withIn, hin, hopen⟩ := Option.bind_eq_some_iff.mp hopen
  obtain ⟨hin, hinSystem⟩ := hthird.openStream hpid hstatus (by decide) hin
  rw [← hinSystem.status] at hstatus
  obtain ⟨withOut, hout, hopen⟩ := Option.bind_eq_some_iff.mp hopen
  obtain ⟨hout, houtSystem⟩ := hin.openStream hpid hstatus (by decide) hout
  rw [← houtSystem.status] at hstatus
  obtain ⟨hlast, hlastSystem⟩ := hout.openStream hpid hstatus (by decide) hopen
  exact ⟨hlast, ((hsystem.trans hinSystem).trans houtSystem).trans hlastSystem⟩

end EchidnaOS.Vfs
