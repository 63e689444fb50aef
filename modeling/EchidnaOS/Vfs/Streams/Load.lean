import EchidnaOS.Echfs.Handle.Flush
import EchidnaOS.Vfs.Streams.Opens

namespace EchidnaOS.Vfs

open EchidnaOS.Lib EchidnaOS.Lib.SlotTable EchidnaOS.Klib EchidnaOS.Devfs EchidnaOS.Echfs

variable {s middle next : State} {mem : Memory} {m : Mount} {device : Nat} {path : Path} {handle : Int}

-- A call that opens nothing for the kernel, and closes at most some of its descriptors.
structure KernelCloses (s next : State) (handles : List Int) : Prop where
  system : SameSystem s next
  devices : next.devices = s.devices
  disks : next.disks = s.disks
  descriptors : ∀ handle, handle ∉ handles →
    inUse (·.free) (next.table 0) handle = inUse (·.free) (s.table 0) handle

theorem KernelCloses.refl (s : State) (handles : List Int) : KernelCloses s s handles :=
  ⟨.refl s, rfl, rfl, fun _ _ => rfl⟩

theorem KernelCloses.trans {first second : List Int} (hfirst : KernelCloses s middle first)
    (hsecond : KernelCloses middle next second) : KernelCloses s next (first ++ second) where
  system := hfirst.system.trans hsecond.system
  devices := hsecond.devices.trans hfirst.devices
  disks := hsecond.disks.trans hfirst.disks
  descriptors handle hnot := by
    rw [List.mem_append, not_or] at hnot
    exact (hsecond.descriptors handle hnot.2).trans (hfirst.descriptors handle hnot.1)

theorem setTable_closes {entry : FileHandleV2} (hentry : entryAt (s.table 0) handle = some entry)
    (new : FileHandleV2) : KernelCloses s (s.setTable 0 (setAt (s.table 0) handle new)) [handle] := by
  have hnew := setTable_table (status_of_entryAt hentry) (setAt (s.table 0) handle new)
  have hsame : (s.setTable 0 (setAt (s.table 0) handle new)).devices = s.devices ∧
      (s.setTable 0 (setAt (s.table 0) handle new)).disks = s.disks := by
    unfold State.setTable
    split <;> simp
  refine ⟨hnew.system, hsame.1, hsame.2, fun other hnot => ?_⟩
  have hne : other ≠ handle := by simpa using hnot
  rw [hnew.table, Function.update_self, inUse, inUse, entryAt_setAt_ne hne]

theorem finishClose_closes (s : State) (handle ret : Int) :
    KernelCloses s (finishClose s 0 handle ret).2 [handle] := by
  unfold finishClose
  split
  · exact .refl s _
  · split
    · exact .refl s _
    · rename_i entry hentry
      split
      · exact .refl s _
      · exact setTable_closes hentry { entry with free := true }

theorem devfsClose_closes (s : State) (handle : Int) : KernelCloses s (devfsClose s handle).2 [] := by
  unfold devfsClose
  split
  · exact .refl s _
  · split
    · exact .refl s _
    · exact ⟨⟨fun _ => rfl, rfl, rfl⟩, rfl, rfl, fun _ _ => rfl⟩

theorem vfsKclose_closes {closed : Int × State} (hclosed : vfsKclose s handle = some closed) :
    KernelCloses s closed.2 [handle] := by
  unfold vfsKclose at hclosed
  split at hclosed
  · cases hclosed
    exact (devfsClose_closes s _).trans (finishClose_closes _ handle _)
  · cases hclosed

-- A handle of echfs gives back the descriptor of its device.
theorem echfsClose_closes {entry : EchfsHandle} (hentry : inUse (·.free) s.echfsHandles handle = some entry)
    {closed : Int × State} (hclosed : echfsClose s handle = some closed) :
    KernelCloses s closed.2 [entry.devHandle] := by
  obtain ⟨hat, hlive⟩ := inUse_eq_some.mp hentry
  rw [echfsClose_live hat hlive] at hclosed
  obtain ⟨kernel, hkernel, rfl⟩ := Option.map_eq_some_iff.mp hclosed
  obtain ⟨hsystem, hdevices, hdisks, hdescriptors⟩ := vfsKclose_closes hkernel
  exact ⟨⟨hsystem.status, hsystem.mountpoint, hsystem.devMountpoint⟩, hdevices, hdisks, hdescriptors⟩

theorem vfsClose_closes {descriptor : FileHandleV2} (hdescriptor : s.descriptor 0 handle = descriptor)
    (hmount : s.mountpoint descriptor.mountpoint = some (.echfs m device)) {entry : EchfsHandle}
    (hentry : inUse (·.free) s.echfsHandles descriptor.internalHandle = some entry) {closed : Int × State}
    (hclose : vfsClose s 0 handle = some closed) :
    KernelCloses s closed.2 ([entry.devHandle] ++ [handle]) := by
  obtain ⟨there, hclosed, rfl⟩ := Option.map_eq_some_iff.mp hclose
  unfold State.internalClose at hclosed
  rw [hdescriptor, hmount] at hclosed
  exact (echfsClose_closes hentry hclosed).trans (finishClose_closes there.2 handle there.1)

theorem KernelOpens.system (hopens : KernelOpens s next) : SameSystem s next where
  status pid := by
    by_cases hpid : pid = 0
    · rw [hpid, hopens.status]
    · rw [hopens.tasks pid hpid]
  mountpoint := hopens.kept.mountpoint
  devMountpoint := hopens.devMountpoint

-- The lookups of files and devices, one by one.
theorem names_congr (hmountpoint : next.mountpoint = s.mountpoint) (hdevices : next.devices = s.devices)
    (hsize : ∀ mountpoint m device, s.mountpoint mountpoint = some (.echfs m device) →
      ∀ path, next.fileSize m device path = s.fileSize m device path) : next.names = s.names := by
  funext file
  unfold State.names
  rw [hmountpoint, hdevices]
  cases hmount : s.mountpoint file.mountpoint with
  | none => rfl
  | some there =>
      cases there with
      | devfs => rfl
      | echfs m device =>
          dsimp only
          rw [hsize _ m device hmount]

theorem names_of_disks (hmountpoint : next.mountpoint = s.mountpoint) (hdevices : next.devices = s.devices)
    (hdisks : next.disks = s.disks) : next.names = s.names := by
  refine names_congr hmountpoint hdevices fun _ m device _ path => ?_
  rw [State.fileSize, State.fileSize, hdisks]

-- The volume of a file whose cache waits to be written back.
structure FlushesData (s : State) (m : Mount) (device : Nat) (file : CachedFile) : Prop where
  geometry : Geometry m
  table : ∃ entries, Table m (s.disks device) entries
  flush : FlushOk m { disk := s.disks device, handle := deviceHandle s device } file
  volume : ∀ mountpoint m', s.mountpoint mountpoint = some (.echfs m' device) → m' = m

-- A program that was written to lies on a volume in order.
def ProgramOk (s : State) (program : Target) : Prop :=
  ∀ m device slot, s.mountpoint program.mountpoint = some (.echfs m device) →
    s.findCached program.path = some slot → (s.cachedFile slot).cacheStatus = .dirty →
      FlushesData s m device (s.cachedFile slot)

-- Lookups go by the table of a volume, and a block of data is none of it.
theorem FlushesData.names {file : CachedFile} (hflushes : FlushesData s m device file) {disk : ByteStore.Store}
    (hmountpoint : next.mountpoint = s.mountpoint) (hdevices : next.devices = s.devices)
    (hdisks : next.disks = Function.update s.disks device disk) (hone : OneBlock m (s.disks device) disk) :
    next.names = s.names := by
  obtain ⟨entries, htable⟩ := hflushes.table
  have hnext := hone.table hflushes.geometry htable
  refine names_congr hmountpoint hdevices fun mountpoint m' device' hmount path => ?_
  unfold State.fileSize
  rw [hdisks]
  by_cases heq : device' = device
  · subst heq
    obtain rfl := hflushes.volume mountpoint m' hmount
    rw [Function.update_self, htable.pathResolver_eq hnext]
  · rw [Function.update_of_ne heq]

-- A transfer of bytes out of a file: the position of the handle, and the disk of its device.
structure Reads (s next : State) (handle : Int) (entry : EchfsHandle) (dev : DevFile) : Prop where
  system : SameSystem s next
  table : next.table = s.table
  devices : next.devices = s.devices
  moved : ∃ ptr, inUse (·.free) next.echfsHandles handle = some { entry with ptr := ptr }
  disks : ∃ finish len curLoc, next.disks = Function.update s.disks dev.handle.device
    (ureadBytes finish len dev (s.record entry.cachedFile) curLoc).2.1.disk

theorem echfsUread_reads {entry : EchfsHandle} {number : Int} {record : DevfsHandle} {len : Nat}
    (hentry : inUse (·.free) s.echfsHandles handle = some entry)
    (hdevice : s.deviceOf entry = some (number, record)) {result : List UInt8 × State}
    (hread : Vfs.echfsUread s handle len = some result) :
    Reads s result.2 handle entry { disk := s.disks record.device, handle := record } := by
  obtain ⟨hat, hlive⟩ := inUse_eq_some.mp hentry
  unfold Vfs.echfsUread State.transfer State.openFile at hread
  simp only [hat, hdevice, Option.bind_some, Option.map_some, Option.some.injEq] at hread
  rw [← hread]
  refine ⟨⟨fun _ => rfl, rfl, rfl⟩, rfl, rfl, ?_, _, len, _, rfl⟩
  exact ⟨_, inUse_eq_some.mpr ⟨entryAt_setAt_self hat _, hlive⟩⟩

theorem vfsKuread_reads {number internal : Int} {entry : EchfsHandle} {record : DevfsHandle} {ptr len : Nat}
    {descriptor : FileHandleV2} {volume : Nat} (hdescriptor : mem.s.descriptor 0 number = descriptor)
    (hmount : mem.s.mountpoint descriptor.mountpoint = some (.echfs m volume))
    (hentry : inUse (·.free) mem.s.echfsHandles descriptor.internalHandle = some entry)
    (hdevice : mem.s.deviceOf entry = some (internal, record)) {result : List UInt8 × Memory}
    (hread : mem.vfsKuread number ptr len = some result) :
    Reads mem.s result.2.s descriptor.internalHandle entry
      { disk := mem.s.disks record.device, handle := record } := by
  unfold Memory.vfsKuread at hread
  rw [hdescriptor] at hread
  dsimp only at hread
  rw [hmount] at hread
  obtain ⟨read, htransfer, rfl⟩ := Option.map_eq_some_iff.mp hread
  obtain ⟨hsystem, htable, hdevices, hmoved, hdisks⟩ := echfsUread_reads hentry hdevice htransfer
  exact ⟨⟨hsystem.status, hsystem.mountpoint, hsystem.devMountpoint⟩, htable, hdevices, hmoved, hdisks⟩

-- The descriptors of the kernel stay, and every path leads to what it led to.
structure Keeps (s next : State) : Prop where
  descriptors : ∀ handle entry, inUse (·.free) (s.table 0) handle = some entry →
    inUse (·.free) (next.table 0) handle = some entry
  names : next.names = s.names

theorem Keeps.trans (hfirst : Keeps s middle) (hsecond : Keeps middle next) : Keeps s next where
  descriptors handle entry h := hsecond.descriptors handle entry (hfirst.descriptors handle entry h)
  names := hsecond.names.trans hfirst.names

theorem KernelOpens.keeps (hopens : KernelOpens s next) : Keeps s next where
  descriptors := hopens.kept.descriptors 0
  names := names_of_disks hopens.kept.mountpoint hopens.devices hopens.disks

theorem NewDevice.deviceOf {entry : EchfsHandle} (hnew : NewDevice s next entry.devHandle device)
    (hdevice : next.mountpoint s.devMountpoint = some .devfs) :
    ∃ internal, next.deviceOf entry = some (internal, deviceHandle s device) := by
  obtain ⟨internal, hdescriptor, hrecord⟩ := hnew.record
  refine ⟨internal, ?_⟩
  unfold State.deviceOf State.descriptor
  rw [(inUse_eq_some.mp hdescriptor).1, Option.getD_some]
  dsimp only
  rw [hdevice]
  simp [(inUse_eq_some.mp hrecord).1]

-- What a read of the program leaves of the lookups.
theorem Reads.names {entry : EchfsHandle} {record : DevfsHandle} {disk : ByteStore.Store}
    (hreads : Reads s next handle entry { disk := disk, handle := record }) (hdisk : s.disks record.device = disk)
    (hflushes : (s.record entry.cachedFile).cacheStatus = .dirty →
      record = deviceHandle s device ∧ FlushesData s m device (s.record entry.cachedFile)) :
    next.names = s.names := by
  obtain ⟨finish, len, curLoc, hdisks⟩ := hreads.disks
  by_cases hdirty : (s.record entry.cachedFile).cacheStatus = .dirty
  · obtain ⟨rfl, hdata⟩ := hflushes hdirty
    obtain rfl : s.disks device = disk := hdisk
    exact hdata.names hreads.system.mountpoint hreads.devices hdisks
      (ureadBytes_flush hdata.geometry fun _ => hdata.flush)
  · refine names_of_disks hreads.system.mountpoint hreads.devices ?_
    rw [hdisks, ureadBytes_clean hdirty]
    simp [← hdisk]

-- Only a file that was in the cache before can be dirty.
theorem CachedBefore.flushes {program : Target} (hprogram : ProgramOk s program)
    (hmount : s.mountpoint program.mountpoint = some (.echfs m device)) (hopens : KernelOpens s next)
    {file : CachedFile} (hbefore : CachedBefore s program.path file) (hdirty : file.cacheStatus = .dirty) :
    FlushesData next m device file := by
  obtain ⟨slot, hfound, rfl⟩ := hbefore hdirty
  obtain ⟨hgeometry, htable, hflush, hvolume⟩ := hprogram m device slot hmount hfound hdirty
  refine ⟨hgeometry, ?_, ?_, ?_⟩
  · rwa [hopens.disks]
  · unfold deviceHandle
    rw [hopens.disks, hopens.devices]
    exact hflush
  · rwa [hopens.kept.mountpoint]

theorem loadProgram_keeps (hattached : Attached mem.s) {program : Target} (hprogram : ProgramOk mem.s program)
    (hsize : mem.programSize program ≠ none) {base size : Nat} {result : ProgramFile × Memory}
    (hload : mem.loadProgram base size program = some result) :
    SameSystem mem.s result.2.s ∧ Keeps mem.s result.2.s := by
  obtain ⟨opened, hopen, hload⟩ := Option.bind_eq_some_iff.mp hload
  split at hload
  · cases hload
  rename_i hnumber
  obtain ⟨loaded, hread, hload⟩ := Option.bind_eq_some_iff.mp hload
  obtain ⟨result, hclose, rfl⟩ := Option.map_eq_some_iff.mp hload
  obtain ⟨closed, hclosed, rfl⟩ := Option.map_eq_some_iff.mp hclose
  have hstatus : (mem.s.kernel.taskTable 0).status ≠ none := by simp [hattached.kernel]
  rcases kopen_names hstatus (by decide) hopen with ⟨-, rfl⟩ | ⟨-, hopened⟩
  · exact absurd rfl hnumber
  obtain ⟨descriptor, hdescriptor, hon, hfile⟩ := hopened.entry
  have hopens := hopened.opens
  obtain ⟨m, device, hmount⟩ : ∃ m device,
      mem.s.mountpoint program.mountpoint = some (.echfs m device) := by
    unfold Memory.programSize at hsize
    split at hsize
    · exact ⟨_, _, by assumption⟩
    · exact absurd rfl hsize
  obtain ⟨entry, hentry, -, -, -, hbefore, hdevice⟩ := hfile m device hmount
  obtain ⟨internal, hdeviceOf⟩ := hdevice.deviceOf (by rw [hopens.kept.mountpoint, hattached.device])
  have hthere : opened.2.s.descriptor 0 opened.1 = descriptor := by
    rw [State.descriptor, (inUse_eq_some.mp hdescriptor).1, Option.getD_some]
  have hvolume : opened.2.s.mountpoint descriptor.mountpoint = some (.echfs m device) := by
    rw [hon.mountpoint, hopens.kept.mountpoint, hmount]
  have hreads := vfsKuread_reads hthere hvolume hentry hdeviceOf hread
  obtain ⟨ptr, hmoved⟩ := hreads.moved
  have hcloses : KernelCloses loaded.2.s closed.2 ([entry.devHandle] ++ [opened.1]) := by
    refine vfsClose_closes ?_ (by rw [hreads.system.mountpoint, hvolume]) hmoved hclosed
    rw [State.descriptor, hreads.table, (inUse_eq_some.mp hdescriptor).1, Option.getD_some]
  have hkept : Keeps mem.s closed.2 := by
    refine ⟨fun number old hold => ?_, ?_⟩
    · have habsent : number ∉ [entry.devHandle] ++ [opened.1] := by
        simp only [List.mem_append, List.mem_singleton, not_or]
        constructor
        · rintro rfl
          simp [hdevice.absent] at hold
        · rintro rfl
          simp [hopened.absent] at hold
      rw [hcloses.descriptors number habsent, hreads.table]
      exact hopens.kept.descriptors 0 number old hold
    · rw [names_of_disks hcloses.system.mountpoint hcloses.devices hcloses.disks, ← hopens.keeps.names]
      refine hreads.names rfl fun hdirty => ⟨?_, hbefore.flushes hprogram hmount hopens hdirty⟩
      rw [deviceHandle, deviceHandle, hopens.devices]
  exact ⟨(hopens.system.trans hreads.system).trans hcloses.system, hkept⟩

-- A call that changes other tasks than that of the kernel.
structure TasksOnly (s next : State) : Prop where
  mountpoint : next.mountpoint = s.mountpoint
  devices : next.devices = s.devices
  disks : next.disks = s.disks
  table : next.table 0 = s.table 0

theorem TasksOnly.trans (hfirst : TasksOnly s middle) (hsecond : TasksOnly middle next) : TasksOnly s next :=
  ⟨hsecond.mountpoint.trans hfirst.mountpoint, hsecond.devices.trans hfirst.devices,
    hsecond.disks.trans hfirst.disks, hsecond.table.trans hfirst.table⟩

theorem TasksOnly.keeps (htasks : TasksOnly s next) : Keeps s next := by
  refine ⟨?_, names_of_disks htasks.mountpoint htasks.devices htasks.disks⟩
  simp [htasks.table]

theorem alloc_state (mem : Memory) (size : Nat) :
    ∃ heap, (mem.alloc size).2.s = { mem.s with kernel.heap := heap } := by
  obtain ⟨heap, hnull, hsome⟩ := alloc_spec mem size
  refine ⟨heap, ?_⟩
  by_cases hzero : (mem.alloc size).1 = 0
  · rw [hnull hzero]
  · rw [hsome hzero]

theorem createHandle_tasks {child : Nat} {later : Memory} (hcreate : mem.createHandle child = some later) :
    TasksOnly mem.s later.s ∧ later.s.table = mem.s.table := by
  unfold Memory.createHandle at hcreate
  dsimp only at hcreate
  cases hslot : mem.s.kernel.taskTable child with
  | null => simp [createFileHandle, hslot, Slot.field] at hcreate
  | empty => simp [createFileHandle, hslot, Slot.field] at hcreate
  | task address task =>
      obtain ⟨pointer, count, htable, -⟩ := createFileHandle_slot hslot
      split at hcreate
      · cases hcreate
      · cases hcreate
        have hsame : State.table { mem.s with kernel := createFileHandle mem.s.kernel child } =
            mem.s.table := by
          funext other
          unfold State.table
          dsimp only
          rw [htable]
          by_cases heq : other = child
          · rw [heq, Function.update_self, hslot]
            rfl
          · rw [Function.update_of_ne heq]
        exact ⟨⟨rfl, rfl, rfl, congrFun hsame 0⟩, hsame⟩

-- A new task, with nothing open.
structure CreatedTask (s next : State) (child : Nat) : Prop where
  kernel : child ≠ 0
  free : (s.kernel.taskTable child).status = none
  status : (next.kernel.taskTable child).status ≠ none
  table : next.table child = []

-- task_create finds a number, or changes nothing but a free entry.
theorem taskCreate_tasks (hkernel : (mem.s.kernel.taskTable 0).status ≠ none) (new : Task) :
    TasksOnly mem.s (mem.taskCreate new).2.s ∧
    ((mem.taskCreate new).1 = none → SameSystem mem.s (mem.taskCreate new).2.s) ∧
    ∀ child, (mem.taskCreate new).1 = some child → child ≠ 0 ∧ (mem.s.kernel.taskTable child).status = none ∧
      ∃ address, (mem.taskCreate new).2.s.kernel.taskTable =
        Function.update mem.s.kernel.taskTable child (.task address new) := by
  rcases taskCreate_spec mem new with ⟨hnone, -, kernel, hcreated, -, htable⟩ |
    ⟨child, address, kernel, hsome, -, hfree, hcreated, htable, -⟩
  · have hslot : kernel.taskTable 0 = mem.s.kernel.taskTable 0 :=
      (htable 0).resolve_right fun hfree => hkernel hfree.2
    rw [hnone, hcreated]
    refine ⟨⟨rfl, rfl, rfl, congrArg Slot.handlesV2 hslot⟩, fun _ => ⟨fun other => ?_, rfl, rfl⟩, by simp⟩
    rcases htable other with heq | ⟨hfree, hfree'⟩
    · exact congrArg Slot.status heq
    · exact hfree.trans hfree'.symm
  · have hchild : child ≠ 0 := by
      rintro rfl
      exact hkernel hfree
    rw [hsome, hcreated]
    refine ⟨⟨rfl, rfl, rfl, ?_⟩, by simp, ?_⟩
    · simp [State.table, htable, hchild.symm]
    · rintro other hother
      cases hother
      exact ⟨hchild, hfree, address, htable⟩

theorem setSlot_tasks (mem : Memory) {child : Nat} (hchild : child ≠ 0) (address : Nat) (task : Task) :
    TasksOnly mem.s (mem.setSlot child address task).s := by
  refine ⟨rfl, rfl, rfl, ?_⟩
  simp [State.table, Memory.setSlot, Kernel.setTask, hchild.symm]

theorem createHandles_tasks {child : Nat} {later : Memory} (hcreate : mem.createHandles child = some later) :
    TasksOnly mem.s later.s ∧ later.s.table = mem.s.table ∧ SameSystem mem.s later.s := by
  obtain ⟨first, hfirst, hcreate⟩ := Option.bind_eq_some_iff.mp hcreate
  obtain ⟨second, hsecond, hthird⟩ := Option.bind_eq_some_iff.mp hcreate
  obtain ⟨hone, hone'⟩ := createHandle_tasks hfirst
  obtain ⟨htwo, htwo'⟩ := createHandle_tasks hsecond
  obtain ⟨hthree, hthree'⟩ := createHandle_tasks hthird
  refine ⟨(hone.trans htwo).trans hthree, (hthree'.trans htwo').trans hone', ?_⟩
  exact ((createHandle_nodes hfirst).system.trans (createHandle_nodes hsecond).system).trans
    (createHandle_nodes hthird).system

theorem setHeap_tasks (mem : Memory) (heap : Heap) (live : List Nat) :
    TasksOnly mem.s ({ mem with s.kernel.heap := heap, live := live } : Memory).s :=
  ⟨rfl, rfl, rfl, rfl⟩

theorem free_tasks (mem : Memory) (ptr : Nat) : TasksOnly mem.s (mem.free ptr).s :=
  setHeap_tasks mem (kfree mem.s.kernel.heap ptr) (mem.live.filter (· ≠ ptr))

theorem createLaunched_creates (hattached : Attached mem.s) {pid : Nat} {info : TaskInfo} {program : Target}
    (hprogram : ProgramOk mem.s program) {number : Option (Nat × Nat)} {created : Memory}
    (hcreate : mem.createLaunched pid info program = some (number, created)) :
    Keeps mem.s created.s ∧ (created.s.kernel.taskTable 0).status ≠ none ∧
    (number = none → ∀ other, (created.s.kernel.taskTable other).status =
      (mem.s.kernel.taskTable other).status) ∧
    ∀ child base, number = some (child, base) → CreatedTask mem.s created.s child := by
  unfold Memory.createLaunched at hcreate
  split at hcreate
  · cases hcreate
    exact ⟨⟨fun _ _ h => h, rfl⟩, by simp [hattached.kernel], by simp, by simp⟩
  rename_i size hsize
  obtain ⟨heap, halloc⟩ := alloc_state mem (programPages size * PAGE_SIZE % 2 ^ 32)
  dsimp only at hcreate
  generalize mem.alloc (programPages size * PAGE_SIZE % 2 ^ 32) = base at hcreate halloc
  have hbase : TasksOnly mem.s base.2.s := by
    rw [halloc]
    exact ⟨rfl, rfl, rfl, rfl⟩
  have hsystem : SameSystem mem.s base.2.s := by
    rw [halloc]
    exact ⟨fun _ => rfl, rfl, rfl⟩
  split at hcreate
  · cases hcreate
    refine ⟨hbase.keeps, ?_, fun _ => hsystem.status, by simp⟩
    simp [hsystem.status, hattached.kernel]
  obtain ⟨loaded, hload, hcreate⟩ := Option.bind_eq_some_iff.mp hcreate
  have hattached' : Attached base.2.s := by
    have hquiet : Quiet mem.s base.2.s := by
      rw [halloc]
      exact ⟨rfl, rfl, rfl, rfl, rfl⟩
    exact hquiet.attached hattached
  have hprogram' : ProgramOk base.2.s program := by
    rw [halloc]
    exact fun m device slot hmount hfound hdirty =>
      have hflushes := hprogram m device slot hmount hfound hdirty
      ⟨hflushes.geometry, hflushes.table, hflushes.flush, hflushes.volume⟩
  have hsize' : base.2.programSize program = mem.programSize program := by
    unfold Memory.programSize State.fileSize
    rw [halloc]
  obtain ⟨hloaded, hkeeps⟩ := loadProgram_keeps hattached' hprogram' (by simp [hsize', hsize]) hload
  have hsystem := hsystem.trans hloaded
  have hkeeps := hbase.keeps.trans hkeeps
  have hkernel : (loaded.2.s.kernel.taskTable 0).status ≠ none := by
    simp [hsystem.status, hattached.kernel]
  obtain ⟨htasks, hnone, hsome⟩ := taskCreate_tasks hkernel (newTask pid base.1 loaded.1)
  generalize loaded.2.taskCreate (newTask pid base.1 loaded.1) = there at *
  obtain ⟨number, there⟩ := there
  cases number with
  | none =>
      cases hcreate
      have hsystem := (hsystem.trans (hnone rfl)).trans (free_quiet there base.1).system
      refine ⟨hkeeps.trans (htasks.trans (free_tasks there base.1)).keeps, ?_, fun _ => hsystem.status, by simp⟩
      simp [hsystem.status, hattached.kernel]
  | some child =>
      obtain ⟨hchild, hfree, address, htable⟩ := hsome child rfl
      dsimp only at htable
      obtain ⟨handles, hhandles, hcreate⟩ := Option.map_eq_some_iff.mp hcreate
      cases hcreate
      obtain ⟨hcreated, hsame, hcreatedSystem⟩ := createHandles_tasks hhandles
      have hslot := setSlot_tasks there hchild (there.root (.task child .entry))
        (setupTask (newTask pid base.1 loaded.1) loaded.1 info)
      refine ⟨hkeeps.trans ((htasks.trans hslot).trans hcreated).keeps, ?_, by simp, ?_⟩
      · rw [hcreatedSystem.status]
        simp only [Memory.setSlot, Kernel.setTask, htable, Function.update_of_ne hchild.symm]
        exact hkernel
      · intro number base hnumber
        cases hnumber
        refine ⟨hchild, (hsystem.status child).symm.trans hfree, ?_, ?_⟩
        · rw [hcreatedSystem.status]
          simp [Memory.setSlot, Kernel.setTask, Slot.status]
        · rw [hsame]
          simp [State.table, Memory.setSlot, Kernel.setTask, Slot.handlesV2, setupTask, newTask]

end EchidnaOS.Vfs
