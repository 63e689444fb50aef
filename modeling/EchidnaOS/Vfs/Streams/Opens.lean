import EchidnaOS.Vfs.Fork
import EchidnaOS.Vfs.Streams

namespace EchidnaOS.Vfs

open EchidnaOS.Lib EchidnaOS.Lib.SlotTable EchidnaOS.Klib EchidnaOS.Devfs EchidnaOS.Echfs

variable {s middle next : State} {mem later : Memory} {m : Mount} {device flags slot : Nat} {path : Path}

-- What opening something for the kernel keeps: what is in use, the devices and their contents, and
-- the other tasks.
structure KernelOpens (s next : State) : Prop where
  kept : Kept s next
  devMountpoint : next.devMountpoint = s.devMountpoint
  devices : next.devices = s.devices
  disks : next.disks = s.disks
  tasks : ∀ other, other ≠ 0 → next.kernel.taskTable other = s.kernel.taskTable other
  status : (next.kernel.taskTable 0).status = (s.kernel.taskTable 0).status

theorem KernelOpens.refl (s : State) : KernelOpens s s :=
  ⟨(Quiet.refl s).kept, rfl, rfl, rfl, fun _ _ => rfl, rfl⟩

theorem KernelOpens.trans (hfirst : KernelOpens s middle) (hsecond : KernelOpens middle next) :
    KernelOpens s next where
  kept := hfirst.kept.trans hsecond.kept
  devMountpoint := hsecond.devMountpoint.trans hfirst.devMountpoint
  devices := hsecond.devices.trans hfirst.devices
  disks := hsecond.disks.trans hfirst.disks
  tasks other hother := (hsecond.tasks other hother).trans (hfirst.tasks other hother)
  status := hsecond.status.trans hfirst.status

theorem Quiet.kernelOpens (hquiet : Quiet s next) (hdevices : next.devices = s.devices)
    (hdisks : next.disks = s.disks) : KernelOpens s next where
  kept := hquiet.kept
  devMountpoint := hquiet.devMountpoint
  devices := hdevices
  disks := hdisks
  tasks _ _ := by rw [hquiet.taskTable]
  status := by rw [hquiet.taskTable]

-- A call that grows an array, and leaves the records of the cached files.
structure Grows (s next : State) : Prop where
  quiet : Quiet s next
  devices : next.devices = s.devices
  disks : next.disks = s.disks
  cachedFiles : next.cachedFiles = s.cachedFiles
  record : next.record = s.record

theorem Grows.refl (s : State) : Grows s s := ⟨.refl s, rfl, rfl, rfl, rfl⟩

theorem Grows.trans (hfirst : Grows s middle) (hsecond : Grows middle next) : Grows s next :=
  ⟨hfirst.quiet.trans hsecond.quiet, hsecond.devices.trans hfirst.devices, hsecond.disks.trans hfirst.disks,
    hsecond.cachedFiles.trans hfirst.cachedFiles, hsecond.record.trans hfirst.record⟩

theorem Grows.opens (hgrows : Grows s next) : KernelOpens s next :=
  hgrows.quiet.kernelOpens hgrows.devices hgrows.disks

theorem resize_grows {ptr new size : Nat} (hresize : mem.resize ptr size = some (new, later)) :
    Grows mem.s later.s := by
  obtain ⟨-, heap, rfl⟩ := resize_spec hresize
  exact ⟨⟨rfl, rfl, rfl, rfl, rfl⟩, rfl, rfl, rfl, rfl⟩

theorem growMap_grows {entries : List Nat} (hgrow : mem.growMap slot entries = some later) :
    Grows mem.s later.s := by
  induction entries generalizing mem with
  | nil =>
      cases hgrow
      exact .refl _
  | cons i rest ih =>
      obtain ⟨⟨new, grown⟩, hresize, hrest⟩ := Option.bind_eq_some_iff.mp hgrow
      have hfirst := resize_grows hresize
      have hlast := ih hrest
      exact hfirst.trans hlast

theorem growDevfs_grows (hgrow : mem.growDevfs = some later) : Grows mem.s later.s := by
  unfold Memory.growDevfs at hgrow
  split at hgrow
  · cases hgrow
    exact .refl _
  · obtain ⟨⟨new, grown⟩, hresize, rfl⟩ := Option.map_eq_some_iff.mp hgrow
    have hgrows := resize_grows hresize
    exact hgrows

theorem growEchfs_grows (hgrow : mem.growEchfs = some later) : Grows mem.s later.s := by
  unfold Memory.growEchfs at hgrow
  split at hgrow
  · cases hgrow
    exact .refl _
  · obtain ⟨⟨new, grown⟩, hresize, rfl⟩ := Option.map_eq_some_iff.mp hgrow
    have hgrows := resize_grows hresize
    exact hgrows

-- A record that was there before, or one without a block of its own.
def CachedBefore (s : State) (path : Path) (file : CachedFile) : Prop :=
  file.cacheStatus = .dirty → ∃ slot, s.findCached path = some slot ∧ s.cachedFile slot = file

theorem newCachedFile_status {disk : ByteStore.Store} {file : CachedFile}
    (hnew : newCachedFile disk m path = some file) : file.cacheStatus = .notReady := by
  obtain ⟨allocMap, -, rfl⟩ := Option.map_eq_some_iff.mp hnew
  rfl

theorem addCached_opens {file : CachedFile} (hadd : mem.addCached file true = some later) :
    KernelOpens mem.s later.s ∧
      (later.s.record (slotAddress later.s.cachedFiles mem.s.cachedFilesPtr)).cacheStatus = file.cacheStatus := by
  unfold Memory.addCached at hadd
  dsimp only at hadd
  split at hadd
  · cases hadd
  · cases hadd
    refine ⟨(addCached_quiet mem.s file true).kernelOpens rfl rfl, ?_⟩
    simp [State.addCached]

theorem cacheFile_opens {result : Nat × Memory} (hcache : mem.cacheFile m device path true = some result) :
    KernelOpens mem.s result.2.s ∧
      CachedBefore mem.s path (result.2.s.record (slotAddress result.2.s.cachedFiles result.1)) := by
  have hsearch := search_state mem path
  unfold Memory.cacheFile at hcache
  split at hcache
  · rename_i slot hfound
    cases hcache
    dsimp only
    rw [hsearch]
    exact ⟨.refl _, fun _ => ⟨slot, hfound, rfl⟩⟩
  · obtain ⟨file, hfile, hcache⟩ := Option.bind_eq_some_iff.mp hcache
    obtain ⟨added, hadd, hcache⟩ := Option.bind_eq_some_iff.mp hcache
    obtain ⟨loaded, hload, rfl⟩ := Option.map_eq_some_iff.mp hcache
    obtain ⟨⟨new, first⟩, hfirst, hgrow⟩ := Option.bind_eq_some_iff.mp hload
    have hlast := growMap_grows hgrow
    have hgrows := (resize_grows hfirst).trans hlast
    obtain ⟨hopens, hstatus⟩ := addCached_opens hadd
    rw [hsearch] at hopens hstatus
    refine ⟨hopens.trans hgrows.opens, fun hdirty => ?_⟩
    -- a new record has nothing in its cache
    dsimp only [Memory.look] at hdirty
    rw [hgrows.record, hgrows.cachedFiles, hstatus, newCachedFile_status hfile] at hdirty
    cases hdirty

-- A descriptor of a task, in a slot where none was in use.
theorem createDescriptor_new {pid : Nat} (hstatus : (mem.s.kernel.taskTable pid).status ≠ none)
    {entry : FileHandleV2} (hlive : entry.free = false) {result : Int × Memory}
    (hcreate : mem.createDescriptor pid entry = some result) :
    0 ≤ result.1 ∧ inUse (·.free) (mem.s.table pid) result.1 = none ∧
      inUse (·.free) (result.2.s.table pid) result.1 = some entry := by
  obtain ⟨hnumber, hstate⟩ := createDescriptor_state hcreate
  obtain ⟨habsent, hupdate⟩ := inUse_create (·.free) (mem.s.table pid) entry
  have htable := (createDescriptor_table hstatus entry).table
  rw [hnumber, hstate, htable, Function.update_self, hupdate]
  refine ⟨Int.natCast_nonneg _, habsent, ?_⟩
  exact (Function.update_self _ _ _).trans (if_neg (by simp [hlive]))

theorem createDescriptor_opens (hstatus : (mem.s.kernel.taskTable 0).status ≠ none) {entry : FileHandleV2}
    {result : Int × Memory} (hcreate : mem.createDescriptor 0 entry = some result) :
    KernelOpens mem.s result.2.s ∧ result.2.s.cachedFiles = mem.s.cachedFiles ∧
      result.2.s.record = mem.s.record := by
  obtain ⟨-, hstate⟩ := createDescriptor_state hcreate
  have hkept := createDescriptor_kept hstatus entry
  have hsystem := (createDescriptor_table hstatus entry).system
  rw [← hstate] at hkept hsystem
  have hsame : result.2.s.devices = mem.s.devices ∧ result.2.s.disks = mem.s.disks ∧
      result.2.s.cachedFiles = mem.s.cachedFiles ∧ result.2.s.record = mem.s.record := by
    rw [hstate]
    exact ⟨rfl, rfl, rfl, rfl⟩
  exact ⟨⟨hkept, hsystem.devMountpoint, hsame.1, hsame.2.1,
    fun other hother => createDescriptor_tasks hother hcreate, hsystem.status 0⟩, hsame.2.2⟩

theorem devfsCreateHandle_opens (s : State) {entry : DevfsHandle} (hlive : entry.free = false) :
    KernelOpens s (devfsCreateHandle s entry).2 ∧
      inUse (·.free) (devfsCreateHandle s entry).2.devfsHandles (devfsCreateHandle s entry).1 = some entry := by
  obtain ⟨-, hupdate⟩ := inUse_create (·.free) s.devfsHandles entry
  refine ⟨⟨devfsCreateHandle_kept s entry, rfl, rfl, rfl, fun _ _ => rfl, rfl⟩, ?_⟩
  exact (congrFun hupdate _).trans ((Function.update_self _ _ _).trans (if_neg (by simp [hlive])))

theorem echfsCreateHandle_opens (s : State) {entry : EchfsHandle} (hlive : entry.free = false) :
    KernelOpens s (echfsCreateHandle s entry).2 ∧
      inUse (·.free) (echfsCreateHandle s entry).2.echfsHandles (echfsCreateHandle s entry).1 = some entry := by
  obtain ⟨-, hupdate⟩ := inUse_create (·.free) s.echfsHandles entry
  refine ⟨⟨echfsCreateHandle_kept s entry, rfl, rfl, rfl, fun _ _ => rfl, rfl⟩, ?_⟩
  exact (congrFun hupdate _).trans ((Function.update_self _ _ _).trans (if_neg (by simp [hlive])))

-- A descriptor of the kernel that was not there, for a new handle of a device.
structure NewDevice (s next : State) (handle : Int) (device : Nat) : Prop where
  absent : inUse (·.free) (s.table 0) handle = none
  record : ∃ internal, inUse (·.free) (next.table 0) handle =
      some { mountpoint := s.devMountpoint, internalHandle := internal } ∧
    inUse (·.free) next.devfsHandles internal = some (deviceHandle s device)

theorem NewDevice.mono {handle : Int} (hnew : NewDevice s middle handle device) (hkept : Kept middle next) :
    NewDevice s next handle device := by
  obtain ⟨internal, hentry, hrecord⟩ := hnew.record
  exact ⟨hnew.absent, internal, hkept.descriptors 0 handle _ hentry, hkept.devfs internal _ hrecord⟩

-- What was not in use later was not in use before.
theorem NewDevice.before {handle : Int} (hopens : KernelOpens s middle)
    (hnew : NewDevice middle next handle device) : NewDevice s next handle device := by
  obtain ⟨internal, hentry, hrecord⟩ := hnew.record
  refine ⟨absent_of_later (hopens.kept.descriptors 0) hnew.absent, internal, ?_, ?_⟩
  · rw [hentry, hopens.devMountpoint]
  · rw [hrecord, deviceHandle, deviceHandle, hopens.devices]

theorem kopen_opens (hstatus : (mem.s.kernel.taskTable 0).status ≠ none) {result : Int × Memory}
    (hopen : mem.kopen device = some result) :
    KernelOpens mem.s result.2.s ∧ NewDevice mem.s result.2.s result.1 device ∧
      result.2.s.cachedFiles = mem.s.cachedFiles ∧ result.2.s.record = mem.s.record := by
  rw [kopen_eq] at hopen
  obtain ⟨grown, hgrow, hcreate⟩ := Option.bind_eq_some_iff.mp hopen
  have hgrows := growDevfs_grows hgrow
  obtain ⟨hhandle, hrecord⟩ := devfsCreateHandle_opens grown.s
    (show (deviceHandle grown.s device).free = false from rfl)
  have hopened := hgrows.opens.trans hhandle
  have hstatus' : (grown.s.kernel.taskTable 0).status ≠ none := by
    rw [hgrows.opens.status]
    exact hstatus
  obtain ⟨hlast, hfiles, hrecords⟩ := createDescriptor_opens (by exact hstatus') hcreate
  obtain ⟨-, habsent, hentry⟩ := createDescriptor_new (by exact hstatus') rfl hcreate
  have hnew : NewDevice grown.s result.2.s result.1 device :=
    ⟨absent_of_later (hhandle.kept.descriptors 0) habsent, _, hentry, hlast.kept.devfs _ _ hrecord⟩
  refine ⟨hopened.trans hlast, hnew.before hgrows.opens, ?_, ?_⟩
  · exact hfiles.trans hgrows.cachedFiles
  · exact hrecords.trans hgrows.record

-- A handle of echfs on a file, with a device of its own.
def NewFile (s next : State) (handle : Int) (m : Mount) (device : Nat) (path : Path) (flags : Nat) : Prop :=
  ∃ entry, inUse (·.free) next.echfsHandles handle = some entry ∧ entry.path = path ∧ entry.mount = m ∧
    entry.flags = flags ∧ CachedBefore s path (next.record entry.cachedFile) ∧
    NewDevice s next entry.devHandle device

theorem openCached_opens (hstatus : (mem.s.kernel.taskTable 0).status ≠ none) {size : Nat}
    {result : Int × Memory} (hopen : mem.openCached m device path flags size = some result) :
    0 ≤ result.1 ∧ KernelOpens mem.s result.2.s ∧ NewFile mem.s result.2.s result.1 m device path flags := by
  obtain ⟨cached, hcache, hopen⟩ := Option.bind_eq_some_iff.mp hopen
  obtain ⟨opened, hkopen, hopen⟩ := Option.bind_eq_some_iff.mp hopen
  obtain ⟨grown, hgrow, rfl⟩ := Option.map_eq_some_iff.mp hopen
  obtain ⟨hcached, hbefore⟩ := cacheFile_opens hcache
  rw [← hcached.status] at hstatus
  obtain ⟨hdevice, hnew, hfiles, hrecords⟩ := kopen_opens hstatus hkopen
  have hgrows := growEchfs_grows hgrow
  have hready := (hcached.trans hdevice).trans hgrows.opens
  refine ⟨Int.natCast_nonneg _, ?_⟩
  dsimp only
  generalize hentry : EchfsHandle.mk _ _ _ _ _ _ _ _ _ = entry
  have hlive : entry.free = false := by rw [← hentry]
  obtain ⟨hlast, hrecord⟩ := echfsCreateHandle_opens grown.s hlive
  have hdevHandle : entry.devHandle = opened.1 := by rw [← hentry]
  have hslot : entry.cachedFile = slotAddress grown.s.cachedFiles cached.1 := by rw [← hentry]
  refine ⟨hready.trans hlast, entry, hrecord, by rw [← hentry], by rw [← hentry], by rw [← hentry], ?_, ?_⟩
  · have hsame : (echfsCreateHandle grown.s entry).2.record = cached.2.s.record :=
      hgrows.record.trans hrecords
    rw [hsame, hslot, hgrows.cachedFiles, hfiles]
    exact hbefore
  · rw [hdevHandle]
    exact (hnew.mono (hgrows.opens.trans hlast).kept).before hcached

-- The flags of an open that neither creates nor changes a file.
abbrev Plain (flags : Nat) : Prop :=
  flags &&& O_TRUNC = 0 ∧ flags &&& O_APPEND = 0 ∧ flags &&& O_CREAT = 0

theorem openFile_names (hstatus : (mem.s.kernel.taskTable 0).status ≠ none) (hplain : Plain flags)
    {result : Int × Memory} (hopen : mem.openFile m device path flags = some result) :
    mem.s.fileSize m device path = none ∧ result = (-1, mem) ∨
    mem.s.fileSize m device path ≠ none ∧ 0 ≤ result.1 ∧ KernelOpens mem.s result.2.s ∧
      NewFile mem.s result.2.s result.1 m device path flags := by
  obtain ⟨found, hfound, hopen⟩ := Option.bind_eq_some_iff.mp hopen
  unfold State.findOrCreate at hfound
  cases hsize : mem.s.fileSize m device path with
  | none =>
      rw [hsize] at hfound
      dsimp only at hfound
      rw [if_pos hplain.2.2] at hfound
      cases hfound
      cases hopen
      exact Or.inl ⟨rfl, rfl⟩
  | some size =>
      rw [hsize] at hfound
      cases hfound
      dsimp only at hopen
      rw [Memory.truncate, if_pos hplain.1, Option.bind_some] at hopen
      obtain ⟨hnumber, hopens, hfile⟩ := openCached_opens hstatus hopen
      exact Or.inr ⟨by simp, hnumber, hopens, hfile⟩

theorem devfsOpen_names (hplain : Plain flags) {result : Int × Memory}
    (hopen : mem.devfsOpen path flags = some result) :
    (mem.s.devices.any fun device => device.name = skipSlash path.text) = false ∧ result = (-1, mem) ∨
    (mem.s.devices.any fun device => device.name = skipSlash path.text) = true ∧ 0 ≤ result.1 ∧
      KernelOpens mem.s result.2.s ∧ ∃ entry, inUse (·.free) result.2.s.devfsHandles result.1 = some entry ∧
        entry.path = path.text ∧ entry.flags = flags := by
  have hflags : ¬(flags &&& O_TRUNC ≠ 0 ∨ flags &&& O_APPEND ≠ 0 ∨ flags &&& O_CREAT ≠ 0) := by
    simp [hplain.1, hplain.2.1, hplain.2.2]
  unfold Memory.devfsOpen at hopen
  cases hfound : mem.s.devices.findIdx? fun device => device.name = skipSlash path.text with
  | none =>
      have hnone : (Vfs.devfsOpen mem.s path flags).1 = -1 := by
        unfold Vfs.devfsOpen
        rw [hfound]
      rw [if_pos hnone] at hopen
      cases hopen
      refine Or.inl ⟨?_, rfl⟩
      simpa using hfound
  | some device =>
      have hsome : ∀ s : State, s.devices = mem.s.devices → ∃ entry : DevfsHandle, entry.free = false ∧
          entry.path = path.text ∧ entry.flags = flags ∧
          Vfs.devfsOpen s path flags = devfsCreateHandle s entry := by
        intro s hdevices
        unfold Vfs.devfsOpen
        rw [hdevices, hfound]
        dsimp only
        rw [if_neg hflags]
        exact ⟨_, rfl, rfl, rfl, rfl⟩
      obtain ⟨entry, hlive, hpath, hentry, hcreate⟩ := hsome mem.s rfl
      have hnumber : (devfsCreateHandle mem.s entry).1 ≠ -1 := by
        simp only [devfsCreateHandle]
        omega
      rw [hcreate, if_neg hnumber] at hopen
      obtain ⟨grown, hgrow, rfl⟩ := Option.map_eq_some_iff.mp hopen
      have hgrows := growDevfs_grows hgrow
      obtain ⟨entry, hlive, hpath, hentry, hcreate⟩ := hsome grown.s hgrows.devices
      obtain ⟨hopens, hrecord⟩ := devfsCreateHandle_opens grown.s hlive
      dsimp only
      rw [hcreate]
      refine Or.inr ⟨?_, Int.natCast_nonneg _, hgrows.opens.trans hopens, entry, hrecord, hpath, hentry⟩
      obtain ⟨hlt, hname, -⟩ := List.findIdx?_eq_some_iff_getElem.mp hfound
      exact List.any_eq_true.mpr ⟨_, List.getElem_mem hlt, hname⟩

-- The file systems keep what they have open.
structure KeepsHandles (s next : State) : Prop where
  mountpoint : next.mountpoint = s.mountpoint
  devfs : ∀ handle entry, inUse (·.free) s.devfsHandles handle = some entry →
    inUse (·.free) next.devfsHandles handle = some entry
  echfs : ∀ handle entry, inUse (·.free) s.echfsHandles handle = some entry →
    inUse (·.free) next.echfsHandles handle = some entry

theorem Kept.handles (hkept : Kept s next) : KeepsHandles s next := ⟨hkept.mountpoint, hkept.devfs, hkept.echfs⟩

theorem KeepsHandles.refl (s : State) : KeepsHandles s s := ⟨rfl, fun _ _ h => h, fun _ _ h => h⟩

theorem KeepsHandles.trans (hfirst : KeepsHandles s middle) (hsecond : KeepsHandles middle next) :
    KeepsHandles s next where
  mountpoint := hsecond.mountpoint.trans hfirst.mountpoint
  devfs handle entry h := hsecond.devfs handle entry (hfirst.devfs handle entry h)
  echfs handle entry h := hsecond.echfs handle entry (hfirst.echfs handle entry h)

theorem NewTable.handles {pid : Nat} {table : List FileHandleV2} (hnew : NewTable s next pid table) :
    KeepsHandles s next := by
  refine ⟨hnew.system.mountpoint, ?_, ?_⟩
  · simp [hnew.devfsHandles]
  · simp [hnew.echfsHandles]

theorem OpenOn.mono {descriptor : FileHandleV2} {file : Target} (hopen : OpenOn s descriptor file flags)
    (hkeeps : KeepsHandles s next) : OpenOn next descriptor file flags := by
  have hhandle := hopen.handle
  refine ⟨hopen.used, hopen.mountpoint, ?_⟩
  rw [hkeeps.mountpoint]
  cases hmount : s.mountpoint file.mountpoint with
  | none => simp [hmount] at hhandle
  | some there =>
      rw [hmount] at hhandle
      cases there with
      | devfs =>
          obtain ⟨entry, hentry, hrest⟩ := hhandle
          exact ⟨entry, hkeeps.devfs _ _ hentry, hrest⟩
      | echfs m device =>
          obtain ⟨entry, hentry, hrest⟩ := hhandle
          exact ⟨entry, hkeeps.echfs _ _ hentry, hrest⟩

-- What vfs_kopen leaves when it finds something.
structure KernelOpened (s next : State) (handle : Int) (file : Target) (flags : Nat) : Prop where
  number : 0 ≤ handle
  opens : KernelOpens s next
  absent : inUse (·.free) (s.table 0) handle = none
  entry : ∃ entry, inUse (·.free) (next.table 0) handle = some entry ∧ OpenOn next entry file flags ∧
    ∀ m device, s.mountpoint file.mountpoint = some (.echfs m device) →
      NewFile s next entry.internalHandle m device file.path flags

theorem NewFile.mono {handle : Int} (hnew : NewFile s middle handle m device path flags)
    (hkept : Kept middle next) (hrecord : next.record = middle.record) :
    NewFile s next handle m device path flags := by
  obtain ⟨entry, hentry, hpath, hmount, hflags, hbefore, hdevice⟩ := hnew
  rw [← hrecord] at hbefore
  exact ⟨entry, hkept.echfs handle entry hentry, hpath, hmount, hflags, hbefore, hdevice.mono hkept⟩

theorem kopen_names (hstatus : (mem.s.kernel.taskTable 0).status ≠ none) (hplain : Plain flags)
    {file : Target} {result : Int × Memory}
    (hopen : mem.vfsOpen 0 file.mountpoint file.path flags = some result) :
    mem.s.names file = false ∧ result = (-1, mem) ∨
    mem.s.names file = true ∧ KernelOpened mem.s result.2.s result.1 file flags := by
  obtain ⟨opened, hinternal, hopen⟩ := Option.bind_eq_some_iff.mp hopen
  -- the descriptor for a handle of either file system
  have hfinish : 0 ≤ opened.1 → KernelOpens mem.s opened.2.s →
      OpenOn opened.2.s { mountpoint := file.mountpoint, internalHandle := opened.1 } file flags →
      (∀ m device, mem.s.mountpoint file.mountpoint = some (.echfs m device) →
        NewFile mem.s opened.2.s opened.1 m device file.path flags) →
      KernelOpened mem.s result.2.s result.1 file flags := by
    intro hnumber hopens hon hfile
    rw [if_neg (by omega)] at hopen
    rw [← hopens.status] at hstatus
    obtain ⟨hpos, habsent, hentry⟩ := createDescriptor_new hstatus rfl hopen
    obtain ⟨hlast, -, hrecord⟩ := createDescriptor_opens hstatus hopen
    refine ⟨hpos, hopens.trans hlast, absent_of_later (hopens.kept.descriptors 0) habsent, _, hentry, ?_, ?_⟩
    · exact hon.mono hlast.kept.handles
    · intro m device hmount
      exact (hfile m device hmount).mono hlast.kept hrecord
  unfold Memory.internalOpen at hinternal
  unfold State.names
  cases hmount : mem.s.mountpoint file.mountpoint with
  | none =>
      rw [hmount] at hinternal
      cases hinternal
      cases hopen
      exact Or.inl ⟨rfl, rfl⟩
  | some there =>
      rw [hmount] at hinternal hfinish
      cases there with
      | devfs =>
          rcases devfsOpen_names hplain hinternal with ⟨hnone, rfl⟩ | ⟨hsome, hnumber, hopens, hrecord⟩
          · cases hopen
            exact Or.inl ⟨hnone, rfl⟩
          · refine Or.inr ⟨hsome, hfinish hnumber hopens ⟨rfl, rfl, ?_⟩ (by simp)⟩
            rw [hopens.kept.mountpoint, hmount]
            exact hrecord
      | echfs m device =>
          rcases openFile_names hstatus hplain hinternal with ⟨hnone, rfl⟩ | ⟨hsome, hnumber, hopens, hfile⟩
          · cases hopen
            refine Or.inl ⟨?_, rfl⟩
            simp [hnone]
          · refine Or.inr ⟨Option.isSome_iff_ne_none.mpr hsome, hfinish hnumber hopens ⟨rfl, rfl, ?_⟩ ?_⟩
            · rw [hopens.kept.mountpoint, hmount]
              obtain ⟨entry, hentry, hpath, hm, hflags, -⟩ := hfile
              exact ⟨entry, hentry, hpath, hm, hflags⟩
            · intro m' device' heq
              cases heq
              exact hfile

end EchidnaOS.Vfs
