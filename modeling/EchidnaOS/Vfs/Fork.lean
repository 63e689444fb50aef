import EchidnaOS.Vfs.Ownership.Theorems

namespace EchidnaOS.Vfs

open EchidnaOS.Lib EchidnaOS.Lib.Run EchidnaOS.Lib.SlotTable EchidnaOS.Klib EchidnaOS.Devfs EchidnaOS.Echfs

variable {s middle next : State} {mem later : Memory} {pid child : Nat} {handle old new : Int}
  {descriptor : FileHandleV2}

-- What is in use stays as it is.
structure Kept (s next : State) : Prop where
  mountpoint : next.mountpoint = s.mountpoint
  descriptors : ∀ pid handle entry, inUse (·.free) (s.table pid) handle = some entry →
    inUse (·.free) (next.table pid) handle = some entry
  devfs : ∀ handle entry, inUse (·.free) s.devfsHandles handle = some entry →
    inUse (·.free) next.devfsHandles handle = some entry
  echfs : ∀ handle entry, inUse (·.free) s.echfsHandles handle = some entry →
    inUse (·.free) next.echfsHandles handle = some entry

-- A handle of devfs with the record of another one.
structure DeviceCopy (s next : State) (old new : Int) : Prop where
  absent : inUse (·.free) s.devfsHandles new = none
  record : ∃ entry, inUse (·.free) s.devfsHandles old = some entry ∧
    inUse (·.free) next.devfsHandles new = some entry

-- A descriptor of the kernel for a copy of a handle of devfs.
structure KernelCopy (s next : State) (old new : Int) : Prop where
  absent : inUse (·.free) (s.table 0) new = none
  record : ∃ entry entry', inUse (·.free) (s.table 0) old = some entry ∧
    inUse (·.free) (next.table 0) new = some entry' ∧ entry'.mountpoint = entry.mountpoint ∧
    DeviceCopy s next entry.internalHandle entry'.internalHandle

-- A handle of echfs whose record is that of another one, its own device apart.
structure FileCopy (s next : State) (old new : Int) : Prop where
  absent : inUse (·.free) s.echfsHandles new = none
  record : ∃ entry device, inUse (·.free) s.echfsHandles old = some entry ∧
    inUse (·.free) next.echfsHandles new = some { entry with devHandle := device } ∧
    KernelCopy s next entry.devHandle device

-- A descriptor for a copy of the handle of another one.
def HandleCopy (s next : State) (old new : FileHandleV2) : Prop :=
  new.mountpoint = old.mountpoint ∧
    match s.mountpoint old.mountpoint with
    | none => False
    | some .devfs => DeviceCopy s next old.internalHandle new.internalHandle
    | some (.echfs _ _) => FileCopy s next old.internalHandle new.internalHandle

-- The handle of a descriptor is in use, with everything that belongs to it.
def Alive (s : State) (descriptor : FileHandleV2) : Prop :=
  match s.mountpoint descriptor.mountpoint with
  | none => False
  | some .devfs => ∃ entry, inUse (·.free) s.devfsHandles descriptor.internalHandle = some entry
  | some (.echfs _ _) => ∃ entry device record,
      inUse (·.free) s.echfsHandles descriptor.internalHandle = some entry ∧
        inUse (·.free) (s.table 0) entry.devHandle = some device ∧
        s.mountpoint device.mountpoint = some .devfs ∧
        inUse (·.free) s.devfsHandles device.internalHandle = some record

-- What a fork makes of a table.
structure Forked (s next : State) (pid child : Nat) : Prop where
  parent : next.table pid = s.table pid
  free : (next.table child).map (·.free) = (s.table pid).map (·.free)
  copies : ∀ handle old new, inUse (·.free) (s.table pid) handle = some old →
    inUse (·.free) (next.table child) handle = some new → HandleCopy s next old new
  distinct : ∀ handle other new new', inUse (·.free) (next.table child) handle = some new →
    inUse (·.free) (next.table child) other = some new' → handle ≠ other →
      next.internal new ≠ next.internal new'
  kept : Kept s next

theorem Kept.trans (hfirst : Kept s middle) (hsecond : Kept middle next) : Kept s next where
  mountpoint := hsecond.mountpoint.trans hfirst.mountpoint
  descriptors pid handle entry h := hsecond.descriptors pid handle entry (hfirst.descriptors pid handle entry h)
  devfs handle entry h := hsecond.devfs handle entry (hfirst.devfs handle entry h)
  echfs handle entry h := hsecond.echfs handle entry (hfirst.echfs handle entry h)

theorem Quiet.kept (hquiet : Quiet s next) : Kept s next where
  mountpoint := hquiet.mountpoint
  descriptors pid handle entry h := by rwa [State.table, hquiet.taskTable]
  devfs handle entry h := by rwa [hquiet.devfsHandles]
  echfs handle entry h := by rwa [hquiet.echfsHandles]

-- A new value where there was none.
theorem update_kept {α : Type} {before after : Int → Option α} {index other : Int} {value : Option α}
    {entry : α} (habsent : before index = none) (hafter : after = Function.update before index value)
    (hentry : before other = some entry) : after other = some entry := by
  have hne : other ≠ index := by
    rintro rfl
    simp [habsent] at hentry
  rw [hafter, Function.update_of_ne hne, hentry]

theorem devfsCreateHandle_kept (s : State) (entry : DevfsHandle) : Kept s (devfsCreateHandle s entry).2 := by
  obtain ⟨habsent, hcreated⟩ := inUse_create (·.free) s.devfsHandles entry
  exact ⟨rfl, fun _ _ _ h => h, fun _ _ h => update_kept habsent hcreated h, fun _ _ h => h⟩

theorem echfsCreateHandle_kept (s : State) (entry : EchfsHandle) : Kept s (echfsCreateHandle s entry).2 := by
  obtain ⟨habsent, hcreated⟩ := inUse_create (·.free) s.echfsHandles entry
  exact ⟨rfl, fun _ _ _ h => h, fun _ _ h => h, fun _ _ h => update_kept habsent hcreated h⟩

theorem createDescriptor_kept (hstatus : (s.kernel.taskTable pid).status ≠ none) (entry : FileHandleV2) :
    Kept s (s.createDescriptor pid entry).2 := by
  obtain ⟨habsent, hcreated⟩ := inUse_create (·.free) (s.table pid) entry
  have hnew := createDescriptor_table hstatus entry
  refine ⟨hnew.system.mountpoint, ?_, ?_, ?_⟩
  · intro other handle old hold
    rw [hnew.table]
    by_cases heq : other = pid
    · subst heq
      rw [Function.update_self]
      exact update_kept habsent hcreated hold
    · rw [Function.update_of_ne heq]
      exact hold
  · rw [hnew.devfsHandles]
    exact fun _ _ h => h
  · rw [hnew.echfsHandles]
    exact fun _ _ h => h

theorem absent_of_later {α : Type} {before after : Int → Option α} {index : Int}
    (hkept : ∀ index entry, before index = some entry → after index = some entry)
    (habsent : after index = none) : before index = none := by
  cases hbefore : before index with
  | none => rfl
  | some entry => simp [hkept index entry hbefore] at habsent

theorem status_of_inUse {entry : FileHandleV2} (huse : inUse (·.free) (s.table pid) handle = some entry) :
    (s.kernel.taskTable pid).status ≠ none :=
  status_of_entryAt (inUse_eq_some.mp huse).1

theorem devfsFork_copies (hkept : Kept s mem.s) {entry : DevfsHandle}
    (hentry : inUse (·.free) s.devfsHandles old = some entry) {result : Int × Memory}
    (hfork : mem.devfsFork old = some result) :
    Kept mem.s result.2.s ∧ DeviceCopy s result.2.s old result.1 := by
  obtain ⟨there, hthere, hfork⟩ := Option.bind_eq_some_iff.mp hfork
  obtain ⟨grown, hgrow, rfl⟩ := Option.map_eq_some_iff.mp hfork
  have hgrown := (growDevfs_quiet hgrow).kept
  obtain ⟨hat, hlive⟩ := inUse_eq_some.mp (hkept.devfs old entry hentry)
  obtain rfl : entry = there := Option.some.inj (hat.symm.trans hthere)
  obtain ⟨habsent, hcreated⟩ := inUse_create (·.free) grown.s.devfsHandles entry
  refine ⟨hgrown.trans (devfsCreateHandle_kept grown.s entry), ?_, entry, hentry, ?_⟩
  · exact absent_of_later (hkept.trans hgrown).devfs habsent
  · exact (congrFun hcreated _).trans ((Function.update_self _ _ _).trans (if_neg (by simp [hlive])))

theorem vfsKfork_copies (hkept : Kept s mem.s) {device : FileHandleV2} {record : DevfsHandle}
    (hdevice : inUse (·.free) (s.table 0) old = some device)
    (hmount : s.mountpoint device.mountpoint = some .devfs)
    (hrecord : inUse (·.free) s.devfsHandles device.internalHandle = some record)
    {result : Int × Memory} (hfork : mem.vfsKfork old = some result) :
    Kept mem.s result.2.s ∧ KernelCopy s result.2.s old result.1 := by
  have hthere := hkept.descriptors 0 old device hdevice
  have hdescriptor : mem.s.descriptor 0 old = device := by
    rw [State.descriptor, (inUse_eq_some.mp hthere).1, Option.getD_some]
  unfold Memory.vfsKfork at hfork
  simp only [hdescriptor, hkept.mountpoint, hmount] at hfork
  obtain ⟨copied, hcopy, hcreate⟩ := Option.bind_eq_some_iff.mp hfork
  obtain ⟨hcopied, hcopy⟩ := devfsFork_copies hkept hrecord hcopy
  obtain ⟨hnumber, hstate⟩ := createDescriptor_state hcreate
  have hstatus := status_of_inUse (hcopied.descriptors 0 old device hthere)
  have hcreated := createDescriptor_kept hstatus
    { mountpoint := device.mountpoint, internalHandle := copied.1 }
  obtain ⟨habsent, hupdate⟩ := inUse_create (·.free) (copied.2.s.table 0)
    { mountpoint := device.mountpoint, internalHandle := copied.1 }
  have htable := (createDescriptor_table hstatus
    { mountpoint := device.mountpoint, internalHandle := copied.1 }).table
  rw [← hstate] at hcreated htable
  refine ⟨hcopied.trans hcreated, ?_, device,
    { mountpoint := device.mountpoint, internalHandle := copied.1 }, hdevice, ?_, rfl, hcopy.absent, ?_⟩
  · rw [hnumber]
    exact absent_of_later (hkept.trans hcopied |>.descriptors 0) habsent
  · rw [htable, Function.update_self, hnumber, hupdate]
    exact Function.update_self _ _ _
  · obtain ⟨entry, hentry, hnew⟩ := hcopy.record
    exact ⟨entry, hentry, hcreated.devfs _ _ hnew⟩

-- What a call left in `eax`.
def Slot.eax : Slot → Nat
  | .task _ task => task.cpu.eax
  | _ => 0

-- A copy stays one while more is created.
theorem DeviceCopy.mono (hcopy : DeviceCopy s middle old new) (hkept : Kept middle next) :
    DeviceCopy s next old new := by
  obtain ⟨entry, hentry, hnew⟩ := hcopy.record
  exact ⟨hcopy.absent, entry, hentry, hkept.devfs new entry hnew⟩

theorem KernelCopy.mono (hcopy : KernelCopy s middle old new) (hkept : Kept middle next) :
    KernelCopy s next old new := by
  obtain ⟨entry, entry', hentry, hnew, hmount, hdevice⟩ := hcopy.record
  exact ⟨hcopy.absent, entry, entry', hentry, hkept.descriptors 0 new entry' hnew, hmount,
    hdevice.mono hkept⟩

theorem FileCopy.mono (hcopy : FileCopy s middle old new) (hkept : Kept middle next) :
    FileCopy s next old new := by
  obtain ⟨entry, device, hentry, hnew, hdevice⟩ := hcopy.record
  exact ⟨hcopy.absent, entry, device, hentry, hkept.echfs new _ hnew, hdevice.mono hkept⟩

theorem HandleCopy.mono {old new : FileHandleV2} (hcopy : HandleCopy s middle old new)
    (hkept : Kept middle next) : HandleCopy s next old new := by
  obtain ⟨hmount, hrecord⟩ := hcopy
  refine ⟨hmount, ?_⟩
  cases hthere : s.mountpoint old.mountpoint with
  | none => simp [hthere] at hrecord
  | some mountpoint =>
      rw [hthere] at hrecord
      cases mountpoint with
      | devfs => exact DeviceCopy.mono hrecord hkept
      | echfs m device => exact FileCopy.mono hrecord hkept

theorem Alive.mono (halive : Alive s descriptor) (hkept : Kept s next) : Alive next descriptor := by
  unfold Alive at halive ⊢
  rw [hkept.mountpoint]
  cases hthere : s.mountpoint descriptor.mountpoint with
  | none => simp [hthere] at halive
  | some mountpoint =>
      rw [hthere] at halive
      cases mountpoint with
      | devfs =>
          obtain ⟨entry, hentry⟩ := halive
          exact ⟨entry, hkept.devfs _ _ hentry⟩
      | echfs m device =>
          obtain ⟨entry, device, record, hentry, hdevice, hmount, hrecord⟩ := halive
          exact ⟨entry, device, record, hkept.echfs _ _ hentry, hkept.descriptors _ _ _ hdevice, hmount,
            hkept.devfs _ _ hrecord⟩

theorem echfsFork_copies (hkept : Kept s mem.s) {entry : EchfsHandle} {device : FileHandleV2}
    {record : DevfsHandle} (hentry : inUse (·.free) s.echfsHandles old = some entry)
    (hdevice : inUse (·.free) (s.table 0) entry.devHandle = some device)
    (hmount : s.mountpoint device.mountpoint = some .devfs)
    (hrecord : inUse (·.free) s.devfsHandles device.internalHandle = some record)
    {result : Int × Memory} (hfork : mem.echfsFork old = some result) :
    Kept mem.s result.2.s ∧ FileCopy s result.2.s old result.1 := by
  obtain ⟨there, hthere, hfork⟩ := Option.bind_eq_some_iff.mp hfork
  obtain ⟨forked, hkfork, hfork⟩ := Option.bind_eq_some_iff.mp hfork
  obtain ⟨grown, hgrow, rfl⟩ := Option.map_eq_some_iff.mp hfork
  obtain ⟨hat, hlive⟩ := inUse_eq_some.mp (hkept.echfs old entry hentry)
  obtain rfl : entry = there := Option.some.inj (hat.symm.trans hthere)
  obtain ⟨hforked, hcopy⟩ := vfsKfork_copies hkept hdevice hmount hrecord hkfork
  have hgrown := (growEchfs_quiet hgrow).kept
  have hcreated := echfsCreateHandle_kept grown.s { entry with devHandle := forked.1 }
  obtain ⟨habsent, hupdate⟩ :=
    inUse_create (·.free) grown.s.echfsHandles { entry with devHandle := forked.1 }
  refine ⟨(hforked.trans hgrown).trans hcreated, ?_, entry, forked.1, hentry, ?_,
    hcopy.mono (hgrown.trans hcreated)⟩
  · exact absent_of_later (hkept.trans (hforked.trans hgrown)).echfs habsent
  · exact (congrFun hupdate _).trans ((Function.update_self _ _ _).trans (if_neg (by simp [hlive])))

theorem internalFork_copies (hkept : Kept s mem.s) (halive : Alive s descriptor)
    {result : Int × Memory} (hfork : mem.internalFork descriptor = some result) :
    Kept mem.s result.2.s ∧ HandleCopy s result.2.s descriptor
      { mountpoint := descriptor.mountpoint, internalHandle := result.1 } := by
  unfold Memory.internalFork at hfork
  unfold Alive at halive
  unfold HandleCopy
  rw [hkept.mountpoint] at hfork
  cases hthere : s.mountpoint descriptor.mountpoint with
  | none => simp [hthere] at halive
  | some mountpoint =>
      rw [hthere] at halive hfork
      cases mountpoint with
      | devfs =>
          obtain ⟨entry, hentry⟩ := halive
          obtain ⟨hnext, hcopy⟩ := devfsFork_copies hkept hentry hfork
          exact ⟨hnext, rfl, hcopy⟩
      | echfs m device =>
          obtain ⟨entry, device, record, hentry, hdevice, hmount, hrecord⟩ := halive
          obtain ⟨hnext, hcopy⟩ := echfsFork_copies hkept hentry hdevice hmount hrecord hfork
          exact ⟨hnext, rfl, hcopy⟩

-- The handle of a copy was not there, and is.
theorem HandleCopy.created {old new : FileHandleV2} (hcopy : HandleCopy s next old new) :
    ∃ node, s.internal new = some node ∧ s.refers node = none ∧ next.refers node ≠ none := by
  obtain ⟨hmount, hrecord⟩ := hcopy
  unfold State.internal
  rw [hmount]
  cases hthere : s.mountpoint old.mountpoint with
  | none => simp [hthere] at hrecord
  | some mountpoint =>
      rw [hthere] at hrecord
      cases mountpoint with
      | devfs =>
          obtain ⟨habsent, entry, -, hnew⟩ := hrecord
          exact ⟨_, rfl, by simp [Mountpoint.node, State.refers, habsent],
            by simp [Mountpoint.node, State.refers, hnew]⟩
      | echfs m device =>
          obtain ⟨habsent, entry, device, -, hnew, -⟩ := hrecord
          exact ⟨_, rfl, by simp [Mountpoint.node, State.refers, habsent],
            by simp [Mountpoint.node, State.refers, hnew]⟩

-- An entry of the new table beside that of the old one.
structure EntryCopy (s next : State) (old new : FileHandleV2) : Prop where
  free : new.free = old.free
  copy : old.free = false → HandleCopy s next old new

theorem entries_free {table cloned : List FileHandleV2}
    (hentries : List.Forall₂ (EntryCopy s next) table cloned) :
    cloned.map (·.free) = table.map (·.free) := by
  induction hentries with
  | nil => rfl
  | cons hentry _ ih => simp [hentry.free, ih]

theorem cloneDescriptors_copies {table : List FileHandleV2} (hkept : Kept s mem.s)
    (halive : ∀ entry ∈ table, entry.free = false → Alive s entry)
    {cloned : List FileHandleV2 × Memory} (hclone : mem.cloneDescriptors table = some cloned) :
    Kept mem.s cloned.2.s ∧ List.Forall₂ (EntryCopy s cloned.2.s) table cloned.1 ∧
      cloned.1.Pairwise fun first second => first.free = false → second.free = false →
        mem.s.internal first ≠ mem.s.internal second := by
  induction table generalizing s mem cloned with
  | nil =>
      cases hclone
      exact ⟨(Quiet.refl _).kept, .nil, .nil⟩
  | cons entry rest ih =>
      have hrest := fun other hother => halive other (List.mem_cons_of_mem _ hother)
      rw [Memory.cloneDescriptors] at hclone
      cases hfree : entry.free with
      | true =>
          rw [hfree, if_pos rfl] at hclone
          obtain ⟨tail, htail, rfl⟩ := Option.map_eq_some_iff.mp hclone
          obtain ⟨hlater, hcopies, hdistinct⟩ := ih hkept hrest htail
          refine ⟨hlater, .cons ⟨hfree.symm, by simp [hfree]⟩ hcopies, ?_⟩
          exact List.pairwise_cons.mpr ⟨by simp, hdistinct⟩
      | false =>
          rw [hfree, if_neg (by simp)] at hclone
          obtain ⟨forked, hfork, hclone⟩ := Option.bind_eq_some_iff.mp hclone
          obtain ⟨tail, htail, rfl⟩ := Option.map_eq_some_iff.mp hclone
          obtain ⟨hforked, hcopy⟩ := internalFork_copies hkept (halive entry List.mem_cons_self hfree) hfork
          obtain ⟨hlater, hcopies, hdistinct⟩ := ih (hkept.trans hforked) hrest htail
          -- what the others get is new beside the first handle
          have hthere := fun other hother hlive => (hrest other hother hlive).mono (hkept.trans hforked)
          obtain ⟨-, hnewer, -⟩ := ih (Quiet.refl forked.2.s).kept hthere htail
          refine ⟨hforked.trans hlater, .cons ⟨hfree.symm, fun _ => hcopy.mono hlater⟩ hcopies, ?_⟩
          refine List.pairwise_cons.mpr ⟨?_, ?_⟩
          · intro other hother _ hlive hequal
            obtain ⟨slot, hslot⟩ := List.mem_iff_getElem?.mp hother
            obtain ⟨old, -, hentry⟩ := entryAt_forall₂ hnewer ((entryAt_natCast _ slot).trans hslot)
            obtain ⟨node, hnode, hthis, -⟩ := (hentry.copy (by rw [← hentry.free, hlive])).created
            obtain ⟨first, hfirst, -, hpresent⟩ := hcopy.created
            rw [internal_congr (hkept.trans hforked).mountpoint, ← internal_congr hkept.mountpoint,
              ← hequal, internal_congr hkept.mountpoint, hfirst] at hnode
            exact hpresent (Option.some.inj hnode ▸ hthis)
          · rw [internal_congr hforked.mountpoint] at hdistinct
            exact hdistinct

-- What is open leads to a handle that is in use, and a handle of echfs to one of devfs.
theorem Attached.alive (hattached : Attached s) {source : Node}
    (hsource : s.refers source = some (s.internal descriptor)) (hsome : s.internal descriptor ≠ none) :
    Alive s descriptor := by
  obtain ⟨target, htarget⟩ := Option.ne_none_iff_exists'.mp hsome
  obtain ⟨mountpoint, hmount, rfl⟩ := Option.map_eq_some_iff.mp htarget
  rw [htarget] at hsource
  obtain ⟨value, hvalue⟩ :=
    Option.ne_none_iff_exists'.mp (hattached.chained.exclusive.present _ _ hsource)
  unfold Alive
  rw [hmount]
  cases mountpoint with
  | devfs =>
      obtain ⟨entry, hentry, -⟩ := Option.map_eq_some_iff.mp hvalue
      exact ⟨entry, hentry⟩
  | echfs m device =>
      obtain ⟨entry, hentry, rfl⟩ := Option.map_eq_some_iff.mp hvalue
      obtain ⟨number, hnumber⟩ := hattached.chained.devices _ _ hvalue
      obtain ⟨there, hthere, hinternal⟩ := Option.map_eq_some_iff.mp hnumber
      obtain ⟨mountpoint, hdevfs, hnode⟩ := Option.map_eq_some_iff.mp hinternal
      obtain ⟨value', hvalue'⟩ :=
        Option.ne_none_iff_exists'.mp (hattached.chained.exclusive.present _ _ hnumber)
      obtain ⟨record, hrecord, -⟩ := Option.map_eq_some_iff.mp hvalue'
      cases mountpoint with
      | echfs m device => cases hnode
      | devfs =>
          cases hnode
          exact ⟨entry, there, record, hentry, hthere, hdevfs, hrecord⟩

section Tables

variable {address : Nat} {task : Task} {copies : Copies} {copied : Memory}

theorem forkCopies_cloned (hcopies : mem.forkCopies task = some (some copies, copied)) :
    ∃ start : Memory, Quiet mem.s start.s ∧
      start.cloneDescriptors task.handlesV2 = some (copies.descriptors, copied) := by
  unfold Memory.forkCopies at hcopies
  dsimp only at hcopies
  split_ifs at hcopies
  · simp at hcopies
  · simp at hcopies
  · simp at hcopies
  · obtain ⟨cloned, hclone, hequal⟩ := Option.map_eq_some_iff.mp hcopies
    cases hequal
    exact ⟨_, ((alloc_quiet _ _).trans (alloc_quiet _ _)).trans (alloc_quiet _ _), hclone⟩

-- A fork that did not report -1.
structure Created (copied later : Memory) (pid child address : Nat) (task : Task) (copies : Copies) :
    Prop where
  free : (copied.s.kernel.taskTable child).status = none
  eax : Slot.eax (later.s.kernel.taskTable pid) = child
  drivers : SameDrivers copied.s later.s
  table : later.s.table =
    Function.update (Function.update copied.s.table pid task.handlesV2) child copies.descriptors

theorem forkTask_created (hslot : copied.s.kernel.taskTable pid = .task address task) {cpu : GprState}
    (hok : Slot.eax ((copied.forkTask pid address { task with cpu := cpu } copies).s.kernel.taskTable pid) ≠
      EchidnaOS.FAILURE) :
    ∃ child, Created copied (copied.forkTask pid address { task with cpu := cpu } copies) pid child address
      task copies := by
  unfold Memory.forkTask at hok ⊢
  dsimp only at hok ⊢
  generalize ByteStore.write copied.s.kernel.heap.mem copies.base _ = contents at hok ⊢
  have htable' : (forkedTask { task with cpu := cpu } pid copies.base copies.handles
      copies.handlesV2 copies.descriptors).handlesV2 = copies.descriptors := rfl
  generalize forkedTask { task with cpu := cpu } pid copies.base copies.handles copies.handlesV2
    copies.descriptors = new at *
  rcases taskCreate_spec { copied with s.kernel.heap.mem := contents } new with
    ⟨hnone, -, kernel, hcreated, -, -⟩ |
    ⟨child, address', kernel, hsome, -, hfree, hcreated, htable, -⟩
  · rw [hnone] at hok
    simp [Memory.forkFail, Memory.setSlot, Kernel.setTask, Slot.eax, Task.withEax] at hok
  · rw [hsome, hcreated]
    have hne : pid ≠ child := by
      rintro rfl
      have hnone : (copied.s.kernel.taskTable pid).status = none := hfree
      simp [hslot, Slot.status] at hnone
    refine ⟨child, hfree, ?_, ⟨rfl, rfl, rfl, rfl⟩, ?_⟩
    · simp [Memory.setSlot, Kernel.setTask, Slot.eax, Task.withEax, Function.update_of_ne hne]
    · funext other
      simp only [State.table, Memory.setSlot, Kernel.setTask, htable]
      by_cases hchild : other = child
      · simp [hchild, Slot.handlesV2, Task.withEax, htable']
      · by_cases hpid : other = pid
        · simp [hpid, hne, Slot.handlesV2, Task.withEax]
        · simp [hchild, hpid]
          rfl

theorem createDescriptor_status {entry : FileHandleV2} {result : Int × Memory}
    (hcreate : mem.createDescriptor pid entry = some result) (other : Nat) :
    (result.2.s.kernel.taskTable other).status = (mem.s.kernel.taskTable other).status := by
  have hstatus : (mem.s.kernel.taskTable pid).status ≠ none := by
    intro hnone
    unfold Memory.createDescriptor at hcreate
    cases hslot : mem.s.kernel.taskTable pid with
    | task address task => simp [hslot, Slot.status] at hnone
    | null | empty =>
        simp [State.table, State.createDescriptor, createFileHandleV2, hslot, Slot.field,
          Slot.handlesV2] at hcreate
  rw [(createDescriptor_state hcreate).2]
  exact (createDescriptor_table hstatus entry).system.status other

theorem internalFork_status {result : Int × Memory} (hfork : mem.internalFork descriptor = some result)
    (other : Nat) :
    (result.2.s.kernel.taskTable other).status = (mem.s.kernel.taskTable other).status := by
  unfold Memory.internalFork at hfork
  split at hfork
  · cases hfork
  · rw [devfsFork_tasks hfork]
  · obtain ⟨entry, -, hfork⟩ := Option.bind_eq_some_iff.mp hfork
    obtain ⟨forked, hkfork, hfork⟩ := Option.bind_eq_some_iff.mp hfork
    obtain ⟨grown, hgrow, rfl⟩ := Option.map_eq_some_iff.mp hfork
    have hgrown := congrArg Slot.status (congrFun (growEchfs_quiet hgrow).taskTable other)
    refine Eq.trans hgrown ?_
    unfold Memory.vfsKfork at hkfork
    dsimp only at hkfork
    split at hkfork
    · cases hkfork
      rfl
    · obtain ⟨copied, hcopy, hcreate⟩ := Option.bind_eq_some_iff.mp hkfork
      rw [createDescriptor_status hcreate, devfsFork_tasks hcopy]
    · cases hkfork

-- The copies are made without a new task.
theorem cloneDescriptors_status {table : List FileHandleV2} {cloned : List FileHandleV2 × Memory}
    (hclone : mem.cloneDescriptors table = some cloned) (other : Nat) :
    (cloned.2.s.kernel.taskTable other).status = (mem.s.kernel.taskTable other).status := by
  induction table generalizing mem cloned with
  | nil =>
      cases hclone
      rfl
  | cons entry rest ih =>
      rw [Memory.cloneDescriptors] at hclone
      split at hclone
      · obtain ⟨tail, htail, rfl⟩ := Option.map_eq_some_iff.mp hclone
        have hrest := ih htail
        exact hrest
      · obtain ⟨forked, hfork, hclone⟩ := Option.bind_eq_some_iff.mp hclone
        obtain ⟨tail, htail, rfl⟩ := Option.map_eq_some_iff.mp hclone
        exact (ih htail).trans (internalFork_status hfork other)

-- What was in use is in use in the end, and the new task has the copied table.
theorem Created.kept (hcreated : Created copied later pid child address task copies)
    (hkept : Kept mem.s copied.s) (htable : mem.s.table pid = task.handlesV2) : Kept mem.s later.s := by
  refine ⟨hcreated.drivers.mountpoint.trans hkept.mountpoint, ?_, ?_, ?_⟩
  · intro other handle entry hentry
    have hlater := hkept.descriptors other handle entry hentry
    rw [hcreated.table]
    by_cases hchild : other = child
    · subst hchild
      exact absurd hcreated.free (status_of_inUse hlater)
    · rw [Function.update_of_ne hchild]
      by_cases hpid : other = pid
      · subst hpid
        rw [Function.update_self, ← htable]
        exact hentry
      · rw [Function.update_of_ne hpid]
        exact hlater
  · rw [hcreated.drivers.devfsHandles]
    exact hkept.devfs
  · rw [hcreated.drivers.echfsHandles]
    exact hkept.echfs

theorem Created.kept_copied (hcreated : Created copied later pid child address task copies)
    (htable : copied.s.table pid = task.handlesV2) : Kept copied.s later.s :=
  hcreated.kept (Quiet.refl copied.s).kept htable

-- A fork that does not report -1 gives the child copies of all that the task has open.
theorem fork_clones (hpid : pid ≠ 0) (halive : ∀ entry ∈ mem.s.table pid, entry.free = false → Alive mem.s entry)
    {cpu : GprState} (hfork : mem.taskFork pid cpu = some later)
    (hok : Slot.eax (later.s.kernel.taskTable pid) ≠ EchidnaOS.FAILURE) :
    ∃ child, Slot.eax (later.s.kernel.taskTable pid) = child ∧
      (mem.s.kernel.taskTable child).status = none ∧ Forked mem.s later.s pid child := by
  unfold Memory.taskFork at hfork
  cases hslot : mem.s.kernel.taskTable pid with
  | null => simp [hslot] at hfork
  | empty => simp [hslot] at hfork
  | task address task =>
      rw [hslot] at hfork
      obtain ⟨⟨result, copied⟩, hcopies, hlater⟩ := Option.map_eq_some_iff.mp hfork
      have htable : mem.s.table pid = task.handlesV2 := by rw [State.table, hslot, Slot.handlesV2]
      rw [htable] at halive
      cases result with
      | none =>
          simp [← hlater, Memory.forkFail, Memory.setSlot, Kernel.setTask, Slot.eax, Task.withEax] at hok
      | some copies =>
          obtain ⟨start, hquiet, hclone⟩ := forkCopies_cloned hcopies
          have hslot' : copied.s.kernel.taskTable pid = .task address task := by
            rw [(cloneDescriptors_tasks hpid hclone).1, hquiet.taskTable, hslot]
          have htable' : copied.s.table pid = task.handlesV2 := by
            rw [State.table, hslot', Slot.handlesV2]
          dsimp only at hlater
          rw [← hlater] at hok
          obtain ⟨child, hcreated⟩ := forkTask_created hslot' hok
          rw [hlater] at hcreated
          obtain ⟨hcopied, hentries, hdistinct⟩ := cloneDescriptors_copies hquiet.kept halive hclone
          have hkept := hcreated.kept (hquiet.kept.trans hcopied) htable
          have hlast := hcreated.kept_copied htable'
          have hchild : later.s.table child = copies.descriptors := by
            rw [hcreated.table, Function.update_self]
          have hne : pid ≠ child := by
            rintro rfl
            simpa [hslot', Slot.status] using hcreated.free
          refine ⟨child, hcreated.eax, ?_, ?_, ?_, ?_, ?_, hkept⟩
          · rw [← hcreated.free, cloneDescriptors_status hclone, hquiet.taskTable]
          · rw [hcreated.table, Function.update_of_ne hne, Function.update_self, htable]
          · rw [hchild, htable, entries_free hentries]
          · intro handle old new hold hnew
            rw [hchild] at hnew
            obtain ⟨entry, hentry, hcopy⟩ := entryAt_forall₂ hentries (inUse_eq_some.mp hnew).1
            obtain ⟨hat, hlive⟩ := inUse_eq_some.mp hold
            rw [htable, hentry] at hat
            obtain rfl := Option.some.inj hat
            exact (hcopy.copy hlive).mono hlast
          · intro handle other new new' hnew hother hne'
            rw [hchild] at hnew hother
            rw [internal_congr hkept.mountpoint, ← internal_congr hquiet.mountpoint]
            have hlive := (inUse_eq_some.mp hnew).2
            have hlive' := (inUse_eq_some.mp hother).2
            rcases inUse_pairwise hdistinct hnew hother hne' with hdiffer | hdiffer
            · exact hdiffer hlive hlive'
            · exact (hdiffer hlive' hlive).symm

end Tables

-- A task with a device for each of its streams and a file of the volume.
def openFileA : TaskCall := .openPath 1 1 pathA O_RDWR

theorem fork_clones_streams : ∃ start middle later child, booted = some start ∧
    run Memory.taskStep start [startA, openFileA] = some middle ∧ middle.taskFork 1 {} = some later ∧
    Slot.eax (later.s.kernel.taskTable 1) = child ∧ (middle.s.kernel.taskTable child).status = none ∧
    Forked middle.s later.s 1 child := by
  have hrun : booted.any (fun start => 0 ∉ start.live ∧
      (start.taskStep startA).any (fun launched => (launched.taskStep openFileA).any (fun middle =>
        (∀ entry ∈ middle.s.table 1, (middle.s.internal entry).isSome = true) ∧
          (middle.taskFork 1 {}).any (fun later =>
            Slot.eax (later.s.kernel.taskTable 1) ≠ EchidnaOS.FAILURE) = true)) = true) = true := by
    decide +kernel
  obtain ⟨start, hboot, hstart⟩ := (Option.any_eq_true _ _).mp hrun
  obtain ⟨hnull, hruns⟩ := of_decide_eq_true hstart
  obtain ⟨launched, hlaunched, hruns⟩ := (Option.any_eq_true _ _).mp hruns
  obtain ⟨middle, hmiddle, hforks⟩ := (Option.any_eq_true _ _).mp hruns
  obtain ⟨hinternal, hforks⟩ := of_decide_eq_true hforks
  obtain ⟨later, hfork, hok⟩ := (Option.any_eq_true _ _).mp hforks
  obtain ⟨hattached, hreleased⟩ := booted_released hboot
  have hstarts : Releases start startA := trivial
  have hopens : Releases launched openFileA := OpenKeeps.of_flags launched _ _ (by decide)
  have hheld := ((Holds.iff_released hattached hnull).mpr hreleased).step hstarts hlaunched
  have hopened := hheld.step hopens hmiddle
  have halive : ∀ entry ∈ middle.s.table 1, entry.free = false → Alive middle.s entry := by
    intro entry hentry hlive
    obtain ⟨handle, huse⟩ := mem_inUse (·.free) hentry hlive
    have hsource : middle.s.refers (.descriptor 1 handle) = some (middle.s.internal entry) := by
      rw [State.refers, huse]
      rfl
    exact hopened.attached.alive hsource (Option.isSome_iff_ne_none.mp (hinternal entry hentry))
  obtain ⟨child, heax, hfree, hforked⟩ := fork_clones (by decide) halive hfork (of_decide_eq_true hok)
  refine ⟨start, middle, later, child, hboot, ?_, hfork, heax, hfree, hforked⟩
  rw [run, hlaunched, Option.bind_some, run, hmiddle]
  rfl

end EchidnaOS.Vfs
