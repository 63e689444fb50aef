import EchidnaOS.Lib.Run
import EchidnaOS.Task.Wait
import EchidnaOS.Vfs.CacheMemory.Removal
import EchidnaOS.Vfs.Ownership.Creation

namespace EchidnaOS.Vfs

open EchidnaOS.Lib EchidnaOS.Lib.Run EchidnaOS.Lib.Roots EchidnaOS.Lib.SlotTable EchidnaOS.Lib.Reference
  EchidnaOS.Klib EchidnaOS.Devfs EchidnaOS.Echfs

variable {mem later : Memory} {pid : Nat} {partitions : List Int}

section Quit

variable {parent parentAddress : Nat} {waiting : Task} {value : Int}

-- A parent that waits goes on, with what it owns.
theorem wakeParent_slot {k : Kernel} (value : Int) (other : Nat)
    (hslot : k.taskTable parent = .task parentAddress waiting) :
    (∀ field, Slot.field ((wakeParent k parent parentAddress waiting value).taskTable other) field =
      Slot.field (k.taskTable other) field) ∧
    Slot.handlesV2 ((wakeParent k parent parentAddress waiting value).taskTable other) =
      Slot.handlesV2 (k.taskTable other) ∧
    ((k.taskTable other).status ≠ some .procwait →
      (wakeParent k parent parentAddress waiting value).taskTable other = k.taskTable other) := by
  unfold wakeParent
  split
  · rename_i hwaits
    by_cases heq : other = parent
    · subst heq
      dsimp only [Kernel.setTask]
      rw [hslot, Function.update_self]
      refine ⟨fun field => by cases field <;> rfl, rfl, ?_⟩
      intro hrun
      exact absurd (congrArg some hwaits) hrun
    · dsimp only [Kernel.setTask]
      rw [Function.update_of_ne heq]
      exact ⟨fun _ => rfl, rfl, fun _ => rfl⟩
  · exact ⟨fun _ => rfl, rfl, fun _ => rfl⟩

theorem taskQuit_others {k next : Kernel} (hquit : EchidnaOS.taskQuit k pid value = some next) :
    next.others = k.others := by
  unfold EchidnaOS.taskQuit at hquit
  split at hquit
  · split at hquit
    · cases hquit
      unfold wakeParent
      split <;> rfl
    · cases hquit
  · cases hquit

-- The entry of a task goes, and the other tasks keep what they own.
structure Quits (mem later : Memory) (pid : Nat) : Prop where
  drivers : SameDrivers mem.s later.s
  gone : later.s.kernel.taskTable pid = .empty
  table : ∀ other, other ≠ pid → later.s.table other = mem.s.table other
  kernel : pid ≠ 0 → (mem.s.kernel.taskTable 0).status = some .res →
    (later.s.kernel.taskTable 0).status = some .res
  root : ∀ root, (∀ field, root ≠ .task pid field) → later.root root = mem.root root
  live : later.live = mem.live.filter (· ∉ mem.quitPtrs pid)

theorem taskQuit_quits (hquit : mem.taskQuit pid value = some later) : Quits mem later pid := by
  obtain ⟨kernel, hkernel, rfl⟩ := Option.map_eq_some_iff.mp hquit
  have hothers := taskQuit_others hkernel
  obtain ⟨address, task, parentAddress, waiting, -, hparent, htable⟩ := taskQuit_table hkernel
  have hself : kernel.taskTable pid = .empty := by rw [htable, Function.update_self]
  have hother : ∀ {other}, other ≠ pid →
      (∀ field, Slot.field (kernel.taskTable other) field =
        Slot.field (mem.s.kernel.taskTable other) field) ∧
      Slot.handlesV2 (kernel.taskTable other) = Slot.handlesV2 (mem.s.kernel.taskTable other) ∧
      ((mem.s.kernel.taskTable other).status ≠ some .procwait →
        kernel.taskTable other = mem.s.kernel.taskTable other) := by
    intro other hne
    rw [htable, Function.update_of_ne hne]
    exact wakeParent_slot value other hparent
  refine ⟨⟨rfl, rfl, rfl, rfl⟩, hself, fun other hne => (hother hne).2.1, ?_, ?_, rfl⟩
  · intro hne hres
    have hruns := (hother hne.symm).2.2 (by rw [hres]; decide)
    exact (congrArg Slot.status hruns).trans hres
  · intro root hroot
    cases root with
    | task other field => exact (hother fun heq => hroot field (by rw [heq])).1 field
    | other name => exact congrFun hothers name
    | cachedFiles => rfl
    | allocMap slot => rfl
    | devfsHandles => rfl
    | echfsHandles => rfl

theorem Quits.refers (hquits : Quits mem later pid)
    (hclosed : ∀ handle ∈ mem.s.table pid, handle.free = true) : later.s.refers = mem.s.refers := by
  funext node
  cases node with
  | descriptor other handle =>
      rw [State.refers, State.refers, internal_congr hquits.drivers.mountpoint]
      by_cases heq : other = pid
      · have hnone : ∀ {table : List FileHandleV2}, (∀ handle ∈ table, handle.free = true) →
            inUse (·.free) table handle = none := by
          intro table hfree
          refine Option.eq_none_iff_forall_ne_some.mpr ?_
          intro entry huse
          obtain ⟨hentry, hlive⟩ := inUse_mem huse
          rw [hfree entry hentry] at hlive
          cases hlive
        have hempty : later.s.table pid = [] := by
          rw [State.table, hquits.gone]
          rfl
        rw [heq, hempty, hnone hclosed, hnone (by simp)]
      · rw [hquits.table other heq]
  | devfs handle => rw [State.refers, State.refers, hquits.drivers.devfsHandles]
  | echfs handle => rw [State.refers, State.refers, hquits.drivers.echfsHandles]

theorem Holds.taskQuit (hholds : Holds partitions [] mem) (hpid : pid ≠ 0)
    (hreleases : Releases mem (.quit pid value)) (hquit : mem.taskQuit pid value = some later) :
    Holds partitions [] later := by
  have hquits := taskQuit_quits hquit
  obtain ⟨hclosed, hldt⟩ := hreleases
  have hrefers := hquits.refers hclosed
  refine ⟨?_, ?_, ?_⟩
  · refine hquits.drivers.attached hholds.attached ?_ ?_
    · rw [hquits.kernel hpid hholds.attached.kernel, hholds.attached.kernel]
    · rw [hrefers]
      exact hholds.attached.chained
  · rw [hrefers]
    exact hholds.covered
  · rw [hquits.live]
    refine hholds.accounted.mono (fun ptr hptr => (List.mem_filter.mp hptr).1) (fun ptr h => Or.inl h) ?_
    intro root hroot hlive
    have hkept : mem.root root ∉ mem.quitPtrs pid := by simpa using (List.mem_filter.mp hlive).2
    by_cases htask : ∃ field, root = .task pid field
    · obtain ⟨field, rfl⟩ := htask
      cases field with
      | ldt =>
          obtain ⟨other, hne, hshared⟩ := hldt.resolve_left hroot
          refine ⟨.task other .ldt, ?_⟩
          rw [← hshared]
          exact hquits.root _ fun field h => hne (by cases h; rfl)
      | entry => exact absurd (by simp [Memory.quitPtrs]) hkept
      | image => exact absurd (by simp [Memory.quitPtrs]) hkept
      | handles => exact absurd (by simp [Memory.quitPtrs]) hkept
      | descriptors => exact absurd (by simp [Memory.quitPtrs]) hkept
    · exact ⟨root, hquits.root root fun field h => htask ⟨field, h⟩⟩

-- An open descriptor of a task that quits leaves its handle to nobody.
theorem Quits.leaks {node : Node} {handle : Int} (hquits : Quits mem later pid) (hattached : Attached mem.s)
    (hopen : mem.s.refers (.descriptor pid handle) = some (some node)) (hhandle : node.isHandle)
    (hpartitions : ∀ fd ∈ partitions, node ≠ .devfs fd) : ¬ Released partitions later := by
  intro hreleased
  have hkept : ∀ there : Node, there.isHandle → later.s.refers there = mem.s.refers there := by
    intro there hthere
    cases there with
    | descriptor other number => exact absurd hthere not_false
    | devfs number => rw [State.refers, State.refers, hquits.drivers.devfsHandles]
    | echfs number => rw [State.refers, State.refers, hquits.drivers.echfsHandles]
  have hpresent := hattached.chained.exclusive.present _ _ hopen
  rw [← hkept node hhandle] at hpresent
  rcases hreleased.handles node hhandle hpresent with ⟨other, number, hrefers⟩ | ⟨fd, hfd, hnode⟩
  · rw [State.refers, internal_congr hquits.drivers.mountpoint] at hrefers
    by_cases heq : other = pid
    · rw [heq, State.table, hquits.gone] at hrefers
      simp [Slot.handlesV2, inUse, entryAt] at hrefers
    · rw [hquits.table other heq] at hrefers
      -- a handle has one descriptor
      have hsame := hattached.chained.exclusive.unique (.descriptor other number) _ _ hrefers hopen
      exact heq (by cases hsame; rfl)
  · exact hpartitions fd hfd hnode

end Quit

-- One call of a task loses nothing.
theorem Holds.step {call : TaskCall} (hholds : Holds partitions [] mem) (hreleases : Releases mem call)
    (hstep : mem.taskStep call = some later) : Holds partitions [] later := by
  unfold Memory.taskStep at hstep
  cases call with
  | openPath pid mountpoint path flags =>
      obtain ⟨hactive, hopen⟩ := Option.ite_none_right_eq_some.mp hstep
      obtain ⟨result, hresult, rfl⟩ := Option.map_eq_some_iff.mp hopen
      obtain ⟨-, hstatus⟩ := isActive_user hholds.attached hactive
      exact (hholds.vfsOpen hstatus hreleases hresult).1
  | close pid handle =>
      obtain ⟨hguard, hclose⟩ := Option.ite_none_right_eq_some.mp hstep
      obtain ⟨result, hresult, rfl⟩ := Option.map_eq_some_iff.mp hclose
      obtain ⟨hactive, hopen⟩ := Bool.and_eq_true_iff.mp hguard
      obtain ⟨hpid, -⟩ := isActive_user hholds.attached hactive
      have hroot : ∀ source, mem.s.refers source ≠ some (some (.descriptor pid handle)) := by
        intro source hsource
        exact hpid (refers_descriptor hsource).1
      have hpresent : mem.s.refers (.descriptor pid handle) ≠ none := by
        intro hnone
        rw [Memory.isOpen, Option.map_eq_none_iff.mp hnone] at hopen
        cases hopen
      exact (hholds.vfsClose hroot hpresent hresult).1
  | fork pid cpu =>
      obtain ⟨hactive, hfork⟩ := Option.ite_none_right_eq_some.mp hstep
      obtain ⟨hpid, -⟩ := isActive_user hholds.attached hactive
      exact hholds.taskFork hpid hreleases hfork
  | execute pid info program streams =>
      obtain ⟨-, hexecute⟩ := Option.ite_none_right_eq_some.mp hstep
      exact hholds.generalExecute hexecute
  | quit pid value =>
      obtain ⟨hactive, hquit⟩ := Option.ite_none_right_eq_some.mp hstep
      obtain ⟨hpid, -⟩ := isActive_user hholds.attached hactive
      exact hholds.taskQuit hpid hreleases hquit

-- Only a descriptor has a handle.
theorem refers_handle {node target : Node} (hrefers : mem.s.refers node = some (some target))
    (hhandle : target.isHandle) : ∃ pid handle, node = .descriptor pid handle := by
  cases node with
  | descriptor pid handle => exact ⟨pid, handle, rfl⟩
  | devfs handle => exact absurd hrefers refers_devfs
  | echfs handle =>
      obtain ⟨entry, -, htarget⟩ := Option.map_eq_some_iff.mp hrefers
      cases htarget
      exact absurd hhandle not_false

theorem Holds.iff_released (hattached : Attached mem.s) (hnull : 0 ∉ mem.live) :
    Holds partitions [] mem ↔ Released partitions mem := by
  constructor
  · intro hholds
    constructor
    · intro node hhandle hused
      rcases hholds.covered node hhandle hused with (hpending | hpartition) | ⟨source, hsource⟩
      · exact absurd hpending List.not_mem_nil
      · exact Or.inr hpartition
      · obtain ⟨pid, handle, rfl⟩ := refers_handle hsource hhandle
        exact Or.inl ⟨pid, handle, hsource⟩
    · intro ptr hptr
      exact (hholds.accounted ptr hptr).2.resolve_left List.not_mem_nil
  · rintro ⟨hhandles, hobjects⟩
    refine ⟨hattached, ?_, ?_⟩
    · intro node hhandle hused
      rcases hhandles node hhandle hused with ⟨pid, handle, hopen⟩ | hpartition
      · exact Or.inr ⟨_, hopen⟩
      · exact Or.inl (Or.inr hpartition)
    · intro ptr hptr
      exact ⟨fun hzero => hnull (hzero ▸ hptr), Or.inr (hobjects ptr hptr)⟩

-- Nothing is lost in any run of tasks that close what they have opened before they quit.
theorem exiting_tasks_release_everything {final : Memory} {calls : List TaskCall}
    (hattached : Attached mem.s) (hnull : 0 ∉ mem.live) (hreleased : Released partitions mem)
    (hcalls : Guarded Memory.taskStep Releases mem calls)
    (hrun : run Memory.taskStep mem calls = some final) : Released partitions final := by
  have hinit := (Holds.iff_released hattached hnull).mpr hreleased
  have hfinal := run_invariant (fun state call next hholds hreleases hstep => hholds.step hreleases hstep)
    hinit hcalls hrun
  exact (Holds.iff_released hfinal.attached fun hzero => (hfinal.accounted 0 hzero).1 rfl).mp hfinal

theorem taskInit_handlesV2 {heap : Heap} {others : Nat → Nat} {k : Kernel}
    (hboot : taskInit heap others = some k) (pid : Nat) : Slot.handlesV2 (k.taskTable pid) = [] := by
  unfold taskInit at hboot
  dsimp only at hboot
  generalize kalloc heap _ = table at hboot
  generalize kalloc table.2 _ = entry at hboot
  split at hboot
  · cases hboot
  split at hboot
  · cases hboot
  · cases hboot
    dsimp only
    by_cases heq : pid = 0
    · rw [heq, Function.update_self]
      rfl
    · rw [Function.update_of_ne heq]
      rfl

-- At first no handle is in use, and the record of the kernel's task is the only object.
theorem boot_released {heap : Heap} {others : Nat → Nat}
    (hboot : taskInit heap others = some mem.s.kernel) (hdevfs : mem.s.devfsHandles = [])
    (hechfs : mem.s.echfsHandles = []) (hdevice : mem.s.mountpoint mem.s.devMountpoint = some .devfs)
    (hlive : mem.live = [mem.root (.task 0 .entry)]) : Attached mem.s ∧ Released partitions mem := by
  have hnone : ∀ node, mem.s.refers node = none := by
    intro node
    cases node with
    | descriptor pid handle =>
        rw [State.refers, State.table, taskInit_handlesV2 hboot pid]
        simp [inUse, entryAt]
    | devfs handle => simp [State.refers, hdevfs, inUse, entryAt]
    | echfs handle => simp [State.refers, hechfs, inUse, entryAt]
  obtain ⟨address, task, htable, hstatus, -⟩ := taskInit_table hboot
  refine ⟨⟨⟨⟨?_, ?_⟩, ?_⟩, ?_, hdevice⟩, ?_, ?_⟩
  · intro node target hrefers
    rw [hnone] at hrefers
    cases hrefers
  · intro first second target hrefers
    rw [hnone] at hrefers
    cases hrefers
  · intro handle target hrefers
    rw [hnone] at hrefers
    cases hrefers
  · rw [htable, Function.update_self]
    exact congrArg some hstatus
  · intro node _ hused
    exact absurd (hnone node) hused
  · intro ptr hptr
    rw [hlive] at hptr
    exact ⟨_, (List.mem_singleton.mp hptr).symm⟩

-- The kernel after task_init, with the devices and a volume mounted.
def booted : Option Memory :=
  (taskInit emptyHeap fun _ => 0).map fun kernel =>
    { s :=
        { kernel := kernel
          mountpoint := fun index =>
            if index = 0 then some .devfs else if index = 1 then some (.echfs smallMount 0) else none
          devMountpoint := 0
          devices := [{ name := [97], size := 16 }]
          disks := fun _ => smallDisk
          record := fun _ => zeroRecord }
      live := [Slot.field (kernel.taskTable 0) .entry] }

theorem booted_released {start : Memory} (hboot : booted = some start) :
    Attached start.s ∧ Released [] start := by
  obtain ⟨kernel, hkernel, rfl⟩ := Option.map_eq_some_iff.mp hboot
  exact boot_released hkernel rfl rfl rfl rfl

-- The program in the file /a of the volume, with the device /a for its standard streams.
def startA : TaskCall :=
  .execute 0 plainInfo ⟨1, pathA⟩ ⟨⟨0, pathA⟩, ⟨0, pathA⟩, ⟨0, pathA⟩⟩

def closeStreams : List TaskCall := [.close 1 0, .close 1 1, .close 1 2]

theorem tidy_task_releases_everything : ∃ start final, booted = some start ∧
    run Memory.taskStep start (startA :: closeStreams ++ [.quit 1 0]) = some final ∧ Released [] final := by
  have hrun : booted.any (fun start => 0 ∉ start.live ∧
      (run Memory.taskStep start (startA :: closeStreams)).any (fun middle =>
        (∀ handle ∈ middle.s.table 1, handle.free = true) ∧ middle.root (.task 1 .ldt) = 0 ∧
          (middle.taskStep (.quit 1 0)).isSome) = true) = true := by
    decide +kernel
  obtain ⟨start, hboot, hstart⟩ := (Option.any_eq_true _ _).mp hrun
  obtain ⟨hnull, hruns⟩ := of_decide_eq_true hstart
  obtain ⟨middle, hmiddle, hstate⟩ := (Option.any_eq_true _ _).mp hruns
  obtain ⟨hclosed, hldt, hquits⟩ := of_decide_eq_true hstate
  obtain ⟨final, hquit⟩ := Option.isSome_iff_exists.mp hquits
  obtain ⟨hattached, hreleased⟩ := booted_released hboot
  have hfinal : run Memory.taskStep start (startA :: closeStreams ++ [.quit 1 0]) = some final := by
    rw [run_append, hmiddle, Option.bind_some, run, hquit]
    rfl
  refine ⟨start, final, hboot, hfinal, ?_⟩
  have hcalls : Guarded Memory.taskStep Releases start (startA :: closeStreams ++ [.quit 1 0]) := by
    refine ⟨trivial, fun mem hfirst => ⟨trivial, fun mem hsecond => ⟨trivial, fun mem hthird =>
      ⟨trivial, fun last hlast => ⟨?_, fun _ _ => trivial⟩⟩⟩⟩⟩
    have hsame : last = middle := by
      simpa [closeStreams, run, hfirst, hsecond, hthird, hlast] using hmiddle
    rw [hsame]
    exact ⟨hclosed, Or.inl hldt⟩
  exact exiting_tasks_release_everything hattached hnull hreleased hcalls hfinal

theorem quitting_task_leaks_its_streams : ∃ start final, booted = some start ∧ Attached start.s ∧
    Released [] start ∧ run Memory.taskStep start [startA, .quit 1 0] = some final ∧
    ¬ Released [] final := by
  have hrun : booted.any (fun start => 0 ∉ start.live ∧
      (start.taskStep startA).any (fun middle =>
        middle.s.refers (.descriptor 1 0) = some (some (.devfs 0)) ∧
          (middle.taskQuit 1 0).isSome ∧ middle.s.kernel.isActive 1 = true) = true) = true := by
    decide +kernel
  obtain ⟨start, hboot, hstart⟩ := (Option.any_eq_true _ _).mp hrun
  obtain ⟨hnull, hruns⟩ := of_decide_eq_true hstart
  obtain ⟨middle, hmiddle, hstate⟩ := (Option.any_eq_true _ _).mp hruns
  obtain ⟨hopen, hquits, hactive⟩ := of_decide_eq_true hstate
  obtain ⟨final, hquit⟩ := Option.isSome_iff_exists.mp hquits
  obtain ⟨hattached, hreleased⟩ := booted_released hboot
  have hreleases : Releases start startA := trivial
  have hheld := ((Holds.iff_released hattached hnull).mpr hreleased).step hreleases hmiddle
  have hfinal : run Memory.taskStep start [startA, .quit 1 0] = some final := by
    rw [run, hmiddle, Option.bind_some, run, Memory.taskStep, if_pos hactive, hquit]
    rfl
  exact ⟨start, final, hboot, hattached, hreleased, hfinal,
    (taskQuit_quits hquit).leaks hheld.attached hopen trivial (by simp)⟩

end EchidnaOS.Vfs
