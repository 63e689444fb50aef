import EchidnaOS.Scheduler.Theorems
import EchidnaOS.Segment.Ldt
import EchidnaOS.Task.Memory.Apart

namespace EchidnaOS.Scheduler

open EchidnaOS.Lib EchidnaOS.Lib.ByteStore EchidnaOS.Klib EchidnaOS.Ipc EchidnaOS.Vdev

variable {k middle next : Kernel} {m after : Machine} {ldts : Nat → Prop}
  {pid current address : Nat} {task task' : Task}

-- No task gets other memory or other descriptors, and every object keeps its owner.
structure Harmless (k next : Kernel) : Prop where
  layout : next.layout = k.layout
  memory : ∀ ldts, MemoryOk ldts k → MemoryOk ldts next

-- A task may change in what it does not own.
structure SameObjects (task task' : Task) : Prop where
  layout : task'.layout = task.layout
  heapBase : task'.heapBase = task.heapBase
  handles : task'.fileHandles = task.fileHandles
  handlesV2 : task'.fileHandlesV2 = task.fileHandlesV2

theorem Harmless.refl (k : Kernel) : Harmless k k := ⟨rfl, fun _ => id⟩

theorem Harmless.trans (hfirst : Harmless k middle) (hsecond : Harmless middle next) :
    Harmless k next :=
  ⟨hsecond.layout.trans hfirst.layout, fun ldts hok => hsecond.memory ldts (hfirst.memory ldts hok)⟩

theorem Harmless.setMem (k : Kernel) (mem : Store) : Harmless k { k with heap.mem := mem } := by
  refine ⟨layout_congr rfl, ?_⟩
  intro ldts hok
  obtain ⟨owner, howned⟩ := hok.owned
  exact ⟨hok.kernelTask, owner, howned.setMem mem⟩

theorem Harmless.requests (k : Kernel) (reqs : List Request) : Harmless k (k.requests reqs) := by
  refine ⟨requests_layout k reqs, ?_⟩
  intro ldts hok
  obtain ⟨owner, howned⟩ := hok.owned
  obtain ⟨owner', howned', -⟩ := howned.requests reqs
  refine ⟨?_, owner', howned'⟩
  rw [requests_taskTable]
  exact hok.kernelTask

theorem SameObjects.taskOwned {heap : Heap} {owner : Nat → Option Owner}
    (hsame : SameObjects task task') (htask : TaskOwned heap owner pid address task) :
    TaskOwned heap owner pid address task' := by
  have hlayout := hsame.layout
  simp only [Task.layout, Layout.mk.injEq] at hlayout
  exact htask.congr hlayout.1 hlayout.2.1 hsame.heapBase hsame.handles hsame.handlesV2

-- The kernel task stays what it is.
theorem Harmless.setTask (hslot : k.taskTable pid = .task address task)
    (hstatus : task.status = .res → task'.status = .res) (hsame : SameObjects task task') :
    Harmless k (k.setTask pid address task') := by
  refine ⟨setTask_layout_same hslot hsame.layout, ?_⟩
  intro ldts hok
  obtain ⟨kernelAddress, kernelTask, hkernel, hres⟩ := hok.kernelTask
  obtain ⟨owner, howned⟩ := hok.owned
  refine ⟨?_, owner, howned.setTask (hsame.taskOwned (howned.tasks pid address task hslot))⟩
  by_cases he : pid = 0
  · subst he
    rw [hslot] at hkernel
    cases hkernel
    exact ⟨_, task', setTask_same k 0 _ task', hstatus hres⟩
  · exact ⟨kernelAddress, kernelTask, (setTask_other (Ne.symm he)).trans hkernel, hres⟩

-- A running task that changes only in its status, its registers and what it waits for.
theorem setStatus_harmless {change : Task → Task}
    (hres : (m.kernel.taskTable current).status ≠ some .res)
    (hsame : ∀ task, SameObjects task (change task)) :
    Harmless m.kernel (m.setStatus current change).kernel := by
  unfold Machine.setStatus
  split
  · rename_i address task hslot
    exact .setTask hslot (fun hstatus => absurd hstatus (slot_ne_res hslot hres)) (hsame task)
  · exact .refl m.kernel

theorem setStatus_pointer (m : Machine) (current : Nat) (change : Task → Task) :
    (m.setStatus current change).pointer = m.pointer := by
  unfold Machine.setStatus
  split
  · rfl
  · rfl

theorem taskSwitch_harmless (k : Kernel) (current : Nat) (cpu : GprState) :
    Harmless k (taskSwitch k current cpu) := by
  unfold taskSwitch
  split
  · rename_i address task hslot
    exact .setTask hslot id ⟨rfl, rfl, rfl, rfl⟩
  · exact .refl k

theorem wakeManager_harmless {vdev : Nat} (hslot : k.taskTable pid = .task address task) :
    Harmless k (wakeManager k pid address task vdev) := by
  unfold wakeManager
  split
  · rename_i hwaits
    refine .setTask hslot (fun hres => ?_) ⟨rfl, rfl, rfl, rfl⟩
    rw [hwaits] at hres
    cases hres
  · exact .refl k

theorem vdevIoWrapper_harmless {vdev : Nat} {transfer : Transfer} {result : Int × Machine}
    (hio : vdevIoWrapper m vdev transfer = some result) :
    Harmless m.kernel result.2.kernel ∧ result.2.pointer = m.pointer := by
  rcases vdevIoWrapper_cases hio with hsame | ⟨entry, address, task, mem, -, -, hslot, heq⟩
  · rw [hsame]
    exact ⟨.refl _, rfl⟩
  · rw [heq]
    exact ⟨(wakeManager_harmless hslot).trans (.setMem _ mem), rfl⟩

theorem pushQueueBack_harmless {count : Nat} (hpush : pushQueueBack k pid count = some next) :
    Harmless k next := by
  unfold pushQueueBack at hpush
  split at hpush
  · cases hpush
    exact .refl k
  · split at hpush
    · rename_i address task hslot
      cases hpush
      exact .setTask hslot id ⟨rfl, rfl, rfl, rfl⟩
    · cases hpush

theorem freeQueueEntry_harmless (k : Kernel) (current : Nat) :
    Harmless k (freeQueueEntry k current) := by
  unfold freeQueueEntry
  split
  · rename_i address task hslot
    exact .setTask hslot id ⟨rfl, rfl, rfl, rfl⟩
  · exact .refl k

theorem enterIpcwaitStatus_harmless (hactive : k.isActive current = true) :
    Harmless k (enterIpcwaitStatus k current) := by
  unfold enterIpcwaitStatus
  split
  · rename_i address task hslot
    have hres := slot_ne_res hslot (ne_res_of_isActive hactive)
    split
    · exact .setTask hslot (fun hstatus => absurd hstatus hres) ⟨rfl, rfl, rfl, rfl⟩
    · exact .refl k
  · exact .refl k

-- A packet that is refused ends the sender.
theorem ipcSendPacket_harmless {payload len : UInt32} {result : Option IpcPacket × Kernel}
    (hsend : ipcSendPacket k current pid payload len = some result) :
    Harmless k result.2 ∨ taskQuit k current (-1) = some result.2 ∧
      terminated k (.send current pid payload len) ≠ none := by
  unfold ipcSendPacket at hsend
  cases hcaller : k.taskTable current with
  | null | empty =>
      rw [hcaller] at hsend
      cases hsend
  | task callerAddress caller =>
      rw [hcaller] at hsend
      dsimp only at hsend
      cases htarget : k.taskTable pid with
      | task address task =>
          rw [htarget] at hsend
          split at hsend
          · cases hsend
            refine Or.inl (.setTask htarget (fun hres => ?_) ⟨rfl, rfl, rfl, rfl⟩)
            simp [enqueue, hres]
          · rename_i hlimit
            obtain ⟨quit, hquit, rfl⟩ := Option.map_eq_some_iff.mp hsend
            refine Or.inr ⟨hquit, ?_⟩
            simp [terminated, hcaller, htarget, hlimit]
      | null | empty =>
          rw [htarget] at hsend
          simp only [ite_self] at hsend
          obtain ⟨quit, hquit, rfl⟩ := Option.map_eq_some_iff.mp hsend
          refine Or.inr ⟨hquit, ?_⟩
          simp [terminated, hcaller, htarget]

theorem ipcReadPacket_harmless {payload : UInt32} {result : Option IpcPacket × Kernel}
    (hread : ipcReadPacket k current payload = some result) :
    Harmless k result.2 ∨ taskQuit k current (-1) = some result.2 ∧
      terminated k (.read current payload) ≠ none := by
  unfold ipcReadPacket at hread
  cases hcaller : k.taskTable current with
  | null | empty =>
      rw [hcaller] at hread
      cases hread
  | task address task =>
      rw [hcaller] at hread
      dsimp only at hread
      split at hread
      · cases hread
        exact Or.inl (.refl k)
      · rename_i hsome
        split at hread
        · obtain ⟨pushed, hpush, rfl⟩ := Option.map_eq_some_iff.mp hread
          exact Or.inl ((Harmless.setMem k _).trans
            ((pushQueueBack_harmless hpush).trans (freeQueueEntry_harmless pushed current)))
        · rename_i hlimit
          obtain ⟨quit, hquit, rfl⟩ := Option.map_eq_some_iff.mp hread
          refine Or.inr ⟨hquit, ?_⟩
          simp [terminated, hcaller, hsome, hlimit]

theorem pollVdev_harmless {access : Nat × Transfer} (hpoll : pollVdev m access = some after) :
    Harmless m.kernel after.kernel ∧ after.pointer = m.pointer := by
  unfold pollVdev at hpoll
  split at hpoll
  · obtain ⟨result, hio, rfl⟩ := Option.map_eq_some_iff.mp hpoll
    exact vdevIoWrapper_harmless hio
  · cases hpoll
    exact ⟨.refl _, rfl⟩

theorem pollAccesses_harmless {accesses : List (Nat × Transfer)}
    (hpoll : accesses.foldlM pollVdev m = some after) :
    Harmless m.kernel after.kernel ∧ after.pointer = m.pointer := by
  induction accesses generalizing m with
  | nil =>
      cases hpoll
      exact ⟨.refl _, rfl⟩
  | cons access rest ih =>
      rw [List.foldlM_cons] at hpoll
      obtain ⟨first, hfirst, hrest⟩ := Option.bind_eq_some_iff.mp hpoll
      obtain ⟨hkept, hpointer⟩ := pollVdev_harmless hfirst
      obtain ⟨hkept', hpointer'⟩ := ih hrest
      exact ⟨hkept.trans hkept', hpointer'.trans hpointer⟩

theorem pollDrivers_harmless {poll : Poll} (hpoll : pollDrivers m poll = some after) :
    Harmless m.kernel after.kernel ∧ after.pointer = m.pointer := by
  obtain ⟨accessed, haccesses, rfl⟩ := Option.map_eq_some_iff.mp hpoll
  obtain ⟨hkept, hpointer⟩ := pollAccesses_harmless haccesses
  exact ⟨hkept.trans ((Harmless.requests _ _).trans (.setMem _ _)), hpointer⟩

-- The arrays of descriptors and the table of vdevs have one page each, and an owner of their own.
structure Owning (ldts : Nat → Prop) (m : Machine) : Prop where
  memory : MemoryOk ldts m.kernel
  arrays : ∀ pid layout, m.kernel.layout pid = some layout → layout.ldt ≠ 0 → ldts layout.ldt
  table : m.pointer ≠ 0 → ldts m.pointer

theorem Owning.harmless (hok : Owning ldts m) (hkept : Harmless m.kernel after.kernel)
    (hpointer : after.pointer = m.pointer) : Owning ldts after := by
  refine ⟨hkept.memory ldts hok.memory, ?_, ?_⟩
  · rw [hkept.layout]
    exact hok.arrays
  · rw [hpointer]
    exact hok.table

-- No task comes by an array that no task had.
def KeepsArrays (k next : Kernel) : Prop := ∀ pid layout, next.layout pid = some layout →
  layout.ldt ≠ 0 → ∃ other old, k.layout other = some old ∧ old.ldt = layout.ldt

theorem KeepsArrays.of_eq (heq : next.layout = k.layout) : KeepsArrays k next := by
  intro pid layout hlayout _
  rw [heq] at hlayout
  exact ⟨pid, layout, hlayout, rfl⟩

theorem KeepsArrays.of_update {layout : Option Layout}
    (hupdate : next.layout = Function.update k.layout pid layout)
    (hlayout : ∀ new ∈ layout, new.ldt ≠ 0 →
      ∃ other old, k.layout other = some old ∧ old.ldt = new.ldt) : KeepsArrays k next := by
  intro other new hnew hldt
  rw [hupdate] at hnew
  by_cases he : other = pid
  · subst he
    rw [Function.update_self] at hnew
    exact hlayout new hnew hldt
  · rw [Function.update_of_ne he] at hnew
    exact ⟨other, new, hnew, rfl⟩

theorem KeepsArrays.of_adds {ldt entries : Nat} (hadds : Adds ldt entries k next)
    (hldt : ldt ≠ 0 → ∃ other old, k.layout other = some old ∧ old.ldt = ldt) :
    KeepsArrays k next := by
  rcases hadds with hsame | ⟨child, base, pages, -, hadded⟩
  · exact .of_eq hsame
  · refine .of_update hadded ?_
    intro new hnew hne
    cases hnew
    exact hldt hne

theorem action_arrays {action : EchidnaOS.Action} (hstep : EchidnaOS.step k action = some next) :
    KeepsArrays k next := by
  cases action with
  | execute current info file vfs =>
      simp only [EchidnaOS.step, Option.ite_none_right_eq_some, Option.some.injEq] at hstep
      obtain ⟨-, rfl⟩ := hstep
      exact .of_adds (generalExecute_layout k current info file vfs) fun hne => absurd rfl hne
  | executeBlock current cpu info file vfs =>
      simp only [EchidnaOS.step, Option.ite_none_right_eq_some, Option.some.injEq] at hstep
      obtain ⟨-, rfl⟩ := hstep
      exact .of_adds (generalExecuteBlock_layout k current cpu info file vfs) fun hne =>
        absurd rfl hne
  | fork current cpu forks =>
      simp only [EchidnaOS.step, Option.ite_none_right_eq_some, Option.some.injEq] at hstep
      obtain ⟨hactive, rfl⟩ := hstep
      obtain ⟨address, task, hslot, -⟩ := isActive_slot hactive
      exact .of_adds (taskFork_layout hslot cpu forks) fun _ =>
        ⟨current, task.layout, layout_eq hslot, rfl⟩
  | resizeHeap current heapSize =>
      simp only [EchidnaOS.step, Option.ite_none_right_eq_some, Option.some.injEq] at hstep
      obtain ⟨hactive, rfl⟩ := hstep
      obtain ⟨address, task, hslot, -⟩ := isActive_slot hactive
      unfold resizeHeap
      rw [hslot]
      dsimp only
      split
      · exact .of_eq (layout_congr rfl)
      · refine .of_update (setTask_layout _ _ _ _) ?_
        intro new hnew _
        cases hnew
        exact ⟨current, task.layout, layout_eq hslot, rfl⟩
  | execve current argv envp file load =>
      simp only [EchidnaOS.step, Option.ite_none_right_eq_some, Option.some.injEq] at hstep
      obtain ⟨hactive, rfl⟩ := hstep
      obtain ⟨address, task, hslot, -⟩ := isActive_slot hactive
      rcases execve_layout hslot argv envp file load with hsame | ⟨-, base, hmoved⟩
      · exact .of_eq hsame
      · refine .of_update hmoved ?_
        intro new hnew _
        cases hnew
        exact ⟨current, task.layout, layout_eq hslot, rfl⟩
  | quit current value =>
      simp only [EchidnaOS.step, Option.ite_none_right_eq_some] at hstep
      exact .of_update (taskQuit_layout hstep.2) fun _ hnew => absurd hnew (by simp)
  | switch current cpu =>
      simp only [EchidnaOS.step, Option.ite_none_right_eq_some, Option.some.injEq] at hstep
      obtain ⟨-, rfl⟩ := hstep
      exact .of_eq (taskSwitch_layout k current cpu)
  | kernel reqs =>
      simp only [EchidnaOS.step, Option.some.injEq] at hstep
      subst hstep
      exact .of_eq (requests_layout k reqs)

theorem Owning.action {action : EchidnaOS.Action} (hok : Owning ldts m)
    (hkeeps : KeepsSegments m.kernel action) (hstep : EchidnaOS.step m.kernel action = some next) :
    Owning ldts { m with kernel := next } := by
  refine ⟨step_memoryOk hok.memory hkeeps hstep, ?_, hok.table⟩
  intro pid layout hlayout hldt
  obtain ⟨other, old, hold, hsame⟩ := action_arrays hstep pid layout hlayout hldt
  have harray := hok.arrays other old hold
  rw [hsame] at harray
  exact harray hldt

-- The whole table of vdevs fits one page.
theorem vdevs_onePage {count : Nat} (hroom : count < VDEV_MAX) :
    divRoundup ((count + 1) * SIZEOF_VDEV) PAGE_SIZE = 1 := by
  have hcount : count < 12 := hroom
  have hlt : (count + 1) * 28 + (4096 - 1) < 2 ^ 32 := by omega
  simp only [divRoundup, SIZEOF_VDEV, PAGE_SIZE]
  rw [Nat.mod_eq_of_lt hlt]
  omega

-- krealloc of an array of one page, or of none yet, to one that still fits the page.
theorem MemoryOk.onePage {ptr size : Nat} (hok : MemoryOk ldts k) (hptr : ptr ≠ 0 → ldts ptr)
    (hone : divRoundup size PAGE_SIZE = 1) :
    ∃ ldts', (∀ other, ldts other → ldts' other) ∧
      MemoryOk ldts' { k with heap := (krealloc k.heap ptr size).2 } ∧
      ((krealloc k.heap ptr size).1 ≠ 0 → ldts' (krealloc k.heap ptr size).1) := by
  obtain ⟨owner, howned⟩ := hok.owned
  by_cases hnull : ptr = 0
  · have hkalloc : krealloc k.heap ptr size = kalloc k.heap size := by
      rw [krealloc, if_pos hnull]
    rw [hkalloc]
    rcases howned.newArray hone with ⟨hzero, hnext⟩ | ⟨-, -, owner', hnext⟩
    · exact ⟨ldts, fun _ => id, ⟨hok.kernelTask, owner, hnext⟩, fun hne => absurd hzero hne⟩
    · exact ⟨_, fun _ => Or.inl, ⟨hok.kernelTask, owner', hnext⟩, fun _ => Or.inr rfl⟩
  · obtain ⟨hinPlace, owner', hnext⟩ := howned.growArray (hptr hnull) hone
    rw [hinPlace]
    exact ⟨ldts, fun _ => id, ⟨hok.kernelTask, owner', hnext⟩, hptr⟩

theorem Owning.more {ldts' : Nat → Prop} {pointer : Nat} (hok : Owning ldts m)
    (hmemory : MemoryOk ldts' next) (hlayout : next.layout = m.kernel.layout)
    (hmore : ∀ ptr, ldts ptr → ldts' ptr) (hpointer : pointer ≠ 0 → ldts' pointer)
    (vdevs : List VdevT) : Owning ldts' { kernel := next, pointer := pointer, vdevs := vdevs } := by
  refine ⟨hmemory, ?_, hpointer⟩
  intro pid layout hslot hldt
  dsimp only at hslot
  rw [hlayout] at hslot
  exact hmore _ (hok.arrays pid layout hslot hldt)

theorem Owning.register (hok : Owning ldts m) (current : Nat)
    (payloadInAddr payloadInFlag payloadOutAddr payloadOutFlag : UInt32) :
    ∃ ldts', Owning ldts' (registerVdev m current payloadInAddr payloadInFlag payloadOutAddr
      payloadOutFlag).2 := by
  unfold registerVdev
  split
  · split
    · exact ⟨ldts, hok⟩
    rename_i hroom
    have hone := vdevs_onePage (Nat.lt_of_not_le hroom)
    obtain ⟨ldts', hmore, hmemory, harray⟩ := MemoryOk.onePage hok.memory hok.table hone
    split
    · dsimp only
      split
      · exact ⟨ldts', hok.more hmemory (layout_congr rfl) hmore (fun hne => hmore _ (hok.table hne)) _⟩
      · exact ⟨ldts', hok.more hmemory (layout_congr rfl) hmore harray _⟩
    · exact ⟨ldts, hok⟩
  · exact ⟨ldts, hok⟩

theorem Owning.quit (hok : Owning ldts m) (hactive : m.kernel.isActive current = true)
    (hquit : taskQuit m.kernel current (-1) = some next) : Owning ldts { m with kernel := next } := by
  have hstep : EchidnaOS.step m.kernel (.quit current (-1)) = some next :=
    (if_pos hactive).trans hquit
  have hkeeps : KeepsSegments m.kernel (.quit current (-1)) := trivial
  exact hok.action hkeeps hstep

theorem Owning.call {call : Vdev.Call} (hok : Owning ldts m) (hkeeps : WritesInside m call)
    (hstep : Vdev.step m call = some after) : ∃ ldts', Owning ldts' after := by
  have heffect := effect_of_step hstep
  cases call with
  | other action =>
      obtain ⟨next, haction, rfl⟩ := Option.map_eq_some_iff.mp heffect
      exact ⟨ldts, hok.action hkeeps haction⟩
  | send current pid payload len =>
      obtain ⟨result, hsend, rfl⟩ := Option.map_eq_some_iff.mp heffect
      rcases ipcSendPacket_harmless hsend with hkept | ⟨hended, -⟩
      · exact ⟨ldts, hok.harmless hkept rfl⟩
      · exact ⟨ldts, hok.quit (step_active hstep rfl) hended⟩
  | read current payload =>
      obtain ⟨result, hread, rfl⟩ := Option.map_eq_some_iff.mp heffect
      rcases ipcReadPacket_harmless hread with hkept | ⟨hended, -⟩
      · exact ⟨ldts, hok.harmless hkept rfl⟩
      · exact ⟨ldts, hok.quit (step_active hstep rfl) hended⟩
  | ipcwait current =>
      cases heffect
      exact ⟨ldts, hok.harmless (enterIpcwaitStatus_harmless (step_active hstep rfl)) rfl⟩
  | register current payloadInAddr payloadInFlag payloadOutAddr payloadOutFlag =>
      cases heffect
      exact hok.register current _ _ _ _
  | inReady current vdev | outReady current vdev =>
      obtain ⟨result, hready, rfl⟩ := Option.map_eq_some_iff.mp heffect
      obtain ⟨entry, -, rfl⟩ := Option.map_eq_some_iff.mp hready
      refine ⟨ldts, ?_⟩
      split
      · exact hok
      · exact hok.harmless (.refl _) rfl
  | io vdev transfer =>
      obtain ⟨result, hio, rfl⟩ := Option.map_eq_some_iff.mp heffect
      obtain ⟨hkept, hpointer⟩ := vdevIoWrapper_harmless hio
      exact ⟨ldts, hok.harmless hkept hpointer⟩
  | iowait current | iowait1 current | vdevwait current =>
      cases heffect
      have hres := ne_res_of_isActive (step_active hstep rfl)
      refine ⟨ldts, hok.harmless (setStatus_harmless hres ?_) (setStatus_pointer _ _ _)⟩
      exact fun task => ⟨rfl, rfl, rfl, rfl⟩

variable {polls : Nat → Poll} {s t : Scan}

-- The poll of a task that waits, and what becomes of the task.
theorem Owning.polled {poll : Poll} {change : Task → Task} (hok : Owning ldts m)
    (hslot : m.kernel.taskTable pid = .task address task) (hpoll : pollDrivers m poll = some after)
    (hwaits : task.status = .iowait) (hsame : ∀ task, SameObjects task (change task)) :
    Owning ldts (after.setStatus pid change) := by
  obtain ⟨hkept, hpointer⟩ := pollDrivers_harmless hpoll
  have hres : (m.kernel.taskTable pid).status ≠ some .res := by
    rw [hslot, Slot.status, hwaits]
    simp
  have hres' := (pollDrivers_polled hpoll).kept.status_ne_res hres
  exact hok.harmless (hkept.trans (setStatus_harmless hres' hsame))
    ((setStatus_pointer _ _ _).trans hpointer)

theorem retryIo_sameObjects (result : Int) (task : Task) :
    SameObjects task (retryIo result task) := by
  unfold retryIo
  split
  · exact ⟨rfl, rfl, rfl, rfl⟩
  · exact ⟨rfl, rfl, rfl, rfl⟩

theorem completeIo_sameObjects (result : Int) (task : Task) :
    SameObjects task (completeIo result task) := by
  unfold completeIo
  split
  · exact ⟨rfl, rfl, rfl, rfl⟩
  · exact ⟨rfl, rfl, rfl, rfl⟩

theorem Owning.visit_pass (hok : Owning ldts s.machine) (hpass : visit polls pid s = .pass t) :
    Owning ldts t.machine := by
  unfold visit at hpass
  split at hpass
  · rename_i address task hslot
    split at hpass
    · rename_i hwaits
      unfold pollTask at hpass
      split at hpass
      · cases hpass
      · split at hpass
        · cases hpass
        · rename_i after hpoll
          dsimp only at hpass
          split at hpass
          · cases hpass
          · cases hpass
            exact hok.polled hslot hpoll hwaits (retryIo_sameObjects _)
    all_goals
      cases hpass
      try exact hok
  · cases hpass
    exact hok

-- A task that is dispatched is in the table, and it is not the kernel task.
def OutcomeOwning (ldts : Nat → Prop) : Outcome → Prop
  | .dispatch pid m => Owning ldts m ∧ pid ≠ 0 ∧ ∃ layout, m.kernel.layout pid = some layout
  | .idle m => Owning ldts m
  | _ => True

theorem MemoryOk.pid_ne_zero (hok : MemoryOk ldts k) (hslot : k.taskTable pid = .task address task)
    (hres : task.status ≠ .res) : pid ≠ 0 := by
  obtain ⟨kernelAddress, kernelTask, hkernel, hstatus⟩ := hok.kernelTask
  rintro rfl
  rw [hkernel] at hslot
  cases hslot
  exact hres hstatus

theorem Owning.visit_take {outcome : Outcome} (hok : Owning ldts s.machine)
    (htake : visit polls pid s = .take outcome) : OutcomeOwning ldts outcome := by
  unfold visit at htake
  split at htake
  · rename_i address task hslot
    split at htake
    · rename_i hwaits
      have hpid : pid ≠ 0 := MemoryOk.pid_ne_zero hok.memory hslot (by simp [hwaits])
      unfold pollTask at htake
      split at htake
      · cases htake
        trivial
      · split at htake
        · cases htake
          trivial
        · rename_i after hpoll
          dsimp only at htake
          split at htake
          · cases htake
            have hdone := hok.polled hslot hpoll hwaits (completeIo_sameObjects
              (polls s.polled).result)
            refine ⟨hdone, hpid, ?_⟩
            obtain ⟨hkept, -⟩ := pollDrivers_harmless hpoll
            have hlayout : after.kernel.layout pid = some task.layout := by
              rw [hkept.layout]
              exact layout_eq hslot
            obtain ⟨address', task', hslot', -⟩ := layout_some hlayout
            unfold Machine.setStatus
            rw [hslot']
            exact ⟨_, layout_eq (setTask_same _ pid _ _)⟩
          · cases htake
    · rename_i hactive
      cases htake
      exact ⟨hok, MemoryOk.pid_ne_zero hok.memory hslot (by simp [hactive]), task.layout,
        layout_eq hslot⟩
    all_goals cases htake
  · cases htake

theorem Owning.schedulerLoop (hok : Owning ldts s.machine) (polls : Nat → Poll)
    (fuel currentTask : Nat) (idleCpu : Bool) :
    OutcomeOwning ldts (schedulerLoop polls fuel currentTask idleCpu s) := by
  induction fuel generalizing currentTask idleCpu s with
  | zero => trivial
  | succ fuel ih =>
      unfold Scheduler.schedulerLoop
      split
      · split
        · exact hok
        · exact ih hok 0 true
      · split
        · rename_i outcome htake
          exact hok.visit_take htake
        · rename_i next hpass
          exact ih (hok.visit_pass hpass) (currentTask + 1) idleCpu

theorem Owning.switchFrom (hok : Owning ldts m) (currentTask : Nat) (cpu : GprState) :
    Owning ldts (switchFrom m currentTask cpu) :=
  hok.harmless (taskSwitch_harmless m.kernel currentTask cpu) rfl

theorem bootOwning {heap : Heap} {others : Nat → Nat}
    (hheap : HeapOk heap fun ptr => ptr ≠ 0 ∧ ∃ name, others name = ptr)
    (hdistinct : ∀ first second, others first = others second → others first ≠ 0 →
      first = second)
    (hinit : taskInit heap others = some k) : Owning (fun _ => False) { kernel := k } := by
  have hmemory := taskInit_memoryOk hheap hdistinct hinit
  let state : Segment.State := ⟨k, fun _ _ => {}⟩
  have hboot : Segment.LdtOk (fun _ => False) state := .boot hinit hmemory
  exact ⟨hmemory, hboot.arrays, fun hne => absurd rfl hne⟩

theorem Owning.bootLaunches {launches : List Launch} (hok : Owning ldts { kernel := k })
    (hfits : ∀ launch ∈ launches, launch.Fits) :
    Owning ldts { kernel := launches.foldl bootLaunch k } := by
  induction launches generalizing k with
  | nil => exact hok
  | cons launch rest ih =>
      refine ih ?_ fun other hother => hfits other (List.mem_cons_of_mem _ hother)
      have hloaded : Owning ldts { kernel := k.requests launch.requests } :=
        hok.harmless (.requests k launch.requests) rfl
      have hlaunch : EchidnaOS.step (k.requests launch.requests)
          (.execute 0 launch.info launch.file launch.vfs) = some (bootLaunch k launch) := by
        obtain ⟨address, task, hslot, hstatus⟩ := hloaded.memory.kernelTask
        refine if_pos ?_
        dsimp only at hslot
        simp [Kernel.canLaunch, hslot, Slot.status, hstatus]
      refine hloaded.action ?_ hlaunch
      have hfirst := hfits launch List.mem_cons_self
      cases hfile : launch.file with
      | none => trivial
      | some file => exact hfirst file hfile

end EchidnaOS.Scheduler
