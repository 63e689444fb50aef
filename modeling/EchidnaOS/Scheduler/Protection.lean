import EchidnaOS.Scheduler.Memory
import EchidnaOS.Segment.Gdt

namespace EchidnaOS.Scheduler

open EchidnaOS.Lib EchidnaOS.Lib.Run EchidnaOS.Klib EchidnaOS.Segment EchidnaOS.Vdev

-- The system, the arrays of descriptors of its tasks, and the table the processor works with.
structure Segmented where
  system : System
  array : Nat → Nat → DtEntry := fun _ _ => {}
  gdt : Nat → DtEntry

-- The running task asks for a segment, or anything else happens.
inductive Input where
  | event (event : Event)
  | newSegment (base pageCount : UInt32) (code : Bool)

def System.layout (s : System) : Option Layout := s.machine.kernel.layout s.currentTask

def reloadFor (gdt : Nat → DtEntry) (s : System) : Nat → DtEntry :=
  match s.layout with
  | some layout => reload gdt layout
  | none => gdt

-- krealloc gives resize_heap what it asks for, so it gets to its end.
def resizeGrants (k : Kernel) : Vdev.Call → Bool
  | .other (.resizeHeap pid heapSize) =>
      match k.taskTable pid with
      | .task _ task =>
          (krealloc k.heap task.base ((task.heapBase + heapPages heapSize * PAGE_SIZE) % 2 ^ 32)).1 ≠ 0
      | _ => false
  | _ => false

-- task_scheduler reloads the table before a task is run; of the calls that return to their
-- task, resize_heap does.
def System.reloads (s : System) (event : Event) (after : System) : Bool :=
  match s.entry event with
  | some _ => after.running
  | none =>
      match event with
      | .call call _ _ => resizeGrants s.machine.kernel call
      | .timer _ _ => false

def Segmented.event (s : Segmented) (event : Event) : Option Segmented :=
  (s.system.step event).map fun after =>
    { s with
      system := after
      gdt := if s.system.reloads event after then reloadFor s.gdt after else s.gdt }

def Segmented.state (s : Segmented) : State := ⟨s.system.machine.kernel, s.array⟩

-- syscall_new_segment gets to load_ldt.
def segmentGranted (k : Kernel) (current : Nat) (base pageCount : UInt32) : Bool :=
  match k.taskTable current with
  | .task _ task =>
      requestFits task base.toNat pageCount.toNat &&
        (krealloc k.heap task.ldt (ldtSize task.ldtEntries)).1 ≠ 0
  | _ => false

def loadLdtFor (gdt : Nat → DtEntry) (s : System) : Nat → DtEntry :=
  match s.layout with
  | some layout => loadLdt gdt layout.ldt layout.ldtEntries
  | none => gdt

def Segmented.newSegment (s : Segmented) (base pageCount : UInt32) (code : Bool) :
    Option Segmented :=
  if s.system.running then
    (Segment.step s.state (.newSegment s.system.currentTask base pageCount code)).map fun after =>
      let system := { s.system with machine := { s.system.machine with kernel := after.kernel } }
      { system := system
        array := after.array
        gdt :=
          if segmentGranted s.system.machine.kernel s.system.currentTask base pageCount then
            loadLdtFor s.gdt system
          else s.gdt }
  else none

def Segmented.step (s : Segmented) : Input → Option Segmented
  | .event event => s.event event
  | .newSegment base pageCount code => s.newSegment base pageCount code

-- load_gdt runs before the first task exists.
def bootSegmented (k : Kernel) (launches : List Launch) (tss tssSize : Nat) : Segmented where
  system := bootSystem k launches
  gdt := loadGdt tss tssSize

-- Nothing writes beyond what it writes to, and an array of descriptors fits its page.
def KeepsProtection (s : Segmented) : Input → Prop
  | .event event => s.system.WritesInside event
  | .newSegment _ _ _ => ∀ layout, s.system.layout = some layout →
      layout.ldtEntries < ENTRIES_PER_PAGE

-- Nothing in the table belongs to any other task than the one that runs.
structure Protected (tss tssSize : Nat) (s : Segmented) : Prop where
  owning : ∃ ldts, Owning ldts s.system.machine
  table : ∃ layout, s.gdt = reload (loadGdt tss tssSize) layout
  running : s.system.running = true → s.system.currentTask ≠ 0 ∧
    ∃ layout, s.system.layout = some layout ∧ s.gdt = reload (loadGdt tss tssSize) layout

variable {k next : Kernel} {m after : Machine} {ldts : Nat → Prop} {pid current address : Nat}
  {task : Task} {s t : Segmented} {tss tssSize : Nat}

-- A layout that an Adds leaves where it was.
theorem adds_layout {ldt entries : Nat} {layout : Layout} (hadds : Adds ldt entries k next)
    (hlayout : k.layout pid = some layout) : next.layout pid = some layout := by
  rcases hadds with hsame | ⟨child, base, pages, hnone, hadded⟩
  · rw [hsame, hlayout]
  · have hne : pid ≠ child := by
      rintro rfl
      rw [hlayout] at hnone
      cases hnone
    rw [hadded, Function.update_of_ne hne, hlayout]

-- A call that returns to its task leaves it its memory, unless it is a resize_heap that has
-- been granted.
theorem returned_layout {call : Vdev.Call} {layout : Layout}
    (hstep : Vdev.step m call = some after) (hmade : (madeBy call).all (· = current) = true)
    (hreturns : callEnd m.kernel call = .returns) (hrefused : resizeGrants m.kernel call = false)
    (hlayout : m.kernel.layout current = some layout) :
    after.kernel.layout current = some layout := by
  have heffect := effect_of_step hstep
  cases call with
  | other action =>
      obtain ⟨next, haction, rfl⟩ := Option.map_eq_some_iff.mp heffect
      cases action with
      | execute pid info file vfs =>
          simp only [EchidnaOS.step, Option.ite_none_right_eq_some, Option.some.injEq] at haction
          obtain ⟨-, rfl⟩ := haction
          exact adds_layout (generalExecute_layout m.kernel pid info file vfs) hlayout
      | executeBlock pid cpu info file vfs =>
          simp only [EchidnaOS.step, Option.ite_none_right_eq_some, Option.some.injEq] at haction
          obtain ⟨-, rfl⟩ := haction
          exact adds_layout (generalExecuteBlock_layout m.kernel pid cpu info file vfs) hlayout
      | resizeHeap pid heapSize =>
          simp only [EchidnaOS.step, Option.ite_none_right_eq_some, Option.some.injEq] at haction
          obtain ⟨hactive, rfl⟩ := haction
          obtain ⟨address, task, hslot, -⟩ := isActive_slot hactive
          simp only [resizeGrants, hslot, ne_eq, decide_not, Bool.not_eq_false',
            decide_eq_true_eq] at hrefused
          simp only [resizeHeap, hslot, hrefused, if_true]
          exact hlayout
      | execve pid argv envp file load =>
          cases file with
          | some file => cases hreturns
          | none =>
              simp only [EchidnaOS.step, Option.ite_none_right_eq_some, Option.some.injEq] at haction
              obtain ⟨hactive, rfl⟩ := haction
              obtain ⟨address, task, hslot, -⟩ := isActive_slot hactive
              rcases execve_layout hslot argv envp none load with hsame | ⟨⟨_, hfile⟩, -⟩
              · exact (congrFun hsame current).trans hlayout
              · cases hfile
      | kernel reqs =>
          simp only [EchidnaOS.step, Option.some.injEq] at haction
          subst haction
          exact (congrFun (requests_layout m.kernel reqs) current).trans hlayout
      | fork | quit | switch => cases hreturns
  | send sender pid payload len =>
      obtain ⟨result, hsend, rfl⟩ := Option.map_eq_some_iff.mp heffect
      rcases ipcSendPacket_harmless hsend with hkept | ⟨-, hended⟩
      · exact (congrFun hkept.layout current).trans hlayout
      · simp only [callEnd, hended, if_false] at hreturns
        cases hreturns
  | read reader payload =>
      obtain ⟨result, hread, rfl⟩ := Option.map_eq_some_iff.mp heffect
      rcases ipcReadPacket_harmless hread with hkept | ⟨-, hended⟩
      · exact (congrFun hkept.layout current).trans hlayout
      · simp only [callEnd, hended, if_false] at hreturns
        cases hreturns
  | register caller payloadInAddr payloadInFlag payloadOutAddr payloadOutFlag =>
      cases heffect
      exact (congrFun (layout_congr (registerVdev_kernel m caller _ _ _ _)) current).trans hlayout
  | inReady caller vdev | outReady caller vdev =>
      obtain ⟨result, hready, rfl⟩ := Option.map_eq_some_iff.mp heffect
      obtain ⟨entry, -, rfl⟩ := Option.map_eq_some_iff.mp hready
      split
      · exact hlayout
      · exact hlayout
  | io vdev transfer =>
      obtain ⟨result, hio, rfl⟩ := Option.map_eq_some_iff.mp heffect
      exact (congrFun (vdevIoWrapper_harmless hio).1.layout current).trans hlayout
  | ipcwait | iowait | iowait1 | vdevwait => cases hreturns

theorem Protected.boot {launches : List Launch} (hok : Owning ldts { kernel := k })
    (hfits : ∀ launch ∈ launches, launch.Fits) :
    Protected tss tssSize (bootSegmented k launches tss tssSize) :=
  ⟨⟨ldts, hok.bootLaunches hfits⟩, ⟨_, loadGdt_reload tss tssSize⟩,
    fun hrunning => absurd hrunning (by simp [bootSegmented, bootSystem])⟩

-- A call is one of the running task.
theorem call_made {system : System} {call : Vdev.Call} {result : End × Machine}
    (hcall : system.call call = some result) :
    (madeBy call).all (· = system.currentTask) = true ∧ system.running = true ∧
      result.1 = callEnd system.machine.kernel call ∧
      Vdev.step system.machine call = some result.2 := by
  unfold System.call at hcall
  split at hcall
  · rename_i hmade
    obtain ⟨after, hstep, rfl⟩ := Option.map_eq_some_iff.mp hcall
    simp only [Bool.and_eq_true] at hmade
    exact ⟨hmade.1.2, hmade.1.1, rfl, hstep⟩
  · cases hcall

-- The machine that task_scheduler is entered with.
theorem Owning.entry {system : System} {event : Event} {entered : Nat × Machine}
    (hok : Owning ldts system.machine)
    (hkeeps : ∀ call cpu polls, event = .call call cpu polls →
      Vdev.WritesInside system.machine call)
    (hentry : system.entry event = some entered) : ∃ ldts', Owning ldts' entered.2 := by
  cases event with
  | timer cpu polls =>
      cases hentry
      exact ⟨ldts, hok.switchFrom system.currentTask cpu⟩
  | call call cpu polls =>
      obtain ⟨result, hcall, hresult⟩ := Option.bind_eq_some_iff.mp hentry
      obtain ⟨-, -, -, hstep⟩ := call_made hcall
      obtain ⟨ldts', hafter⟩ := hok.call (hkeeps call cpu polls rfl) hstep
      split at hresult
      · cases hresult
      · cases hresult
        exact ⟨ldts', hafter.switchFrom system.currentTask cpu⟩
      · cases hresult
        exact ⟨ldts', hafter⟩

-- task_scheduler dispatches a task that is in the table, or the processor idles.
theorem scheduled {system after : System} {event : Event} {entered : Nat × Machine}
    (hok : Owning ldts entered.2) (hentry : system.entry event = some entered)
    (hstep : system.step event = some after) :
    Owning ldts after.machine ∧ (after.running = true → after.currentTask ≠ 0 ∧
      ∃ layout, after.layout = some layout) := by
  let start : Scan := { machine := entered.2 }
  have hstart : Owning ldts start.machine := hok
  have houtcome := hstart.schedulerLoop event.polls (2 * (KRNL_MAX_TASKS + 1)) entered.1
    system.idleCpu
  unfold System.step at hstep
  rw [hentry] at hstep
  dsimp only [taskScheduler] at hstep
  generalize schedulerLoop event.polls (2 * (KRNL_MAX_TASKS + 1)) entered.1 system.idleCpu start =
    outcome at hstep houtcome
  cases outcome with
  | dispatch pid m =>
      cases hstep
      exact ⟨houtcome.1, fun _ => houtcome.2⟩
  | idle m =>
      cases hstep
      exact ⟨houtcome, by simp⟩
  | panic | fault | spinning => cases hstep

-- resize_heap leaves its task in the table.
theorem resizeGrants_layout {call : Vdev.Call} (hstep : Vdev.step m call = some after)
    (hmade : (madeBy call).all (· = current) = true) (hgrants : resizeGrants m.kernel call = true) :
    ∃ layout, after.kernel.layout current = some layout := by
  obtain ⟨pid, heapSize, rfl⟩ : ∃ pid heapSize, call = .other (.resizeHeap pid heapSize) := by
    unfold resizeGrants at hgrants
    split at hgrants
    · exact ⟨_, _, rfl⟩
    · cases hgrants
  obtain rfl : pid = current := of_decide_eq_true hmade
  obtain ⟨next, haction, rfl⟩ := Option.map_eq_some_iff.mp (effect_of_step hstep)
  simp only [EchidnaOS.step, Option.ite_none_right_eq_some, Option.some.injEq] at haction
  obtain ⟨hactive, rfl⟩ := haction
  obtain ⟨address, task, hslot, -⟩ := isActive_slot hactive
  simp only [resizeGrants, hslot, decide_eq_true_eq] at hgrants
  simp only [resizeHeap, hslot, if_neg hgrants]
  exact ⟨_, layout_eq (setTask_same _ pid _ _)⟩

theorem Protected.of_running {system : System} {array : Nat → Nat → DtEntry} {gdt : Nat → DtEntry}
    {layout : Layout} (howning : Owning ldts system.machine) (hpid : system.currentTask ≠ 0)
    (hlayout : system.layout = some layout) (hgdt : gdt = reload (loadGdt tss tssSize) layout) :
    Protected tss tssSize ⟨system, array, gdt⟩ :=
  ⟨⟨ldts, howning⟩, ⟨layout, hgdt⟩, fun _ => ⟨hpid, layout, hlayout, hgdt⟩⟩

theorem reloadFor_eq {system : System} {gdt : Nat → DtEntry} {old layout : Layout}
    (htable : gdt = reload (loadGdt tss tssSize) old) (hlayout : system.layout = some layout) :
    reloadFor gdt system = reload (loadGdt tss tssSize) layout := by
  rw [reloadFor, hlayout, htable]
  exact reload_again _ old layout

-- An event that gets to task_scheduler.
theorem Protected.scheduled {event : Event} {after : System} {entered : Nat × Machine}
    (hok : Protected tss tssSize s) (hkeeps : KeepsProtection s (.event event))
    (hentry : s.system.entry event = some entered) (hstep : s.system.step event = some after) :
    Protected tss tssSize ⟨after, s.array, if after.running then reloadFor s.gdt after else s.gdt⟩ := by
  obtain ⟨ldts, howning⟩ := hok.owning
  obtain ⟨old, htable⟩ := hok.table
  have hblocks : ∀ call cpu polls, event = .call call cpu polls →
      Vdev.WritesInside s.system.machine call := by
    rintro call cpu polls rfl
    exact hkeeps.call call cpu polls rfl
  obtain ⟨ldts', hentered⟩ := howning.entry hblocks hentry
  obtain ⟨hscheduled, hrunning⟩ := Scheduler.scheduled hentered hentry hstep
  cases hruns : after.running with
  | true =>
      obtain ⟨hpid, layout, hlayout⟩ := hrunning hruns
      exact .of_running hscheduled hpid hlayout (reloadFor_eq htable hlayout)
  | false =>
      refine ⟨⟨ldts', hscheduled⟩, ⟨old, htable⟩, ?_⟩
      intro hrun
      rw [hruns] at hrun
      cases hrun

-- A call that returns to the task that made it.
theorem Protected.returned {call : Vdev.Call} {result : End × Machine}
    (hok : Protected tss tssSize s) (hkeeps : Vdev.WritesInside s.system.machine call)
    (hcall : s.system.call call = some result) (hreturns : result.1 = .returns) :
    Protected tss tssSize ⟨{ s.system with machine := result.2 }, s.array,
      if resizeGrants s.system.machine.kernel call then
        reloadFor s.gdt { s.system with machine := result.2 } else s.gdt⟩ := by
  obtain ⟨hmade, hruns, hend, hcalled⟩ := call_made hcall
  obtain ⟨ldts, howning⟩ := hok.owning
  obtain ⟨ldts', hnext⟩ := howning.call hkeeps hcalled
  obtain ⟨hpid, layout, hlayout, hgdt⟩ := hok.running hruns
  cases hgrants : resizeGrants s.system.machine.kernel call with
  | true =>
      obtain ⟨layout', hlayout'⟩ := resizeGrants_layout hcalled hmade hgrants
      have hmoved : System.layout { s.system with machine := result.2 } = some layout' := hlayout'
      exact .of_running hnext hpid hmoved (reloadFor_eq hgdt hmoved)
  | false =>
      have hstays := returned_layout hcalled hmade (hend.symm.trans hreturns) hgrants hlayout
      exact .of_running hnext hpid hstays hgdt

theorem Protected.event {event : Event} (hok : Protected tss tssSize s)
    (hkeeps : KeepsProtection s (.event event)) (hstep : s.event event = some t) :
    Protected tss tssSize t := by
  obtain ⟨after, hafter, rfl⟩ := Option.map_eq_some_iff.mp hstep
  unfold System.reloads
  cases hentry : s.system.entry event with
  | some entered => exact hok.scheduled hkeeps hentry hafter
  | none =>
      unfold System.step at hafter
      rw [hentry] at hafter
      cases event with
      | timer cpu polls => cases hafter
      | call call cpu polls =>
          obtain ⟨result, hcall, rfl⟩ := Option.map_eq_some_iff.mp hafter
          refine hok.returned (hkeeps.call call cpu polls rfl) hcall ?_
          simp only [System.entry, hcall, Option.bind_some] at hentry
          cases hresult : result.1 with
          | returns => rfl
          | switches | schedules =>
              rw [hresult] at hentry
              cases hentry

-- A request for a segment changes the array of the caller at most.
theorem Owning.newSegment (hok : Owning ldts m) (hpid : current ≠ 0)
    (hslot : m.kernel.taskTable current = .task address task)
    (hroom : task.ldtEntries < ENTRIES_PER_PAGE) (array : Nat → Nat → DtEntry)
    (base pageCount : UInt32) (code : Bool) :
    ∃ ldts', Owning ldts' { m with
      kernel := (syscallNewSegment ⟨m.kernel, array⟩ current base pageCount code).2.kernel } := by
  have hldt : task.ldt ≠ 0 → ldts task.ldt := hok.arrays current task.layout (layout_eq hslot)
  obtain ⟨ldts', hmore, hmemory, harray⟩ := MemoryOk.onePage hok.memory hldt (ldtSize_pages hroom)
  have htable : m.pointer ≠ 0 → ldts' m.pointer := fun hne => hmore _ (hok.table hne)
  unfold syscallNewSegment
  simp only [hslot]
  split
  · split
    · exact ⟨ldts', hok.more hmemory (layout_congr rfl) hmore htable _⟩
    · rename_i hne
      obtain ⟨owner, howned⟩ := hmemory.owned
      have hgrown : MemoryOk ldts' (Kernel.setTask { m.kernel with
          heap := (krealloc m.kernel.heap task.ldt (ldtSize task.ldtEntries)).2 } current address
          { task with
            ldt := (krealloc m.kernel.heap task.ldt (ldtSize task.ldtEntries)).1
            ldtEntries := task.ldtEntries + 1 }) :=
        hmemory.setTask hpid howned hslot fun htask => htask.congr rfl rfl rfl rfl rfl
      refine ⟨ldts', hgrown, ?_, htable⟩
      intro pid layout hlayout hzero
      dsimp only at hlayout
      rw [setTask_layout] at hlayout
      by_cases he : pid = current
      · subst he
        rw [Function.update_self] at hlayout
        cases hlayout
        exact harray hne
      · rw [Function.update_of_ne he] at hlayout
        exact hmore _ (hok.arrays pid layout hlayout hzero)
  · exact ⟨ldts, hok⟩

-- The base and the pages of the caller stay, and a refused request changes nothing of its layout.
theorem newSegment_layout (hslot : k.taskTable current = .task address task)
    (array : Nat → Nat → DtEntry) (base pageCount : UInt32) (code : Bool) :
    ∃ layout, (syscallNewSegment ⟨k, array⟩ current base pageCount code).2.kernel.layout current =
        some layout ∧ layout.base = task.base ∧ layout.pages = task.pages ∧
      (segmentGranted k current base pageCount = false → layout = task.layout) := by
  unfold syscallNewSegment segmentGranted
  simp only [hslot]
  split
  · split
    · exact ⟨task.layout, layout_eq hslot, rfl, rfl, fun _ => rfl⟩
    · rename_i hfits hne
      refine ⟨_, layout_eq (setTask_same _ current _ _), rfl, rfl, ?_⟩
      intro hrefused
      simp [hfits, hne] at hrefused
  · exact ⟨task.layout, layout_eq hslot, rfl, rfl, fun _ => rfl⟩

theorem Protected.newSegment {base pageCount : UInt32} {code : Bool}
    (hok : Protected tss tssSize s) (hkeeps : KeepsProtection s (.newSegment base pageCount code))
    (hstep : s.newSegment base pageCount code = some t) : Protected tss tssSize t := by
  unfold Segmented.newSegment at hstep
  split at hstep
  · rename_i hruns
    obtain ⟨after, hafter, rfl⟩ := Option.map_eq_some_iff.mp hstep
    simp only [Segment.step, Option.ite_none_right_eq_some, Option.some.injEq] at hafter
    obtain ⟨hactive, rfl⟩ := hafter
    obtain ⟨ldts, howning⟩ := hok.owning
    obtain ⟨hpid, layout, hlayout, hgdt⟩ := hok.running hruns
    obtain ⟨address, task, hslot, rfl⟩ := layout_some hlayout
    obtain ⟨ldts', hnext⟩ :=
      howning.newSegment hpid hslot (hkeeps _ hlayout) s.array base pageCount code
    obtain ⟨layout, hnew, hbase, hpages, hrefused⟩ :=
      newSegment_layout hslot s.array base pageCount code
    refine .of_running hnext hpid hnew ?_
    split
    · -- the user segments stay, and the descriptor of the LDT follows the array
      rw [loadLdtFor, System.layout]
      dsimp only [Segmented.state]
      rw [hnew, hgdt]
      show loadLdt (reload _ task.layout) layout.ldt layout.ldtEntries = _
      rw [loadLdt_reload]
      simp only [Task.layout, ← hbase, ← hpages]
    · rename_i hgranted
      rw [hgdt, hrefused (Bool.eq_false_iff.mpr hgranted)]
  · cases hstep

theorem Protected.step {input : Input} (hok : Protected tss tssSize s)
    (hkeeps : KeepsProtection s input) (hstep : s.step input = some t) : Protected tss tssSize t := by
  cases input with
  | event event => exact hok.event hkeeps hstep
  | newSegment base pageCount code => exact hok.newSegment hkeeps hstep

-- A selector of the table that ring 3 may load reaches the memory of the running task.
theorem Owning.reaches {selector : Nat} (howning : Owning ldts s.system.machine)
    (hpid : s.system.currentTask ≠ 0)
    (hslot : s.system.machine.kernel.taskTable s.system.currentTask = .task address task)
    (hgdt : s.gdt = reload (loadGdt tss tssSize) task.layout) (hpages : task.pages % 2 ^ 16 ≠ 0)
    (husers : (s.gdt selector).forUsers = true) (linear : Nat) :
    (s.gdt selector).Reaches linear ↔
      task.base ≤ linear ∧ linear < task.base + task.pages * PAGE_SIZE := by
  obtain ⟨owner, howned⟩ := howning.memory.owned
  have hend := (howned.block_lt hpid hslot).le
  rw [hgdt, reload_forUsers] at husers
  rw [hgdt]
  rcases loadGdt_forUsers husers with rfl | rfl
  · rw [reload_code]
    exact setSegment_reaches_iff _ (by simp [loadGdt, GDT_USER_CODE]) hpages hend
  · rw [reload_data]
    exact setSegment_reaches_iff _ (by simp [loadGdt, GDT_USER_DATA]) hpages hend

end EchidnaOS.Scheduler
