import EchidnaOS.Lib.Progress
import EchidnaOS.Scheduler.Theorems

namespace EchidnaOS.Scheduler

open EchidnaOS.Lib.Run EchidnaOS.Lib.Progress EchidnaOS.Lib.Scan EchidnaOS.Vdev
open EchidnaOS.Ipc (enqueue enterIpcwaitStatus ipcSendPacket ipcReadPacket)

variable {k middle next : Kernel} {m after : Machine} {used bound pid actor current : Nat}
  {polls : Nat → Poll} {s t : Scan}

-- A timer interrupt and a call that gets to task_switch go on with the task behind the
-- current one.
def System.yields (s : System) (event : Event) : Bool :=
  (s.entry event).any fun entered => entered.1 = s.currentTask + 1

-- How many entries the scheduler has to advance from the current task to `pid`.
def ahead (bound current pid : Nat) : Nat :=
  if current < pid then pid - current else bound - current + pid

def Runs (pid : Nat) (s : System) : Prop := s.running = true ∧ s.currentTask = pid

def Free (entry : Nat) (s : System) : Prop := s.machine.kernel.taskTable entry = .null

-- The tasks that are ACTIVE stay so, except for `actor`.
def OthersActive (actor : Nat) (k next : Kernel) : Prop :=
  ∀ pid, pid ≠ actor → k.isActive pid = true → next.isActive pid = true

theorem isActive_congr (htable : next.taskTable = k.taskTable) : next.isActive pid = k.isActive pid := by
  rw [Kernel.isActive, Kernel.isActive, htable]

theorem OthersActive.of_eq (htable : next.taskTable = k.taskTable) : OthersActive actor k next := by
  intro pid _ hactive
  rw [isActive_congr htable]
  exact hactive

theorem OthersActive.called (hcalled : CalledBy actor k next) : OthersActive actor k next := by
  intro pid hne hactive
  obtain ⟨address, task, hslot, hstatus⟩ := isActive_slot hactive
  rw [Kernel.isActive, hcalled.others pid address task hne hslot, Slot.status, hstatus]
  simp

theorem OthersActive.only (honly : OnlyTask actor k next) : OthersActive actor k next := by
  intro pid hne hactive
  rw [Kernel.isActive, honly.others pid hne]
  exact hactive

theorem isActive_setTask {address : Nat} {task : Task} (hslot : k.taskTable current = .task address task)
    {task' : Task} (hstatus : task.status = .active → task'.status = .active) {address' : Nat}
    (hactive : k.isActive pid = true) : (k.setTask current address' task').isActive pid = true := by
  by_cases he : pid = current
  · subst he
    simp only [Kernel.isActive, hslot, Slot.status, Option.some.injEq, decide_eq_true_eq] at hactive
    simp [Kernel.isActive, Slot.status, hstatus hactive]
  · rw [Kernel.isActive, setTask_other he]
    exact hactive

theorem enqueue_active {task : Task} (packet : IpcPacket) (hstatus : task.status = .active) :
    (enqueue task packet).status = .active := by
  simp [enqueue, hstatus]

-- The parent that a task wakes when it quits waited for it.
theorem taskQuit_others {value : Int} (hquit : taskQuit k actor value = some next) :
    OthersActive actor k next := by
  obtain ⟨address, task, parentAddress, parent, hslot, hparent, htable⟩ := taskQuit_table hquit
  intro pid hne hactive
  have hwoken : (wakeParent k task.parent parentAddress parent value).isActive pid = true := by
    unfold wakeParent
    split
    · exact isActive_setTask hparent (fun _ => rfl) hactive
    · exact hactive
  rw [Kernel.isActive, htable, Function.update_of_ne hne]
  exact hwoken

theorem drained_active {caller : Task} (hdrained : Drained caller k next)
    (hactive : k.isActive pid = true) : next.isActive pid = true := by
  obtain ⟨address, task, hslot, hstatus⟩ := isActive_slot hactive
  obtain ⟨queue, count, hnext, -⟩ := hdrained.kept pid address task hslot
  simp [Kernel.isActive, hnext, Slot.status, hstatus]

theorem action_others {action : EchidnaOS.Action} (hmade : (Scheduler.actor action).all (· = actor) = true)
    (hstep : EchidnaOS.step k action = some next) : OthersActive actor k next := by
  cases action with
  | kernel reqs =>
      simp only [EchidnaOS.step, Option.some.injEq] at hstep
      subst hstep
      exact .of_eq (requests_taskTable k reqs)
  | quit pid value =>
      obtain rfl : pid = actor := of_decide_eq_true hmade
      simp only [EchidnaOS.step, Option.ite_none_right_eq_some] at hstep
      exact taskQuit_others hstep.2
  | execute pid info file vfs =>
      obtain rfl : pid = actor := of_decide_eq_true hmade
      simp only [EchidnaOS.step, Option.ite_none_right_eq_some, Option.some.injEq] at hstep
      obtain ⟨-, rfl⟩ := hstep
      exact .called (generalExecute_spawned k pid info file vfs).called
  | executeBlock pid cpu info file vfs =>
      obtain rfl : pid = actor := of_decide_eq_true hmade
      simp only [EchidnaOS.step, Option.ite_none_right_eq_some, Option.some.injEq] at hstep
      obtain ⟨-, rfl⟩ := hstep
      exact .called (generalExecuteBlock_called k pid cpu info file vfs)
  | fork pid cpu forks =>
      obtain rfl : pid = actor := of_decide_eq_true hmade
      simp only [EchidnaOS.step, Option.ite_none_right_eq_some, Option.some.injEq] at hstep
      obtain ⟨-, rfl⟩ := hstep
      exact .called (taskFork_called k pid cpu forks)
  | resizeHeap pid heapSize =>
      obtain rfl : pid = actor := of_decide_eq_true hmade
      simp only [EchidnaOS.step, Option.ite_none_right_eq_some, Option.some.injEq] at hstep
      obtain ⟨-, rfl⟩ := hstep
      exact .only (resizeHeap_only k pid heapSize)
  | execve pid argv envp file load =>
      obtain rfl : pid = actor := of_decide_eq_true hmade
      simp only [EchidnaOS.step, Option.ite_none_right_eq_some, Option.some.injEq] at hstep
      obtain ⟨-, rfl⟩ := hstep
      exact .only (execve_only k pid argv envp file load)
  | switch pid cpu =>
      obtain rfl : pid = actor := of_decide_eq_true hmade
      simp only [EchidnaOS.step, Option.ite_none_right_eq_some, Option.some.injEq] at hstep
      obtain ⟨-, rfl⟩ := hstep
      exact .only (taskSwitch_only k pid cpu)

theorem setStatus_others (m : Machine) (actor : Nat) (change : Task → Task) :
    OthersActive actor m.kernel (m.setStatus actor change).kernel := by
  intro pid hne hactive
  unfold Machine.setStatus
  split
  · rw [Kernel.isActive, setTask_other hne]
    exact hactive
  · exact hactive

theorem enterIpcwaitStatus_others (k : Kernel) (actor : Nat) :
    OthersActive actor k (enterIpcwaitStatus k actor) := by
  intro pid hne hactive
  unfold enterIpcwaitStatus
  split
  · split
    · rw [Kernel.isActive, setTask_other hne]
      exact hactive
    · exact hactive
  · exact hactive

theorem ipcSendPacket_others {payload len : UInt32} {result : Option IpcPacket × Kernel}
    (hsend : ipcSendPacket k actor pid payload len = some result) : OthersActive actor k result.2 := by
  have hquits : ∀ {result : Option IpcPacket × Kernel},
      (taskQuit k actor (-1)).map (none, ·) = some result → OthersActive actor k result.2 := by
    intro result hmap
    obtain ⟨quit, hquit, rfl⟩ := Option.map_eq_some_iff.mp hmap
    exact taskQuit_others hquit
  unfold ipcSendPacket at hsend
  split at hsend
  · split at hsend
    · split at hsend
      · rename_i address task hslot
        cases hsend
        exact fun other _ => isActive_setTask hslot (enqueue_active _)
      · exact hquits hsend
    · exact hquits hsend
  · cases hsend

theorem ipcReadPacket_others {payload : UInt32} {result : Option IpcPacket × Kernel}
    (hactive : k.isActive actor = true) (hread : ipcReadPacket k actor payload = some result) :
    OthersActive actor k result.2 := by
  obtain ⟨address, caller, hslot, -⟩ := isActive_slot hactive
  rcases ipcReadPacket_drained hslot hread with ⟨-, hquit⟩ | hdrained
  · exact taskQuit_others hquit
  · exact fun other _ => drained_active hdrained

-- Only the caller of a system call can stop being ACTIVE by it.
theorem call_others {call : Vdev.Call} (hmade : (madeBy call).all (· = actor) = true)
    (hstep : Vdev.step m call = some after) : OthersActive actor m.kernel after.kernel := by
  cases call with
  | other action =>
      obtain ⟨next, hnext, rfl⟩ := Option.map_eq_some_iff.mp (effect_of_step hstep)
      exact action_others hmade hnext
  | send caller pid payload len =>
      obtain rfl : caller = actor := of_decide_eq_true hmade
      obtain ⟨result, hsend, rfl⟩ := Option.map_eq_some_iff.mp (effect_of_step hstep)
      exact ipcSendPacket_others hsend
  | read caller payload =>
      obtain rfl : caller = actor := of_decide_eq_true hmade
      obtain ⟨result, hread, rfl⟩ := Option.map_eq_some_iff.mp (effect_of_step hstep)
      exact ipcReadPacket_others (step_active hstep rfl) hread
  | ipcwait caller =>
      obtain rfl : caller = actor := of_decide_eq_true hmade
      cases effect_of_step hstep
      exact enterIpcwaitStatus_others m.kernel caller
  | iowait caller dev loc payload type =>
      obtain rfl : caller = actor := of_decide_eq_true hmade
      cases effect_of_step hstep
      exact setStatus_others m caller _
  | iowait1 caller handle ptr len type done =>
      obtain rfl : caller = actor := of_decide_eq_true hmade
      cases effect_of_step hstep
      exact setStatus_others m caller _
  | vdevwait caller =>
      obtain rfl : caller = actor := of_decide_eq_true hmade
      cases effect_of_step hstep
      exact setStatus_others m caller _
  | register caller payloadInAddr payloadInFlag payloadOutAddr payloadOutFlag =>
      cases effect_of_step hstep
      exact .of_eq (registerVdev_kernel m caller _ _ _ _)
  | inReady caller vdev =>
      obtain ⟨result, hready, rfl⟩ := Option.map_eq_some_iff.mp (effect_of_step hstep)
      obtain ⟨entry, -, rfl⟩ := Option.map_eq_some_iff.mp hready
      apply OthersActive.of_eq
      split
      · rfl
      · rfl
  | outReady caller vdev =>
      obtain ⟨result, hready, rfl⟩ := Option.map_eq_some_iff.mp (effect_of_step hstep)
      obtain ⟨entry, -, rfl⟩ := Option.map_eq_some_iff.mp hready
      apply OthersActive.of_eq
      split
      · rfl
      · rfl
  | io vdev transfer =>
      obtain ⟨result, hio, rfl⟩ := Option.map_eq_some_iff.mp (effect_of_step hstep)
      exact fun pid _ hactive => (vdevIoWrapper_polled hio).active pid hactive

theorem System.call_others {s : System} {call : Vdev.Call} {result : End × Machine}
    (hcall : s.call call = some result) :
    OthersActive s.currentTask s.machine.kernel result.2.kernel := by
  unfold System.call at hcall
  split at hcall
  · rename_i hmade
    rw [Bool.and_eq_true, Bool.and_eq_true] at hmade
    obtain ⟨after, hstep, rfl⟩ := Option.map_eq_some_iff.mp hcall
    exact Scheduler.call_others hmade.1.2 hstep
  · cases hcall

theorem switchFrom_others (m : Machine) (current : Nat) (cpu : GprState) :
    OthersActive current m.kernel (switchFrom m current cpu).kernel :=
  .only (taskSwitch_only m.kernel current cpu)

-- The scheduler goes on from the current task or from the one behind it, and the table has
-- at most grown.
structure Entered (s : System) (used current : Nat) (m : Machine) : Prop where
  laid : ∃ more, used ≤ more ∧ Laid m.kernel more ∧ current ≤ more
  place : current = s.currentTask ∨ current = s.currentTask + 1
  idle : s.idleCpu = true → current ≤ 1
  others : OthersActive s.currentTask s.machine.kernel m.kernel

theorem SystemOk.entered {s : System} {event : Event} (hok : SystemOk s used)
    (hentry : s.entry event = some (current, m)) : Entered s used current m := by
  have hcurrent := hok.current
  have hidle : s.idleCpu = true → s.currentTask + 1 ≤ 1 := by
    intro hset
    rw [hok.idle hset]
  cases event with
  | timer cpu polls =>
      cases hentry
      exact ⟨⟨used, le_rfl, switchFrom_laid hok.laid cpu, hcurrent⟩, Or.inr rfl, hidle,
        switchFrom_others s.machine s.currentTask cpu⟩
  | call call cpu polls =>
      obtain ⟨⟨ending, after⟩, hcall, hresult⟩ := Option.bind_eq_some_iff.mp hentry
      obtain ⟨more, hmore, hlaid⟩ := System.call_laid hok hcall
      have hothers := System.call_others hcall
      cases ending with
      | returns => cases hresult
      | switches =>
          cases hresult
          refine ⟨⟨more, hmore, switchFrom_laid hlaid cpu, by omega⟩, Or.inr rfl, hidle, ?_⟩
          exact fun pid hne hactive => switchFrom_others _ _ _ pid hne (hothers pid hne hactive)
      | schedules =>
          cases hresult
          refine ⟨⟨more, hmore, hlaid, by omega⟩, Or.inl rfl, ?_, hothers⟩
          intro hset
          have hone := hidle hset
          omega

-- What a step does: the scheduler dispatches a task or idles, or a call returns.
inductive Stepped (s : System) (event : Event) : System → Prop where
  | dispatched {current first : Nat} {m after : Machine} (entry : s.entry event = some (current, m))
      (outcome : taskScheduler event.polls current s.idleCpu m = .dispatch first after) :
      Stepped s event { machine := after, currentTask := first, idleCpu := false, running := true }
  | idled {current : Nat} {m after : Machine} (entry : s.entry event = some (current, m))
      (outcome : taskScheduler event.polls current s.idleCpu m = .idle after) :
      Stepped s event { machine := after }
  | returned {call : Vdev.Call} {ending : End} {after : Machine} (entry : s.entry event = none)
      (called : s.call call = some (ending, after)) : Stepped s event { s with machine := after }

theorem System.stepped {s next : System} {event : Event} (hstep : s.step event = some next) :
    Stepped s event next := by
  unfold System.step at hstep
  split at hstep
  · rename_i current m hentry
    split at hstep
    · rename_i houtcome
      cases hstep
      exact .dispatched hentry houtcome
    · rename_i houtcome
      cases hstep
      exact .idled hentry houtcome
    · cases hstep
    · cases hstep
    · cases hstep
  · rename_i hentry
    cases event with
    | timer cpu polls => cases hstep
    | call call cpu polls =>
        obtain ⟨result, hcall, rfl⟩ := Option.map_eq_some_iff.mp hstep
        exact .returned hentry hcall

-- The table only grows.
theorem SystemOk.grows {s next : System} {event : Event} (hok : SystemOk s used)
    (hstep : s.step event = some next) : ∃ more, used ≤ more ∧ SystemOk next more := by
  cases System.stepped hstep with
  | @dispatched current first m after hentry houtcome =>
      obtain ⟨more, hmore, hlaid, -⟩ := (hok.entered hentry).laid
      let start : Scan := { machine := m }
      have hstart : Laid start.machine.kernel more := hlaid
      have hafter := schedulerLoop_ok event.polls hstart (2 * (KRNL_MAX_TASKS + 1)) current s.idleCpu
      rw [← taskScheduler, houtcome] at hafter
      exact ⟨more, hmore, hafter.1, hafter.2, by simp⟩
  | @idled current m after hentry houtcome =>
      obtain ⟨more, hmore, hlaid, -⟩ := (hok.entered hentry).laid
      let start : Scan := { machine := m }
      have hstart : Laid start.machine.kernel more := hlaid
      have hafter := schedulerLoop_ok event.polls hstart (2 * (KRNL_MAX_TASKS + 1)) current s.idleCpu
      rw [← taskScheduler, houtcome] at hafter
      exact ⟨more, hmore, hafter, hafter.used_pos, fun _ => rfl⟩
  | returned hentry hcall =>
      obtain ⟨more, hmore, hlaid⟩ := System.call_laid hok hcall
      exact ⟨more, hmore, hlaid, hok.current.trans_le hmore, hok.idle⟩

theorem completeIo_status (result : Int) (task : Task) : (completeIo result task).status = .active := by
  unfold completeIo
  split
  · rfl
  · rfl

def OutcomeActive (pid : Nat) : Outcome → Prop
  | .dispatch _ after => after.kernel.isActive pid = true
  | .idle after => after.kernel.isActive pid = true
  | _ => True

theorem visit_take_active {outcome : Outcome} (hactive : s.machine.kernel.isActive pid = true)
    (htake : visit polls current s = .take outcome) : OutcomeActive pid outcome := by
  unfold visit at htake
  split at htake
  · split at htake
    · unfold pollTask at htake
      split at htake
      · cases htake
        exact trivial
      split at htake
      · cases htake
        exact trivial
      · rename_i m hdrivers
        dsimp only at htake
        split at htake
        · cases htake
          have hpolled := (pollDrivers_polled hdrivers).active pid hactive
          rw [OutcomeActive]
          unfold Machine.setStatus
          split
          · rename_i address task hslot
            exact isActive_setTask hslot (fun _ => completeIo_status _ _) hpolled
          · exact hpolled
        · cases htake
    · cases htake
      exact hactive
    all_goals cases htake
  · cases htake

theorem schedulerLoop_active (polls : Nat → Poll) (hactive : s.machine.kernel.isActive pid = true)
    (fuel current : Nat) (idleCpu : Bool) :
    OutcomeActive pid (schedulerLoop polls fuel current idleCpu s) := by
  induction fuel generalizing current idleCpu s with
  | zero => exact trivial
  | succ fuel ih =>
      by_cases hnull : s.machine.kernel.taskTable current = .null
      · rw [schedulerLoop_null hnull]
        split
        · exact hactive
        · exact ih hactive 0 true
      · rw [schedulerLoop_used hnull]
        cases hvisit : visit polls current s with
        | take outcome => exact visit_take_active hactive hvisit
        | pass t => exact ih ((visit_pass hvisit).2.active pid hactive) (current + 1) idleCpu

-- `first` comes before `pid` on the way round from `current`.
def Between (current first pid : Nat) : Prop :=
  (current ≤ first ∧ first < pid) ∨ (pid < current ∧ (current ≤ first ∨ first < pid))

theorem cyclicOrder_pairwise (used current : Nat) :
    (cyclicOrder used current).Pairwise (Between current) := by
  rw [cyclicOrder, List.pairwise_append]
  refine ⟨?_, ?_, ?_⟩
  · refine List.Pairwise.imp_of_mem ?_ List.pairwise_lt_range'
    intro first pid hfirst _ hlt
    exact Or.inl ⟨(List.mem_range'_1.mp hfirst).1, hlt⟩
  · refine List.Pairwise.imp_of_mem ?_ List.pairwise_lt_range
    intro first pid _ hpid hlt
    exact Or.inr ⟨List.mem_range.mp hpid, Or.inr hlt⟩
  · intro first hfirst pid hpid
    exact Or.inr ⟨List.mem_range.mp hpid, Or.inl (List.mem_range'_1.mp hfirst).1⟩

-- A task that the scan takes before an ACTIVE one stands before it.
theorem FirstReady.between {first : Nat} (hfirst : FirstReady polls (cyclicOrder used current) s first)
    (hactive : s.machine.kernel.isActive pid = true) (hpid : pid < used) (hne : first ≠ pid) :
    Between current first pid := by
  obtain ⟨before, rest, t, horder, hskips, -⟩ := hfirst
  have hsorted := cyclicOrder_pairwise used current
  have hmem : pid ∈ cyclicOrder used current := by
    rw [cyclicOrder, List.mem_append, List.mem_range'_1, List.mem_range]
    omega
  rw [horder, List.mem_append, List.mem_cons] at hmem
  rw [horder, List.pairwise_append, List.pairwise_cons] at hsorted
  have hrest : pid ∈ rest := by
    rcases hmem with hbefore | he | hrest
    · exact absurd hbefore (hskips.not_active hactive)
    · exact absurd he.symm hne
    · exact hrest
  exact hsorted.2.1.1 pid hrest

-- The task waits, ACTIVE, while another one is current.
structure Waits (pid : Nat) (s : System) : Prop where
  ok : ∃ used, SystemOk s used
  active : s.machine.kernel.isActive pid = true
  other : s.currentTask ≠ pid

theorem Laid.pos_of_active (hlaid : Laid k used) (hactive : k.isActive pid = true) : 0 < pid := by
  by_contra hzero
  obtain rfl : pid = 0 := by omega
  exact ne_res_of_isActive hactive hlaid.resident

theorem Laid.lt_of_active (hlaid : Laid k used) (hactive : k.isActive pid = true) : pid < used := by
  obtain ⟨address, task, hslot, -⟩ := isActive_slot hactive
  exact hlaid.lt_of_task hslot

theorem ahead_dispatched (bound : Nat) {first start : Nat} (hbetween : Between current first pid)
    (hplace : current = start ∨ current = start + 1) (hcurrent : current ≤ bound) (hother : start ≠ pid) :
    ahead bound first pid + (decide (current = start + 1)).toNat ≤ ahead bound start pid := by
  unfold Between at hbetween
  unfold ahead
  rcases hplace with rfl | rfl
  · rw [decide_eq_false (by omega), Bool.toNat_false]
    split
    · split
      · omega
      · omega
    · split
      · omega
      · omega
  · rw [decide_eq_true rfl, Bool.toNat_true]
    split
    · split
      · omega
      · omega
    · split
      · omega
      · omega

theorem ahead_pos (bound current : Nat) (hpid : 0 < pid) : 0 < ahead bound current pid := by
  unfold ahead
  split
  · omega
  · omega

-- A step dispatches the task, or leaves it ACTIVE and not farther ahead, and nearer where
-- the CPU is given up.
theorem Waits.step {s next : System} {event : Event} (hwaits : Waits pid s)
    (hbound : bound < KRNL_MAX_TASKS) (hnull : Free bound next) (hstep : s.step event = some next) :
    Runs pid next ∨ Waits pid next ∧
      ahead bound next.currentTask pid - 1 + (s.yields event).toNat ≤
        ahead bound s.currentTask pid - 1 := by
  obtain ⟨used, hok⟩ := hwaits.ok
  obtain ⟨more, hmore, hnext⟩ := hok.grows hstep
  have hinside := (hnext.laid.null_iff bound).mp hnull
  cases System.stepped hstep with
  | @dispatched current first m after hentry houtcome =>
      obtain ⟨⟨size, -, hlaid, hcurrent⟩, hplace, hidle, hothers⟩ := hok.entered hentry
      have hactive := hothers pid hwaits.other.symm hwaits.active
      let start : Scan := { machine := m }
      have hstart : start.machine.kernel.isActive pid = true := hactive
      have hlaid' : Laid start.machine.kernel size := hlaid
      -- the dispatch leaves the table as long as it was
      have hafter := schedulerLoop_ok event.polls hlaid' (2 * (KRNL_MAX_TASKS + 1)) current s.idleCpu
      have hkeeps := schedulerLoop_active event.polls hstart (2 * (KRNL_MAX_TASKS + 1)) current s.idleCpu
      rw [← taskScheduler, houtcome] at hafter hkeeps
      have hsize : size ≤ bound := (hafter.1.null_iff bound).mp hnull
      by_cases he : first = pid
      · exact Or.inl ⟨rfl, he⟩
      · have hpid := hlaid.lt_of_active hactive
        have hyields : s.yields event = decide (current = s.currentTask + 1) := by
          rw [System.yields, hentry, Option.any_some]
        have hspec : (taskScheduler event.polls current s.idleCpu m = .fault ∧ _) ∨ _ :=
          taskScheduler_spec hlaid (by omega) hcurrent hidle hactive
        rcases hspec with ⟨hfault, -⟩ | ⟨first', after', hdispatch, hready⟩
        · rw [houtcome] at hfault
          cases hfault
        · rw [houtcome] at hdispatch
          cases hdispatch
          have hbetween := hready.between hstart hpid he
          have hahead := ahead_dispatched bound hbetween hplace (by omega) hwaits.other
          have hpos := ahead_pos bound first (hlaid.pos_of_active hactive)
          refine Or.inr ⟨⟨⟨more, hnext⟩, hkeeps, he⟩, ?_⟩
          rw [hyields]
          dsimp only
          omega
  | @idled current m after hentry houtcome =>
      -- the scheduler does not idle while a task is ACTIVE
      obtain ⟨⟨size, -, hlaid, hcurrent⟩, -, hidle, hothers⟩ := hok.entered hentry
      have hactive := hothers pid hwaits.other.symm hwaits.active
      let start : Scan := { machine := m }
      have hlaid' : Laid start.machine.kernel size := hlaid
      have hafter := schedulerLoop_ok event.polls hlaid' (2 * (KRNL_MAX_TASKS + 1)) current s.idleCpu
      rw [← taskScheduler, houtcome] at hafter
      have hsize : size ≤ bound := (hafter.null_iff bound).mp hnull
      have hspec : (taskScheduler event.polls current s.idleCpu m = .fault ∧ _) ∨ _ :=
        taskScheduler_spec hlaid (by omega) hcurrent hidle hactive
      rcases hspec with ⟨hfault, -⟩ | ⟨first, after', hdispatch, -⟩
      · rw [houtcome] at hfault
        cases hfault
      · rw [houtcome] at hdispatch
        cases hdispatch
  | returned hentry hcall =>
      have hactive := System.call_others hcall pid hwaits.other.symm hwaits.active
      refine Or.inr ⟨⟨⟨more, hnext⟩, hactive, hwaits.other⟩, ?_⟩
      rw [System.yields, hentry]
      exact le_rfl

end EchidnaOS.Scheduler
