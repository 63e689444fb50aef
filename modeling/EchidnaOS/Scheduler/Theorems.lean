import EchidnaOS.Scheduler.Layout
import EchidnaOS.Vdev.Pids

namespace EchidnaOS.Scheduler

open EchidnaOS.Lib EchidnaOS.Lib.ByteStore EchidnaOS.Lib.Run EchidnaOS.Lib.Scan EchidnaOS.Vdev

variable {k next : Kernel} {m after : Machine} {used pid address : Nat} {task : Task}
  {polls : Nat → Poll} {s t : Scan}

-- The entries up to the first NULL one are in use, the kernel task is resident, and the
-- waits for I/O are of the four types.
structure Laid (k : Kernel) (used : Nat) : Prop where
  null_iff : ∀ pid, k.taskTable pid = .null ↔ used ≤ pid
  resident : (k.taskTable 0).status = some .res
  types : ∀ pid address task, k.taskTable pid = .task address task → task.status = .iowait →
    task.iowaitType ≤ 3

-- A vdev that is ready for the transfer has a manager that has not left.
def Attended (m : Machine) (access : Nat × Transfer) : Prop :=
  ∀ entry, m.vdevs[access.1]? = some entry → access.2.status entry = .ready → Live m.kernel entry.pid

-- All that the polls get to are of that kind.
def PollsAttended (m : Machine) (polls : Nat → Poll) : Prop :=
  ∀ count, ∀ access ∈ (polls count).accesses, Attended m access

-- A task that the scan reaches is ACTIVE, or its poll completes.
def Ready (polls : Nat → Poll) (s : Scan) (pid : Nat) : Prop :=
  ∃ address task, s.machine.kernel.taskTable pid = .task address task ∧
    (task.status = .active ∨
      task.status = .iowait ∧ (polls s.polled).completes task.iowaitType = true)

-- The scan passes tasks that are not ready when it reaches them.
def Skips (polls : Nat → Poll) : List Nat → Scan → Scan → Prop
  | [], s, t => s = t
  | pid :: rest, s, t =>
      ¬Ready polls s pid ∧ ∃ next, visit polls pid s = .pass next ∧ Skips polls rest next t

-- The first task of an order that is ready when the scan reaches it.
def FirstReady (polls : Nat → Poll) (order : List Nat) (s : Scan) (pid : Nat) : Prop :=
  ∃ before rest t, order = before ++ pid :: rest ∧ Skips polls before s t ∧ Ready polls t pid

-- The entries from `current_task` on, and round to it.
def cyclicOrder (used currentTask : Nat) : List Nat :=
  List.range' currentTask (used - currentTask) ++ List.range currentTask

theorem Laid.used_pos (hlaid : Laid k used) : 0 < used := by
  by_contra hzero
  have hnull := (hlaid.null_iff 0).mpr (by omega)
  have hresident := hlaid.resident
  rw [hnull] at hresident
  cases hresident

theorem Laid.lt_of_task (hlaid : Laid k used) (hslot : k.taskTable pid = .task address task) :
    pid < used := by
  by_contra hge
  have hnull := (hlaid.null_iff pid).mpr (by omega)
  rw [hslot] at hnull
  cases hnull

theorem EntryStep.iowait {slot slot' : Slot} (hstep : EntryStep slot slot')
    (hslot : slot' = .task address task) (hwaits : task.status = .iowait) :
    ∃ address' old, slot = .task address' old ∧ old.status = .iowait ∧
      old.iowaitType = task.iowaitType := by
  cases hstep with
  | same => exact ⟨address, task, hslot, hwaits, rfl⟩
  | quit => cases hslot
  | @change address' _ old _ hkeeps =>
      cases hslot
      rcases hkeeps with ⟨hstatus, htype⟩ | ⟨-, -, hne⟩
      · exact ⟨address', old, rfl, hstatus.symm.trans hwaits, htype.symm⟩
      · exact absurd hwaits hne

theorem Laid.kept (hlaid : Laid k used) (hkept : Kept k next) : Laid next used := by
  constructor
  · intro pid
    rw [(hkept pid).null_iff]
    exact hlaid.null_iff pid
  · rw [(hkept 0).res_iff]
    exact hlaid.resident
  · intro pid address task hslot hwaits
    obtain ⟨address', old, hold, hstatus, htype⟩ := (hkept pid).iowait hslot hwaits
    rw [← htype]
    exact hlaid.types pid address' old hold hstatus

-- A new entry stands before the first NULL one, or is it.
theorem Laid.grown {child : Nat} (hlaid : Laid k used) (hgrown : Grown child k next) :
    Laid next (max used (child + 1)) := by
  have hbefore : child ≤ used := by
    by_contra hlt
    exact hgrown.before used (by omega) ((hlaid.null_iff used).mpr le_rfl)
  constructor
  · intro pid
    by_cases he : pid = child
    · subst he
      exact iff_of_false hgrown.taken (by omega)
    · rw [(hgrown.others pid he).null_iff, hlaid.null_iff]
      omega
  · have hne : 0 ≠ child := by
      rintro rfl
      exact hgrown.notKernel hlaid.resident
    rw [(hgrown.others 0 hne).res_iff]
    exact hlaid.resident
  · intro pid address task hslot hwaits
    by_cases he : pid = child
    · subst he
      have hstatus : (next.taskTable pid).status = some .iowait := by
        rw [hslot, Slot.status, hwaits]
      exact absurd hstatus hgrown.notIowait
    · obtain ⟨address', old, hold, hstatus, htype⟩ := (hgrown.others pid he).iowait hslot hwaits
      rw [← htype]
      exact hlaid.types pid address' old hold hstatus

theorem Laid.step (hlaid : Laid k used) (hstep : TableStep k next) :
    ∃ more, used ≤ more ∧ Laid next more := by
  rcases hstep with hkept | ⟨child, hgrown⟩
  · exact ⟨used, le_rfl, hlaid.kept hkept⟩
  · exact ⟨_, le_max_left _ _, hlaid.grown hgrown⟩

-- The task that comes to wait for I/O was ACTIVE.
theorem Laid.waits (hlaid : Laid m.kernel used) (hactive : m.kernel.isActive pid = true)
    {change : Task → Task} (htype : ∀ task, (change task).iowaitType ≤ 3) :
    Laid (m.setStatus pid change).kernel used := by
  obtain ⟨address, task, hslot, hstatus⟩ := isActive_slot hactive
  have hset : (m.setStatus pid change).kernel = m.kernel.setTask pid address (change task) := by
    rw [Machine.setStatus, hslot]
  rw [hset]
  constructor
  · intro other
    by_cases he : other = pid
    · subst he
      rw [setTask_same]
      exact iff_of_false nofun (by have := hlaid.lt_of_task hslot; omega)
    · rw [setTask_other he]
      exact hlaid.null_iff other
  · have hne : 0 ≠ pid := by
      rintro rfl
      exact ne_res_of_isActive hactive hlaid.resident
    rw [setTask_other hne]
    exact hlaid.resident
  · intro other address' task' hslot' hwaits
    by_cases he : other = pid
    · subst he
      rw [setTask_same] at hslot'
      cases hslot'
      exact htype task
    · rw [setTask_other he] at hslot'
      exact hlaid.types other address' task' hslot' hwaits

-- What a call leaves of the table.
theorem Laid.call {call : Call} (hlaid : Laid m.kernel used) (hstub : fromStub call = true)
    (hstep : Vdev.step m call = some after) : ∃ more, used ≤ more ∧ Laid after.kernel more := by
  have heffect := effect_of_step hstep
  have hkept : Kept m.kernel after.kernel → ∃ more, used ≤ more ∧ Laid after.kernel more :=
    fun hkept => hlaid.step (Or.inl hkept)
  cases call with
  | other action =>
      obtain ⟨k, haction, rfl⟩ := Option.map_eq_some_iff.mp heffect
      exact hlaid.step (action_step haction)
  | send current pid payload len =>
      obtain ⟨result, hsend, rfl⟩ := Option.map_eq_some_iff.mp heffect
      exact hkept (ipcSendPacket_kept (step_active hstep rfl) hsend)
  | read current payload =>
      obtain ⟨result, hread, rfl⟩ := Option.map_eq_some_iff.mp heffect
      exact hkept (ipcReadPacket_kept (step_active hstep rfl) hread)
  | ipcwait current =>
      cases heffect
      exact hkept (enterIpcwaitStatus_kept (step_active hstep rfl))
  | iowait current dev loc payload type =>
      cases heffect
      have htype : type ≤ 1 := of_decide_eq_true hstub
      exact ⟨used, le_rfl, hlaid.waits (step_active hstep rfl) fun _ => htype.trans (by decide)⟩
  | iowait1 current handle ptr len type done =>
      cases heffect
      have htype : 2 ≤ type ∧ type ≤ 3 := of_decide_eq_true hstub
      exact ⟨used, le_rfl, hlaid.waits (step_active hstep rfl) fun _ => htype.2⟩
  | vdevwait current =>
      cases heffect
      have hactive := step_active hstep rfl
      refine hkept (setStatus_kept m current fun address task hslot => Or.inr ⟨?_, nofun, nofun⟩)
      exact slot_ne_res hslot (ne_res_of_isActive hactive)
  | register current payloadInAddr payloadInFlag payloadOutAddr payloadOutFlag =>
      cases heffect
      exact hkept (.of_eq (registerVdev_kernel m current _ _ _ _))
  | inReady current vdev =>
      obtain ⟨result, hready, rfl⟩ := Option.map_eq_some_iff.mp heffect
      obtain ⟨entry, -, rfl⟩ := Option.map_eq_some_iff.mp hready
      apply hkept
      split
      · exact .refl _
      · exact .refl _
  | outReady current vdev =>
      obtain ⟨result, hready, rfl⟩ := Option.map_eq_some_iff.mp heffect
      obtain ⟨entry, -, rfl⟩ := Option.map_eq_some_iff.mp hready
      apply hkept
      split
      · exact .refl _
      · exact .refl _
  | io vdev transfer =>
      obtain ⟨result, hio, rfl⟩ := Option.map_eq_some_iff.mp heffect
      exact hkept (vdevIoWrapper_kept hio)

theorem wakeManager_active {other vdev : Nat} (hslot : k.taskTable pid = .task address task)
    (hactive : k.isActive other = true) : (wakeManager k pid address task vdev).isActive other = true := by
  unfold wakeManager
  split
  · rename_i hwaits
    have hne : other ≠ pid := by
      rintro rfl
      simp [Kernel.isActive, hslot, Slot.status, hwaits] at hactive
    rw [Kernel.isActive, setTask_other hne]
    exact hactive
  · exact hactive

-- What the drivers do during a poll: no entry changes but that a waiting manager is woken.
structure Polled (m after : Machine) : Prop where
  kept : Kept m.kernel after.kernel
  active : ∀ pid, m.kernel.isActive pid = true → after.kernel.isActive pid = true
  attended : ∀ access, Attended m access → Attended after access

theorem Polled.refl (m : Machine) : Polled m m := ⟨.refl _, fun _ => id, fun _ => id⟩

theorem Polled.trans {middle : Machine} (hfirst : Polled m middle) (hsecond : Polled middle after) :
    Polled m after :=
  ⟨hfirst.kept.trans hsecond.kept, fun pid hactive => hsecond.active pid (hfirst.active pid hactive),
    fun access hattended => hsecond.attended access (hfirst.attended access hattended)⟩

theorem Polled.pollsAttended (hpolled : Polled m after) (hall : PollsAttended m polls) :
    PollsAttended after polls :=
  fun count access hmem => hpolled.attended access (hall count access hmem)

theorem Polled.of_table (hvdevs : after.vdevs = m.vdevs)
    (htable : after.kernel.taskTable = m.kernel.taskTable) : Polled m after := by
  refine ⟨.of_eq htable, ?_, ?_⟩
  · intro pid hactive
    rw [Kernel.isActive, htable]
    exact hactive
  · intro access hattended entry hentry hready
    rw [hvdevs] at hentry
    rw [Live, htable]
    exact hattended entry hentry hready

-- A direction that is ready after an access was so before it.
theorem consume_ready {used : Transfer} {transfer : Transfer} {entry : Vdev.VdevT}
    (hready : transfer.status (used.consume entry) = .ready) : transfer.status entry = .ready := by
  cases used with
  | read | write payload =>
      cases transfer with
      | read | write payload =>
          first
          | exact hready
          | cases hready

theorem vdevIoWrapper_entry {vdev index : Nat} {transfer other : Transfer} {result : Int × Machine}
    {entry : Vdev.VdevT} (hio : vdevIoWrapper m vdev transfer = some result)
    (hentry : result.2.vdevs[index]? = some entry) (hready : other.status entry = .ready) :
    ∃ old, m.vdevs[index]? = some old ∧ old.pid = entry.pid ∧ other.status old = .ready := by
  rcases vdevIoWrapper_cases hio with hsame | ⟨old, address, task, mem, hold, -, -, heq⟩
  · rw [hsame] at hentry
    exact ⟨entry, hentry, rfl, hready⟩
  · rw [heq] at hentry
    by_cases he : vdev = index
    · subst he
      obtain ⟨hlt, -⟩ := List.getElem?_eq_some_iff.mp hold
      rw [List.getElem?_set_self hlt] at hentry
      obtain rfl := Option.some.inj hentry
      exact ⟨old, hold, (transfer.consume_pid old).symm, consume_ready hready⟩
    · rw [List.getElem?_set_ne he] at hentry
      exact ⟨entry, hentry, rfl, hready⟩

theorem vdevIoWrapper_polled {vdev : Nat} {transfer : Transfer} {result : Int × Machine}
    (hio : vdevIoWrapper m vdev transfer = some result) : Polled m result.2 := by
  have hstep : Vdev.step m (.io vdev transfer) = some result.2 :=
    Option.map_eq_some_iff.mpr ⟨result, hio, rfl⟩
  refine ⟨vdevIoWrapper_kept hio, ?_, ?_⟩
  · intro pid hactive
    rcases vdevIoWrapper_cases hio with hsame | ⟨entry, address, task, mem, -, -, hslot, heq⟩
    · rw [hsame]
      exact hactive
    · rw [heq]
      exact wakeManager_active hslot hactive
  · intro access hattended entry hentry hready
    obtain ⟨old, hold, hpid, hwas⟩ := vdevIoWrapper_entry hio hentry hready
    rw [← hpid]
    exact (step_effect hstep).live (hattended old hold hwas) nofun

theorem pollVdev_polled {access : Nat × Transfer} (hpoll : pollVdev m access = some after) :
    Polled m after := by
  unfold pollVdev at hpoll
  split at hpoll
  · obtain ⟨result, hio, rfl⟩ := Option.map_eq_some_iff.mp hpoll
    exact vdevIoWrapper_polled hio
  · cases hpoll
    exact .refl m

theorem pollAccesses_polled {accesses : List (Nat × Transfer)}
    (hpoll : accesses.foldlM pollVdev m = some after) : Polled m after := by
  induction accesses generalizing m with
  | nil =>
      cases hpoll
      exact .refl _
  | cons access rest ih =>
      rw [List.foldlM_cons] at hpoll
      obtain ⟨middle, hfirst, hrest⟩ := Option.bind_eq_some_iff.mp hpoll
      exact (pollVdev_polled hfirst).trans (ih hrest)

theorem pollDrivers_polled {poll : Poll} (hpoll : pollDrivers m poll = some after) :
    Polled m after := by
  obtain ⟨accessed, haccesses, rfl⟩ := Option.map_eq_some_iff.mp hpoll
  exact (pollAccesses_polled haccesses).trans (.of_table rfl (requests_taskTable _ _))

-- Only a manager that has left makes a poll fault.
theorem vdevIoWrapper_isSome {vdev : Nat} {transfer : Transfer}
    (hattended : Attended m (vdev, transfer)) (hlt : vdev < m.vdevs.length) :
    vdevIoWrapper m vdev transfer ≠ none := by
  have hentry : m.vdevs[vdev]? = some m.vdevs[vdev] := List.getElem?_eq_getElem hlt
  have hslot : transfer.status m.vdevs[vdev] = .ready →
      ∃ address task, m.kernel.taskTable m.vdevs[vdev].pid = .task address task :=
    fun hready => (hattended _ hentry hready).slot
  unfold vdevIoWrapper
  rw [hentry]
  cases transfer with
  | read =>
      dsimp only
      split
      · nofun
      · rename_i hready
        obtain ⟨address, task, hslot⟩ := hslot (not_not.mp hready)
        rw [hslot]
        nofun
  | write payload =>
      dsimp only
      split
      · nofun
      · rename_i hready
        obtain ⟨address, task, hslot⟩ := hslot (not_not.mp hready)
        rw [hslot]
        nofun

theorem pollAccesses_isSome {accesses : List (Nat × Transfer)}
    (hattended : ∀ access ∈ accesses, Attended m access) : accesses.foldlM pollVdev m ≠ none := by
  induction accesses generalizing m with
  | nil => nofun
  | cons access rest ih =>
      rw [List.foldlM_cons]
      have hfirst : pollVdev m access ≠ none := by
        unfold pollVdev
        split
        · rename_i hlt
          rw [Ne, Option.map_eq_none_iff]
          exact vdevIoWrapper_isSome (hattended access List.mem_cons_self) hlt
        · nofun
      obtain ⟨middle, hmiddle⟩ := Option.ne_none_iff_exists'.mp hfirst
      rw [hmiddle]
      exact ih fun other hother =>
        (pollVdev_polled hmiddle).attended other (hattended other (List.mem_cons_of_mem _ hother))

theorem pollDrivers_isSome {poll : Poll} (hattended : ∀ access ∈ poll.accesses, Attended m access) :
    pollDrivers m poll ≠ none := by
  rw [pollDrivers, Ne, Option.map_eq_none_iff]
  exact pollAccesses_isSome hattended

theorem retryIo_polled (m : Machine) (pid : Nat) (result : Int) :
    Polled m (m.setStatus pid (retryIo result)) := by
  have hstatus : ∀ task, (retryIo result task).status = task.status ∧
      (retryIo result task).iowaitType = task.iowaitType := by
    intro task
    unfold retryIo
    split
    · exact ⟨rfl, rfl⟩
    · exact ⟨rfl, rfl⟩
  have hkept := setStatus_kept m pid fun _ task _ => KeepsStatus.of_eq (hstatus task).1 (hstatus task).2
  refine ⟨hkept, ?_, ?_⟩
  · intro other hactive
    unfold Machine.setStatus
    split
    · rename_i address task hslot
      by_cases he : other = pid
      · subst he
        rw [Kernel.isActive, hslot, Slot.status] at hactive
        rw [Kernel.isActive, setTask_same, Slot.status, (hstatus task).1]
        exact hactive
      · rw [Kernel.isActive, setTask_other he]
        exact hactive
    · exact hactive
  · intro access hattended entry hentry hready
    rw [setStatus_vdevs] at hentry
    have hmanager := hattended entry hentry hready
    unfold Machine.setStatus
    split
    · exact hmanager.setTask
    · exact hmanager

theorem completeIo_kept (hres : (m.kernel.taskTable pid).status ≠ some .res) (result : Int) :
    Kept m.kernel (m.setStatus pid (completeIo result)).kernel := by
  apply setStatus_kept
  intro address task hslot
  refine Or.inr ⟨slot_ne_res hslot hres, ?_, ?_⟩
  · unfold completeIo
    split
    · nofun
    · nofun
  · unfold completeIo
    split
    · nofun
    · nofun

theorem pollTask_pass {iowaitType : Nat} (hpass : pollTask polls pid iowaitType s = .pass t) :
    (polls s.polled).completes iowaitType = false ∧ Polled s.machine t.machine := by
  unfold pollTask at hpass
  split at hpass
  · cases hpass
  split at hpass
  · cases hpass
  · rename_i m hdrivers
    dsimp only at hpass
    split at hpass
    · cases hpass
    · rename_i hwaits
      cases hpass
      exact ⟨Bool.eq_false_iff.mpr hwaits,
        (pollDrivers_polled hdrivers).trans (retryIo_polled m pid _)⟩

-- Only a task that is not ready is passed.
theorem visit_pass (hpass : visit polls pid s = .pass t) :
    ¬Ready polls s pid ∧ Polled s.machine t.machine := by
  unfold visit at hpass
  cases hslot : s.machine.kernel.taskTable pid with
  | null | empty =>
      rw [hslot] at hpass
      cases hpass
      refine ⟨?_, .refl _⟩
      rintro ⟨address, task, htask, -⟩
      rw [hslot] at htask
      cases htask
  | task address task =>
      rw [hslot] at hpass
      dsimp only at hpass
      have hready : Ready polls s pid → task.status = .active ∨ task.status = .iowait ∧
          (polls s.polled).completes task.iowaitType = true := by
        rintro ⟨address', task', htask, hready⟩
        rw [hslot] at htask
        cases htask
        exact hready
      cases hstatus : task.status with
      | active =>
          rw [hstatus] at hpass
          cases hpass
      | iowait =>
          rw [hstatus] at hpass
          obtain ⟨hcompletes, hpolled⟩ := pollTask_pass hpass
          refine ⟨fun h => ?_, hpolled⟩
          rcases hready h with hactive | ⟨-, hdone⟩
          · rw [hstatus] at hactive
            cases hactive
          · rw [hcompletes] at hdone
            cases hdone
      | res | ipcwait | procwait | vdevwait =>
          rw [hstatus] at hpass
          cases hpass
          refine ⟨fun h => ?_, .refl _⟩
          rcases hready h with hactive | ⟨hwaits, -⟩
          · rw [hstatus] at hactive
            cases hactive
          · rw [hstatus] at hwaits
            cases hwaits

-- A visit that ends the scan dispatches a task that is ready, or runs into a vdev whose
-- manager has left.
theorem visit_take {outcome : Outcome} (hlaid : Laid s.machine.kernel used)
    (htake : visit polls pid s = .take outcome) :
    (outcome = .fault ∧ ¬PollsAttended s.machine polls) ∨ ∃ after, outcome = .dispatch pid after ∧
      Ready polls s pid ∧ Laid after.kernel used ∧ pid < used := by
  unfold visit at htake
  cases hslot : s.machine.kernel.taskTable pid with
  | null | empty =>
      rw [hslot] at htake
      cases htake
  | task address task =>
      rw [hslot] at htake
      dsimp only at htake
      have hlt := hlaid.lt_of_task hslot
      cases hstatus : task.status with
      | res | ipcwait | procwait | vdevwait =>
          rw [hstatus] at htake
          cases htake
      | active =>
          rw [hstatus] at htake
          cases htake
          exact Or.inr ⟨_, rfl, ⟨address, task, hslot, Or.inl hstatus⟩, hlaid, hlt⟩
      | iowait =>
          rw [hstatus] at htake
          dsimp only at htake
          unfold pollTask at htake
          have htype := hlaid.types pid address task hslot hstatus
          rw [if_neg (Nat.not_lt.mpr htype)] at htake
          cases hdrivers : pollDrivers s.machine (polls s.polled) with
          | none =>
              rw [hdrivers] at htake
              cases htake
              exact Or.inl ⟨rfl, fun hall => pollDrivers_isSome (hall s.polled) hdrivers⟩
          | some m =>
              rw [hdrivers] at htake
              dsimp only at htake
              split at htake
              · rename_i hdone
                cases htake
                have hpolled := (pollDrivers_polled hdrivers).kept
                have hres : (s.machine.kernel.taskTable pid).status ≠ some .res := by
                  rw [hslot, Slot.status, hstatus]
                  simp
                refine Or.inr ⟨_, rfl, ⟨address, task, hslot, Or.inr ⟨hstatus, hdone⟩⟩, ?_, hlt⟩
                exact hlaid.kept (hpolled.trans (completeIo_kept (hpolled.status_ne_res hres) _))
              · cases htake

theorem Ready.of_active (hactive : s.machine.kernel.isActive pid = true) : Ready polls s pid := by
  obtain ⟨address, task, hslot, hstatus⟩ := isActive_slot hactive
  exact ⟨address, task, hslot, Or.inl hstatus⟩

theorem FirstReady.cons {order : List Nat} {head first : Nat} (hskips : ¬Ready polls s head)
    (hvisit : visit polls head s = .pass t) (hfirst : FirstReady polls order t first) :
    FirstReady polls (head :: order) s first := by
  obtain ⟨before, rest, middle, rfl, hbefore, hready⟩ := hfirst
  exact ⟨head :: before, rest, middle, rfl, ⟨hskips, t, hvisit, hbefore⟩, hready⟩

theorem FirstReady.append {front back : List Nat} {first : Nat}
    (hfirst : FirstReady polls front s first) : FirstReady polls (front ++ back) s first := by
  obtain ⟨before, rest, middle, rfl, hbefore, hready⟩ := hfirst
  exact ⟨before, rest ++ back, middle, by simp, hbefore, hready⟩

theorem FirstReady.behind {front back : List Nat} {first : Nat} (hskips : Skips polls front s t)
    (hfirst : FirstReady polls back t first) : FirstReady polls (front ++ back) s first := by
  induction front generalizing s with
  | nil =>
      cases hskips
      exact hfirst
  | cons head rest ih =>
      obtain ⟨hready, next, hvisit, hrest⟩ := hskips
      exact .cons hready hvisit (ih hrest)

-- What a scan of any entries does.
inductive ScanSpec (polls : Nat → Poll) (used : Nat) (order : List Nat) (s : Scan) :
    Verdict Scan Outcome → Prop where
  | pass {t : Scan} (skips : Skips polls order s t) (polled : Polled s.machine t.machine) :
      ScanSpec polls used order s (.pass t)
  | fault (left : ¬PollsAttended s.machine polls) : ScanSpec polls used order s (.take .fault)
  | dispatch {first : Nat} {after : Machine} (ready : FirstReady polls order s first)
      (laid : Laid after.kernel used) (inside : first < used) :
      ScanSpec polls used order s (.take (.dispatch first after))

theorem scan_spec (polls : Nat → Poll) (hlaid : Laid s.machine.kernel used) (order : List Nat) :
    ScanSpec polls used order s (scan (visit polls) order s) := by
  refine scan_rule (fun s => Laid s.machine.kernel used) (ScanSpec polls used) ?_ ?_ ?_ hlaid
  · intro s _
    exact .pass rfl (.refl _)
  · intro head rest s outcome hlaid hvisit
    rcases visit_take hlaid hvisit with ⟨rfl, hleft⟩ | ⟨after, rfl, hready, hafter, hlt⟩
    · exact .fault hleft
    · exact .dispatch ⟨[], rest, s, rfl, rfl, hready⟩ hafter hlt
  · intro head rest s t hlaid hvisit
    obtain ⟨hnot, hpolled⟩ := visit_pass hvisit
    refine ⟨hlaid.kept hpolled.kept, ?_⟩
    intro verdict hrest
    cases hrest with
    | pass hskips hlater => exact .pass ⟨hnot, t, hvisit, hskips⟩ (hpolled.trans hlater)
    | fault hleft => exact .fault fun hall => hleft (hpolled.pollsAttended hall)
    | dispatch hready hafter hlt => exact .dispatch (.cons hnot hvisit hready) hafter hlt

-- A scan does not get past an ACTIVE task.
theorem Skips.not_active {order : List Nat} (hskips : Skips polls order s t)
    (hactive : s.machine.kernel.isActive pid = true) : pid ∉ order := by
  induction order generalizing s with
  | nil => exact List.not_mem_nil
  | cons head rest ih =>
      obtain ⟨hready, next, hvisit, hrest⟩ := hskips
      rw [List.mem_cons, not_or]
      constructor
      · rintro rfl
        exact hready (.of_active hactive)
      · exact ih hrest ((visit_pass hvisit).2.active pid hactive)

theorem schedulerLoop_null {fuel currentTask : Nat}
    (hnull : s.machine.kernel.taskTable currentTask = .null) (idleCpu : Bool) :
    schedulerLoop polls (fuel + 1) currentTask idleCpu s =
      if idleCpu then .idle s.machine else schedulerLoop polls fuel 0 true s := by
  rw [schedulerLoop, hnull]

theorem schedulerLoop_used {fuel currentTask : Nat}
    (hused : s.machine.kernel.taskTable currentTask ≠ .null) (idleCpu : Bool) :
    schedulerLoop polls (fuel + 1) currentTask idleCpu s =
      match visit polls currentTask s with
      | .take outcome => outcome
      | .pass t => schedulerLoop polls fuel (currentTask + 1) idleCpu t := by
  rw [schedulerLoop]
  cases hslot : s.machine.kernel.taskTable currentTask with
  | null => exact absurd hslot hused
  | empty => rfl
  | task => rfl

-- Before the first NULL entry the loop is a scan.
theorem schedulerLoop_scan (hlaid : Laid s.machine.kernel used) {fuel count currentTask : Nat}
    (hinside : currentTask + count ≤ used) (idleCpu : Bool) :
    schedulerLoop polls (fuel + count) currentTask idleCpu s =
      match scan (visit polls) (List.range' currentTask count) s with
      | .take outcome => outcome
      | .pass t => schedulerLoop polls fuel (currentTask + count) idleCpu t := by
  induction count generalizing currentTask s with
  | zero => rfl
  | succ count ih =>
      have hne : s.machine.kernel.taskTable currentTask ≠ .null := by
        rw [Ne, hlaid.null_iff]
        omega
      rw [List.range'_succ, scan, ← Nat.add_assoc, schedulerLoop_used hne]
      cases hvisit : visit polls currentTask s with
      | take outcome => rfl
      | pass t =>
          have hbehind : currentTask + 1 + count ≤ used := by omega
          have hrest := ih (hlaid.kept (visit_pass hvisit).2.kept) hbehind
          dsimp only
          rw [hrest, Nat.add_assoc, Nat.add_comm 1 count]

-- A second pass finds an ACTIVE task before `currentTask`.
theorem schedulerLoop_second {currentTask fuel : Nat} (hlaid : Laid s.machine.kernel used)
    (hcurrent : currentTask ≤ used) (hactive : s.machine.kernel.isActive pid = true)
    (hbehind : pid < currentTask) :
    (schedulerLoop polls (fuel + currentTask + 1) used false s = .fault ∧
        ¬PollsAttended s.machine polls) ∨
      ∃ first after, schedulerLoop polls (fuel + currentTask + 1) used false s =
          .dispatch first after ∧ FirstReady polls (List.range currentTask) s first := by
  have hnull := (hlaid.null_iff used).mpr le_rfl
  have hscan := scan_spec polls hlaid (List.range currentTask)
  rw [schedulerLoop_null hnull, if_neg Bool.false_ne_true, schedulerLoop_scan hlaid (by omega),
    ← List.range_eq_range']
  generalize scan (visit polls) (List.range currentTask) s = verdict at hscan ⊢
  cases hscan with
  | fault hleft => exact Or.inl ⟨rfl, hleft⟩
  | dispatch hready _ _ => exact Or.inr ⟨_, _, rfl, hready⟩
  | pass hskips _ => exact absurd (List.mem_range.mpr hbehind) (hskips.not_active hactive)

-- With an ACTIVE task the loop ends at a task that is ready, unless a poll faults.
theorem taskScheduler_spec {currentTask : Nat} {idleCpu : Bool} (hlaid : Laid m.kernel used)
    (hused : used ≤ KRNL_MAX_TASKS) (hcurrent : currentTask ≤ used)
    (hidle : idleCpu = true → currentTask ≤ 1) (hactive : m.kernel.isActive pid = true) :
    (taskScheduler polls currentTask idleCpu m = .fault ∧ ¬PollsAttended m polls) ∨
      ∃ first after, taskScheduler polls currentTask idleCpu m = .dispatch first after ∧
        FirstReady polls (cyclicOrder used currentTask) { machine := m } first := by
  obtain ⟨address, task, hslot, -⟩ := isActive_slot hactive
  have hlt := hlaid.lt_of_task hslot
  obtain ⟨fuel, hfuel⟩ : ∃ fuel, 2 * (KRNL_MAX_TASKS + 1) =
      fuel + currentTask + 1 + (used - currentTask) := ⟨2 * KRNL_MAX_TASKS + 1 - used, by omega⟩
  let start : Scan := { machine := m }
  have hstart : Laid start.machine.kernel used := hlaid
  have hfirst := scan_spec polls hstart (List.range' currentTask (used - currentTask))
  rw [taskScheduler, hfuel, schedulerLoop_scan hstart (by omega)]
  unfold cyclicOrder
  generalize scan (visit polls) (List.range' currentTask (used - currentTask)) start = verdict
    at hfirst ⊢
  cases hfirst with
  | fault hleft => exact Or.inl ⟨rfl, hleft⟩
  | dispatch hready _ _ => exact Or.inr ⟨_, _, rfl, hready.append⟩
  | @pass t hskips hpolled =>
      -- the ACTIVE task is behind, and not the kernel task
      have hbehind : pid < currentTask := by
        have hnot := hskips.not_active hactive
        rw [List.mem_range'_1] at hnot
        omega
      have hbusy : idleCpu = false := by
        rw [Bool.eq_false_iff]
        intro hset
        have hzero : pid = 0 := by
          have := hidle hset
          omega
        rw [hzero] at hactive
        exact ne_res_of_isActive hactive hlaid.resident
      have hend : currentTask + (used - currentTask) = used := by omega
      dsimp only
      rw [hbusy, hend]
      rcases schedulerLoop_second (hstart.kept hpolled.kept) hcurrent
        (hpolled.active pid hactive) hbehind with ⟨hfault, hleft⟩ | ⟨first, after, hdispatch, hready⟩
      · exact Or.inl ⟨hfault, fun hall => hleft (hpolled.pollsAttended hall)⟩
      · exact Or.inr ⟨first, after, hdispatch, .behind hskips hready⟩

def OutcomeOk (used : Nat) : Outcome → Prop
  | .dispatch pid after => Laid after.kernel used ∧ pid < used
  | .idle after => Laid after.kernel used
  | _ => True

theorem schedulerLoop_ok (polls : Nat → Poll) (hlaid : Laid s.machine.kernel used)
    (fuel currentTask : Nat) (idleCpu : Bool) :
    OutcomeOk used (schedulerLoop polls fuel currentTask idleCpu s) := by
  induction fuel generalizing currentTask idleCpu s with
  | zero => exact trivial
  | succ fuel ih =>
      by_cases hnull : s.machine.kernel.taskTable currentTask = .null
      · rw [schedulerLoop_null hnull]
        split
        · exact hlaid
        · exact ih hlaid 0 true
      · rw [schedulerLoop_used hnull]
        cases hvisit : visit polls currentTask s with
        | pass t => exact ih (hlaid.kept (visit_pass hvisit).2.kept) (currentTask + 1) idleCpu
        | take outcome =>
            rcases visit_take hlaid hvisit with ⟨rfl, -⟩ | ⟨after, rfl, -, hafter, hlt⟩
            · exact trivial
            · exact ⟨hafter, hlt⟩

-- Between two events: `current_task` is an entry in use, and 0 after an idle pass.
structure SystemOk (s : System) (used : Nat) : Prop where
  laid : Laid s.machine.kernel used
  current : s.currentTask < used
  idle : s.idleCpu = true → s.currentTask = 0

theorem System.call_laid {s : System} {call : Call} {result : End × Machine}
    (hok : SystemOk s used) (hcall : s.call call = some result) :
    ∃ more, used ≤ more ∧ Laid result.2.kernel more := by
  unfold System.call at hcall
  split at hcall
  · rename_i hmade
    rw [Bool.and_eq_true] at hmade
    obtain ⟨after, hstep, rfl⟩ := Option.map_eq_some_iff.mp hcall
    exact hok.laid.call hmade.2 hstep
  · cases hcall

theorem switchFrom_laid {currentTask : Nat} (hlaid : Laid m.kernel used) (cpu : GprState) :
    Laid (switchFrom m currentTask cpu).kernel used :=
  hlaid.kept (taskSwitch_kept m.kernel currentTask cpu)

-- The task and the machine that task_scheduler is entered with.
theorem SystemOk.entry {s : System} {event : Event} {currentTask : Nat} (hok : SystemOk s used)
    (hentry : s.entry event = some (currentTask, m)) :
    ∃ more, Laid m.kernel more ∧ currentTask ≤ more ∧ (s.idleCpu = true → currentTask ≤ 1) := by
  have hcurrent := hok.current
  have hidle := hok.idle
  cases event with
  | timer cpu polls =>
      cases hentry
      refine ⟨used, switchFrom_laid hok.laid cpu, hcurrent, ?_⟩
      intro hset
      rw [hidle hset]
  | call call cpu polls =>
      obtain ⟨⟨ending, after⟩, hcall, hresult⟩ := Option.bind_eq_some_iff.mp hentry
      obtain ⟨more, hmore, hlaid⟩ := System.call_laid hok hcall
      cases ending with
      | returns => cases hresult
      | switches =>
          cases hresult
          refine ⟨more, switchFrom_laid hlaid cpu, by omega, ?_⟩
          intro hset
          rw [hidle hset]
      | schedules =>
          cases hresult
          refine ⟨more, hlaid, by omega, ?_⟩
          intro hset
          rw [hidle hset]
          exact Nat.zero_le 1

theorem SystemOk.step {s next : System} {event : Event} (hok : SystemOk s used)
    (hstep : s.step event = some next) : ∃ more, SystemOk next more := by
  unfold System.step at hstep
  split at hstep
  · rename_i currentTask m hentry
    obtain ⟨more, hlaid, -, -⟩ := hok.entry hentry
    let start : Scan := { machine := m }
    have hstart : Laid start.machine.kernel more := hlaid
    have houtcome := schedulerLoop_ok event.polls hstart (2 * (KRNL_MAX_TASKS + 1)) currentTask
      s.idleCpu
    unfold taskScheduler at hstep
    generalize schedulerLoop event.polls (2 * (KRNL_MAX_TASKS + 1)) currentTask s.idleCpu start =
      outcome at hstep houtcome
    cases outcome with
    | dispatch pid after =>
        cases hstep
        exact ⟨more, houtcome.1, houtcome.2, nofun⟩
    | idle after =>
        cases hstep
        exact ⟨more, houtcome, houtcome.used_pos, fun _ => rfl⟩
    | panic | fault | spinning => cases hstep
  · cases event with
    | timer cpu polls => cases hstep
    | call call cpu polls =>
        obtain ⟨result, hcall, rfl⟩ := Option.map_eq_some_iff.mp hstep
        obtain ⟨more, hmore, hlaid⟩ := System.call_laid hok hcall
        exact ⟨more, hlaid, hok.current.trans_le hmore, hok.idle⟩

theorem Laid.launches (hlaid : Laid k used) (launches : List Launch) :
    ∃ more, Laid (launches.foldl bootLaunch k) more := by
  induction launches generalizing k used with
  | nil => exact ⟨used, hlaid⟩
  | cons launch rest ih =>
      have hrequested : Kept k (k.requests launch.requests) := .of_eq (requests_taskTable _ _)
      obtain ⟨more, -, hmore⟩ := hlaid.step (hrequested.tableStep
        (generalExecute_step _ 0 launch.info launch.file launch.vfs))
      exact ih hmore

-- A poll of drivers other than those of the vdevs, of a device that is no file.
def Quiet (polls : Nat → Poll) : Prop :=
  ∀ count, (polls count).accesses = [] ∧ (polls count).memory = id

theorem Quiet.inside (hquiet : Quiet polls) (m : Machine) : PollsInside m polls := by
  constructor
  · intro count access hmem
    rw [(hquiet count).1] at hmem
    cases hmem
  · intro count pid address task _ mem offset _
    rw [(hquiet count).2, id]

theorem Quiet.attended (hquiet : Quiet polls) (m : Machine) : PollsAttended m polls := by
  intro count access hmem
  rw [(hquiet count).1] at hmem
  cases hmem

def notReady : Nat → Poll := fun _ => { result := Vdev.IO_NOT_READY, stat := true }

def byteWritten : Nat → Poll := fun _ => { accesses := [(0, .write 0x61)], result := 0 }

end EchidnaOS.Scheduler
