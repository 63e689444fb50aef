import EchidnaOS.Ipc.Theorems
import EchidnaOS.Vdev

namespace EchidnaOS.Vdev

open EchidnaOS.Lib EchidnaOS.Lib.SlotTable EchidnaOS.Lib.ByteStore EchidnaOS.Klib EchidnaOS.Ipc

variable {k next : Kernel} {m after : Machine} {current pid address : Nat} {task : Task}
  {call : Call}

-- The task a call terminates: the one that quits, or the caller whose packet fails a check.
def terminated (k : Kernel) : Call → Option Nat
  | .other (.quit pid _) => some pid
  | .send current pid payload len =>
      match k.taskTable current, k.taskTable pid with
      | .task _ caller, .task _ _ =>
          if withinLimit caller payload.toNat len.toNat then none else some current
      | .task _ _, _ => some current
      | _, _ => none
  | .read current payload =>
      match k.taskTable current with
      | .task _ caller =>
          if caller.ipcQueuePtr = 0 ∨ withinLimit caller payload.toNat (caller.ipcQueue 0).length
          then none else some current
      | _ => none
  | _ => none

-- A read by `caller` takes packets off queues and touches nothing else. The packets that
-- are pushed back are all the last one, of the queue of the task that sent the first.
structure Drained (caller : Task) (k next : Kernel) : Prop where
  unused : ∀ pid, (k.taskTable pid).status = none → (next.taskTable pid).status = none
  kept : ∀ pid address task, k.taskTable pid = .task address task →
    ∃ queue count, next.taskTable pid = .task address
        { task with ipcQueue := queue, ipcQueuePtr := count } ∧
      count ≤ task.ipcQueuePtr ∧
      ∀ index, index < count → queue index = task.ipcQueue index ∨
        (1 < caller.ipcQueuePtr ∧ pid = (caller.ipcQueue 0).sender ∧
          queue index = task.ipcQueue (caller.ipcQueuePtr - 1))

theorem pushBack_apply (count : Nat) (queue : Nat → IpcPacket) (index : Nat) :
    pushBack count queue index = if index < count then queue count else queue index := by
  induction count generalizing queue with
  | zero => simp [pushBack]
  | succ count ih =>
      rw [pushBack, ih]
      by_cases hlast : index = count
      · subst hlast
        simp
      · by_cases hlt : index < count
        · simp [hlt, Nat.lt_succ_of_lt hlt]
        · have hge : ¬index < count + 1 := by omega
          simp [hlt, hge, hlast]

theorem pushQueueBack_drained {caller : Task}
    (hpush : pushQueueBack k (caller.ipcQueue 0).sender caller.ipcQueuePtr = some next) :
    Drained caller k next := by
  unfold pushQueueBack at hpush
  split at hpush
  · cases hpush
    refine ⟨fun _ h => h, fun pid address task hslot => ?_⟩
    exact ⟨task.ipcQueue, task.ipcQueuePtr, hslot, le_rfl, fun _ _ => Or.inl rfl⟩
  · rename_i hmany
    split at hpush
    · rename_i address sender hsender
      cases hpush
      constructor
      · intro pid hfree
        have hne : pid ≠ (caller.ipcQueue 0).sender := by
          intro he
          exact free_ne_task hfree address sender (he ▸ hsender)
        rw [setTask_other hne]
        exact hfree
      · intro pid address' task hslot
        by_cases he : pid = (caller.ipcQueue 0).sender
        · subst he
          rw [hsender] at hslot
          cases hslot
          refine ⟨_, _, setTask_same _ _ _ _, le_rfl, ?_⟩
          intro index _
          rw [pushBack_apply]
          by_cases hlt : index < caller.ipcQueuePtr - 1
          · rw [if_pos hlt]
            exact Or.inr ⟨by omega, rfl, rfl⟩
          · rw [if_neg hlt]
            exact Or.inl rfl
        · rw [setTask_other he, hslot]
          exact ⟨task.ipcQueue, task.ipcQueuePtr, rfl, le_rfl, fun _ _ => Or.inl rfl⟩
    · cases hpush

theorem Drained.freeQueueEntry {caller : Task} (hdrained : Drained caller k next) :
    Drained caller k (freeQueueEntry next current) := by
  unfold Ipc.freeQueueEntry
  split
  · rename_i address task hslot
    constructor
    · intro pid hfree
      have hne : pid ≠ current := by
        intro he
        exact free_ne_task (hdrained.unused pid hfree) address task (he ▸ hslot)
      rw [setTask_other hne]
      exact hdrained.unused pid hfree
    · intro pid address' task' hold
      obtain ⟨queue, count, hnext, hle, hqueue⟩ := hdrained.kept pid address' task' hold
      by_cases he : pid = current
      · subst he
        rw [hnext] at hslot
        cases hslot
        refine ⟨_, count - 1, setTask_same _ _ _ _, by omega, ?_⟩
        intro index hindex
        dsimp only
        rw [reallocQueue_apply queue (by omega) hindex]
        exact hqueue index (by omega)
      · rw [setTask_other he]
        exact ⟨queue, count, hnext, hle, hqueue⟩
  · exact hdrained

theorem ipcReadPacket_drained {payload : UInt32} {result : Option IpcPacket × Kernel}
    {caller : Task} (hslot : k.taskTable current = .task address caller)
    (hread : ipcReadPacket k current payload = some result) :
    (terminated k (.read current payload) = some current ∧
      taskQuit k current (-1) = some result.2) ∨ Drained caller k result.2 := by
  unfold ipcReadPacket at hread
  rw [hslot] at hread
  dsimp only at hread
  split at hread
  · cases hread
    refine Or.inr ⟨fun _ h => h, fun pid address task hslot => ?_⟩
    exact ⟨task.ipcQueue, task.ipcQueuePtr, hslot, le_rfl, fun _ _ => Or.inl rfl⟩
  rename_i hpending
  split at hread
  · obtain ⟨pushed, hpush, rfl⟩ := Option.map_eq_some_iff.mp hread
    have hdrained := pushQueueBack_drained hpush
    exact Or.inr (Drained.freeQueueEntry ⟨hdrained.unused, hdrained.kept⟩)
  · rename_i hlimit
    obtain ⟨quit, hquit, rfl⟩ := Option.map_eq_some_iff.mp hread
    refine Or.inl ⟨?_, hquit⟩
    simp [terminated, hslot, hpending, hlimit]

theorem wakeManager_only {address vdev : Nat} {task : Task}
    (hslot : k.taskTable pid = .task address task) :
    OnlyTask pid k (wakeManager k pid address task vdev) := by
  unfold wakeManager
  split
  · exact OnlyTask.setTask hslot k.heap k.others _ ⟨rfl, rfl, rfl, nofun⟩
  · exact .of_eq rfl

-- What a call does to the task table.
inductive Effect (call : Call) (k next : Kernel) : Prop where
  | quit {pid : Nat} {value : Int} (terminates : terminated k call = some pid)
      (active : k.isActive pid = true) (effect : taskQuit k pid value = some next)
  | called {actor : Nat} (launches : k.canLaunch actor = true) (effect : CalledBy actor k next)
  | queued {current pid address : Nat} {payload len : UInt32} {task : Task} {packet : IpcPacket}
      (made : call = .send current pid payload len) (active : k.isActive current = true)
      (sender : packet.sender = current) (slot : k.taskTable pid = .task address task)
      (effect : next = k.setTask pid address (enqueue task packet))
  | drained {current address : Nat} {payload : UInt32} {caller : Task}
      (made : call = .read current payload) (active : k.isActive current = true)
      (slot : k.taskTable current = .task address caller) (effect : Drained caller k next)
  | awaits {current : Nat} (active : k.isActive current = true)
      (effect : next = enterIpcwaitStatus k current)
  | woken {pid address vdev : Nat} {task : Task} (slot : k.taskTable pid = .task address task)
      (effect : next.taskTable = (wakeManager k pid address task vdev).taskTable)
  | same (effect : next.taskTable = k.taskTable)

theorem canLaunch_of_isActive (hactive : k.isActive pid = true) : k.canLaunch pid = true := by
  rw [Kernel.canLaunch, hactive, Bool.true_or]

theorem setStatus_called (m : Machine) (current : Nat) (change : Task → Task)
    (hchange : ∀ task, Keeps task (change task)) :
    CalledBy current m.kernel (m.setStatus current change).kernel := by
  unfold Machine.setStatus
  split
  · rename_i address task hslot
    exact (OnlyTask.setTask hslot m.kernel.heap m.kernel.others _ (hchange task)).called hslot
  · exact (SameTasks.of_eq rfl).called

theorem ipcSendPacket_effect {payload len : UInt32} {result : Option IpcPacket × Kernel}
    (hactive : k.isActive current = true)
    (hsend : ipcSendPacket k current pid payload len = some result) :
    Effect (.send current pid payload len) k result.2 := by
  obtain ⟨callerAddress, caller, hcaller, -⟩ := isActive_slot hactive
  unfold ipcSendPacket at hsend
  rw [hcaller] at hsend
  dsimp only at hsend
  split at hsend
  · rename_i hlimit
    split at hsend
    · rename_i address task hslot
      cases hsend
      exact .queued rfl hactive rfl hslot rfl
    · rename_i hnone
      obtain ⟨quit, hquit, rfl⟩ := Option.map_eq_some_iff.mp hsend
      refine .quit ?_ hactive hquit
      cases htarget : k.taskTable pid with
      | task address task => exact absurd htarget (hnone address task)
      | null => simp [terminated, hcaller, htarget]
      | empty => simp [terminated, hcaller, htarget]
  · rename_i hlimit
    obtain ⟨quit, hquit, rfl⟩ := Option.map_eq_some_iff.mp hsend
    refine .quit ?_ hactive hquit
    cases htarget : k.taskTable pid with
    | task address task => simp [terminated, hcaller, htarget, hlimit]
    | null => simp [terminated, hcaller, htarget]
    | empty => simp [terminated, hcaller, htarget]

-- The direction of a vdev that an access uses.
def Transfer.status : Transfer → VdevT → Readiness
  | .read, entry => entry.statusOut
  | .write _, entry => entry.statusIn

def Transfer.consume : Transfer → VdevT → VdevT
  | .read, entry => { entry with statusOut := .notReady }
  | .write _, entry => { entry with statusIn := .notReady }

theorem Transfer.consume_pid (transfer : Transfer) (entry : VdevT) :
    (transfer.consume entry).pid = entry.pid := by
  cases transfer <;> rfl

-- What an access can do: nothing, or use up a direction that is ready and wake the manager.
theorem vdevIoWrapper_cases {vdev : Nat} {transfer : Transfer} {result : Int × Machine}
    (hio : vdevIoWrapper m vdev transfer = some result) :
    result.2 = m ∨ ∃ entry address task mem, m.vdevs[vdev]? = some entry ∧
      transfer.status entry = .ready ∧ m.kernel.taskTable entry.pid = .task address task ∧
      result.2 = { m with
        kernel := { wakeManager m.kernel entry.pid address task vdev with heap.mem := mem }
        vdevs := m.vdevs.set vdev (transfer.consume entry) } := by
  unfold vdevIoWrapper at hio
  split at hio
  · cases hio
  · rename_i entry hentry
    cases transfer with
    | read | write payload =>
        dsimp only at hio
        split at hio
        · cases hio
          exact Or.inl rfl
        · rename_i hready
          split at hio
          · rename_i address task hslot
            cases hio
            exact Or.inr ⟨entry, address, task, _, hentry, not_not.mp hready, hslot, rfl⟩
          · cases hio

theorem other_effect {action : EchidnaOS.Action} (hstep : EchidnaOS.step k action = some next) :
    Effect (.other action) k next := by
  rcases step_cases hstep with ⟨pid, value, rfl, hactive, hquit⟩ | ⟨actor, hactive, hcalled⟩ |
    ⟨actor, info, file, vfs, -, hlaunch, rfl⟩ | heq
  · exact .quit rfl hactive hquit
  · exact .called (canLaunch_of_isActive hactive) hcalled
  · exact .called hlaunch (generalExecute_spawned k actor info file vfs).called
  · exact .same heq

theorem registerVdev_kernel (m : Machine) (current : Nat)
    (payloadInAddr payloadInFlag payloadOutAddr payloadOutFlag : UInt32) :
    (registerVdev m current payloadInAddr payloadInFlag payloadOutAddr
      payloadOutFlag).2.kernel.taskTable = m.kernel.taskTable := by
  unfold registerVdev
  split
  · split
    · rfl
    split
    · dsimp only
      split
      · rfl
      · rfl
    · rfl
  · rfl

theorem step_active (hstep : step m call = some after) (hcaller : call.caller = some current) :
    m.kernel.isActive current = true := by
  unfold step at hstep
  split at hstep
  · rename_i hactive
    rwa [hcaller] at hactive
  · cases hstep

theorem effect_of_step (hstep : step m call = some after) : m.effect call = some after := by
  unfold step at hstep
  split at hstep
  · exact hstep
  · cases hstep

theorem step_effect (hstep : step m call = some after) : Effect call m.kernel after.kernel := by
  have heffect := effect_of_step hstep
  cases call with
  | other action =>
      obtain ⟨next, hnext, rfl⟩ := Option.map_eq_some_iff.mp heffect
      exact other_effect hnext
  | send current pid payload len =>
      obtain ⟨result, hsend, rfl⟩ := Option.map_eq_some_iff.mp heffect
      exact ipcSendPacket_effect (step_active hstep rfl) hsend
  | read current payload =>
      obtain ⟨result, hread, rfl⟩ := Option.map_eq_some_iff.mp heffect
      have hactive := step_active hstep rfl
      obtain ⟨address, caller, hslot, -⟩ := isActive_slot hactive
      rcases ipcReadPacket_drained hslot hread with ⟨hterminated, hquit⟩ | hdrained
      · exact .quit hterminated hactive hquit
      · exact .drained rfl hactive hslot hdrained
  | ipcwait current =>
      cases heffect
      exact .awaits (step_active hstep rfl) rfl
  | iowait current dev loc payload type =>
      cases heffect
      exact .called (canLaunch_of_isActive (step_active hstep rfl))
        (setStatus_called m current _ fun _ => ⟨rfl, rfl, rfl, nofun⟩)
  | iowait1 current handle ptr len type done =>
      cases heffect
      exact .called (canLaunch_of_isActive (step_active hstep rfl))
        (setStatus_called m current _ fun _ => ⟨rfl, rfl, rfl, nofun⟩)
  | vdevwait current =>
      cases heffect
      exact .called (canLaunch_of_isActive (step_active hstep rfl))
        (setStatus_called m current _ fun _ => ⟨rfl, rfl, rfl, nofun⟩)
  | register current payloadInAddr payloadInFlag payloadOutAddr payloadOutFlag =>
      cases heffect
      exact .same (registerVdev_kernel m current _ _ _ _)
  | inReady current vdev =>
      obtain ⟨result, hready, rfl⟩ := Option.map_eq_some_iff.mp heffect
      obtain ⟨entry, -, rfl⟩ := Option.map_eq_some_iff.mp hready
      apply Effect.same
      split <;> rfl
  | outReady current vdev =>
      obtain ⟨result, hready, rfl⟩ := Option.map_eq_some_iff.mp heffect
      obtain ⟨entry, -, rfl⟩ := Option.map_eq_some_iff.mp hready
      apply Effect.same
      split <;> rfl
  | io vdev transfer =>
      obtain ⟨result, hio, rfl⟩ := Option.map_eq_some_iff.mp heffect
      rcases vdevIoWrapper_cases hio with hsame | ⟨entry, address, task, mem, -, -, hslot, heq⟩
      · exact .same (by rw [hsame])
      · exact .woken hslot (by rw [heq])

end EchidnaOS.Vdev
