import EchidnaOS.Vdev.Inside

namespace EchidnaOS.Vdev

open EchidnaOS.Lib EchidnaOS.Lib.SlotTable EchidnaOS.Lib.Run EchidnaOS.Klib EchidnaOS.Ipc

variable {k next : Kernel} {m after : Machine} {pid actor address : Nat} {task : Task} {call : Call}

def Live (k : Kernel) (pid : Nat) : Prop := (k.taskTable pid).status ≠ none

def Armed (vdev : VdevT) : Prop := vdev.statusIn = .ready ∨ vdev.statusOut = .ready

-- Another task or an armed vdev holds the pid.
def Named (m : Machine) (pid : Nat) : Prop :=
  (∃ other address task, other ≠ pid ∧ m.kernel.taskTable other = .task address task ∧
    (task.parent = pid ∨ ∃ index, index < task.ipcQueuePtr ∧ (task.ipcQueue index).sender = pid)) ∨
  ∃ vdev ∈ m.vdevs, vdev.pid = pid ∧ Armed vdev

-- No task is terminated while its pid is held, and no call writes beyond what it writes to.
def KeepsPids (m : Machine) (call : Call) : Prop :=
  (∀ pid, terminated m.kernel call = some pid → ¬Named m pid) ∧ WritesInside m call

-- The pids that tasks hold are those of live tasks.
structure TaskPids (k : Kernel) : Prop where
  range : ∀ pid address task, k.taskTable pid = .task address task → pid < KRNL_MAX_TASKS
  parents : ∀ pid address task, k.taskTable pid = .task address task → Live k task.parent
  senders : ∀ pid address task index, k.taskTable pid = .task address task →
    index < task.ipcQueuePtr → Live k (task.ipcQueue index).sender

structure PidsOk (m : Machine) : Prop where
  tasks : TaskPids m.kernel
  managers : ∀ vdev ∈ m.vdevs, Armed vdev → Live m.kernel vdev.pid

theorem Live.slot (hlive : Live k pid) : ∃ address task, k.taskTable pid = .task address task := by
  unfold Live at hlive
  cases hslot : k.taskTable pid with
  | task address task => exact ⟨address, task, rfl⟩
  | null => exact absurd (by rw [hslot]; rfl) hlive
  | empty => exact absurd (by rw [hslot]; rfl) hlive

theorem Live.of_slot (hslot : k.taskTable pid = .task address task) : Live k pid := by
  rw [Live, hslot]
  exact Option.some_ne_none _

theorem Live.of_canLaunch (hlaunch : k.canLaunch pid = true) : Live k pid := by
  simp only [Kernel.canLaunch, Kernel.isActive, Bool.or_eq_true, Bool.and_eq_true,
    decide_eq_true_eq] at hlaunch
  unfold Live
  rcases hlaunch with hactive | ⟨rfl, hresident⟩
  · simp [hactive]
  · simp [hresident]

theorem Live.called (hlive : Live k pid) (hcalled : CalledBy actor k next) : Live next pid := by
  obtain ⟨address, task, hslot⟩ := hlive.slot
  by_cases he : pid = actor
  · subst he
    obtain ⟨task', hnext, -⟩ := hcalled.kept address task hslot
    exact .of_slot hnext
  · exact .of_slot (hcalled.others pid address task he hslot)

theorem Live.setTask (hlive : Live k pid) : Live (k.setTask actor address task) pid := by
  by_cases he : pid = actor
  · subst he
    exact .of_slot (setTask_same _ _ _ _)
  · rw [Live, setTask_other he]
    exact hlive

theorem Live.drained {caller : Task} (hlive : Live k pid) (hdrained : Drained caller k next) :
    Live next pid := by
  obtain ⟨address, task, hslot⟩ := hlive.slot
  obtain ⟨queue, count, hnext, -, -⟩ := hdrained.kept pid address task hslot
  exact .of_slot hnext

theorem Live.quit {value : Int} {other : Nat} (hlive : Live k other) (hne : other ≠ pid)
    (hquit : taskQuit k pid value = some next) : Live next other := by
  obtain ⟨_, quitting, parentAddress, parent, -, hparent, htable⟩ := taskQuit_table hquit
  rw [Live, htable, Function.update_of_ne hne]
  exact hlive.called ((wakeParent_only value hparent).called hparent)

-- A call keeps every task but the one it terminates.
theorem Effect.live (heffect : Effect call k next) (hlive : Live k pid)
    (hne : terminated k call ≠ some pid) : Live next pid := by
  cases heffect with
  | quit hterminated _ hquit =>
      apply hlive.quit _ hquit
      rintro rfl
      exact hne hterminated
  | called _ hcalled => exact hlive.called hcalled
  | queued _ _ _ _ heq =>
      subst heq
      exact hlive.setTask
  | drained _ _ _ hdrained => exact hlive.drained hdrained
  | awaits _ heq =>
      subst heq
      unfold enterIpcwaitStatus
      split
      · split
        · exact hlive.setTask
        · exact hlive
      · exact hlive
  | woken hslot heq =>
      rw [Live, heq]
      exact hlive.called ((wakeManager_only hslot).called hslot)
  | same heq =>
      rw [Live, heq]
      exact hlive

theorem TaskPids.called (hpids : TaskPids k) (hlive : Live k actor)
    (hcalled : CalledBy actor k next) : TaskPids next := by
  constructor
  · intro pid address task hslot
    rcases hcalled.parents pid address task hslot with ⟨hlt, -⟩ | ⟨oldAddress, old, hold, -⟩
    · exact hlt
    · exact hpids.range pid oldAddress old hold
  · intro pid address task hslot
    rcases hcalled.parents pid address task hslot with ⟨-, hparent, -⟩ |
      ⟨oldAddress, old, hold, hkeeps⟩
    · rw [hparent]
      exact hlive.called hcalled
    · rw [hkeeps.parent]
      exact (hpids.parents pid oldAddress old hold).called hcalled
  · intro pid address task index hslot hindex
    rcases hcalled.parents pid address task hslot with ⟨-, -, hempty⟩ |
      ⟨oldAddress, old, hold, hkeeps⟩
    · omega
    · rw [hkeeps.queue]
      rw [hkeeps.count] at hindex
      exact (hpids.senders pid oldAddress old index hold hindex).called hcalled

theorem TaskPids.setTask {old : Task} (hpids : TaskPids k)
    (hold : k.taskTable pid = .task address old) (hparent : Live k task.parent)
    (hsenders : ∀ index, index < task.ipcQueuePtr → Live k (task.ipcQueue index).sender) :
    TaskPids (k.setTask pid address task) := by
  constructor
  · intro other address' task' hslot
    by_cases he : other = pid
    · subst he
      exact hpids.range other address old hold
    · rw [setTask_other he] at hslot
      exact hpids.range other address' task' hslot
  · intro other address' task' hslot
    by_cases he : other = pid
    · subst he
      rw [setTask_same] at hslot
      cases hslot
      exact hparent.setTask
    · rw [setTask_other he] at hslot
      exact (hpids.parents other address' task' hslot).setTask
  · intro other address' task' index hslot hindex
    by_cases he : other = pid
    · subst he
      rw [setTask_same] at hslot
      cases hslot
      exact (hsenders index hindex).setTask
    · rw [setTask_other he] at hslot
      exact (hpids.senders other address' task' index hslot hindex).setTask

-- The pid of a task that quits is held by no other task.
theorem TaskPids.quit {value : Int} (hpids : TaskPids m.kernel) (hnamed : ¬Named m pid)
    (hquit : taskQuit m.kernel pid value = some next) : TaskPids next := by
  obtain ⟨_, quitting, parentAddress, parent, -, hparent, htable⟩ := taskQuit_table hquit
  have hback : ∀ other address task, next.taskTable other = .task address task →
      other ≠ pid ∧ ∃ oldAddress old, m.kernel.taskTable other = .task oldAddress old ∧
        Keeps old task := by
    intro other address task hslot
    have hne : other ≠ pid := by
      rintro rfl
      simp [htable] at hslot
    rw [htable, Function.update_of_ne hne] at hslot
    exact ⟨hne, (wakeParent_only value hparent).back hparent hslot⟩
  constructor
  · intro other address task hslot
    obtain ⟨-, oldAddress, old, hold, -⟩ := hback other address task hslot
    exact hpids.range other oldAddress old hold
  · intro other address task hslot
    obtain ⟨hne, oldAddress, old, hold, hkeeps⟩ := hback other address task hslot
    rw [hkeeps.parent]
    refine (hpids.parents other oldAddress old hold).quit ?_ hquit
    exact fun he => hnamed (Or.inl ⟨other, oldAddress, old, hne, hold, Or.inl he⟩)
  · intro other address task index hslot hindex
    obtain ⟨hne, oldAddress, old, hold, hkeeps⟩ := hback other address task hslot
    rw [hkeeps.queue]
    rw [hkeeps.count] at hindex
    refine (hpids.senders other oldAddress old index hold hindex).quit ?_ hquit
    exact fun he => hnamed (Or.inl ⟨other, oldAddress, old, hne, hold, Or.inr ⟨index, hindex, he⟩⟩)

theorem TaskPids.drained {current : Nat} {caller : Task} (hpids : TaskPids k)
    (hslot : k.taskTable current = .task address caller) (hown : PushesBackOwn k current)
    (hdrained : Drained caller k next) : TaskPids next := by
  have hback : ∀ pid address task, next.taskTable pid = .task address task →
      ∃ oldAddress old, k.taskTable pid = .task oldAddress old ∧ task.parent = old.parent ∧
        ∀ index, index < task.ipcQueuePtr → ∃ position, position < old.ipcQueuePtr ∧
          task.ipcQueue index = old.ipcQueue position := by
    intro pid address' task hnext
    have hlive : Live k pid := by
      intro hfree
      exact free_ne_task (hdrained.unused pid hfree) address' task hnext
    obtain ⟨oldAddress, old, hold⟩ := hlive.slot
    obtain ⟨queue, count, htask, hle, hqueue⟩ := hdrained.kept pid oldAddress old hold
    rw [htask] at hnext
    obtain ⟨rfl, rfl⟩ := Slot.task.inj hnext
    refine ⟨oldAddress, old, hold, rfl, ?_⟩
    intro index hindex
    rcases hqueue index hindex with hsame | ⟨hmany, rfl, hlast⟩
    · exact ⟨index, lt_of_lt_of_le hindex hle, hsame⟩
    · have hcount := hown address caller hslot hmany oldAddress old hold
      exact ⟨caller.ipcQueuePtr - 1, by omega, hlast⟩
  constructor
  · intro pid address' task hnext
    obtain ⟨oldAddress, old, hold, -, -⟩ := hback pid address' task hnext
    exact hpids.range pid oldAddress old hold
  · intro pid address' task hnext
    obtain ⟨oldAddress, old, hold, hparent, -⟩ := hback pid address' task hnext
    rw [hparent]
    exact (hpids.parents pid oldAddress old hold).drained hdrained
  · intro pid address' task index hnext hindex
    obtain ⟨oldAddress, old, hold, -, hqueue⟩ := hback pid address' task hnext
    obtain ⟨position, hposition, hpacket⟩ := hqueue index hindex
    rw [hpacket]
    exact (hpids.senders pid oldAddress old position hold hposition).drained hdrained

theorem TaskPids.congr (hpids : TaskPids k) (heq : next.taskTable = k.taskTable) :
    TaskPids next := by
  have hlive : ∀ pid, Live k pid → Live next pid := by
    intro pid h
    rw [Live, heq]
    exact h
  constructor
  · intro pid address task hslot
    exact hpids.range pid address task (heq ▸ hslot)
  · intro pid address task hslot
    exact hlive _ (hpids.parents pid address task (heq ▸ hslot))
  · intro pid address task index hslot hindex
    exact hlive _ (hpids.senders pid address task index (heq ▸ hslot) hindex)

theorem TaskPids.enqueue {current : Nat} {packet : IpcPacket} (hpids : TaskPids k)
    (hslot : k.taskTable pid = .task address task) (hsender : packet.sender = current)
    (hcurrent : Live k current) : TaskPids (k.setTask pid address (enqueue task packet)) := by
  apply hpids.setTask hslot
  · exact hpids.parents pid address task hslot
  · intro index hindex
    have hlt : index < task.ipcQueuePtr + 1 := hindex
    dsimp only [Ipc.enqueue]
    by_cases hlast : index = task.ipcQueuePtr
    · rw [hlast, Function.update_self, hsender]
      exact hcurrent
    · rw [Function.update_of_ne hlast, reallocQueue_apply _ (by omega) hlt]
      exact hpids.senders pid address task index hslot (by omega)

theorem TaskPids.effect (hpids : TaskPids m.kernel) (hkeeps : KeepsPids m call)
    (heffect : Effect call m.kernel next) : TaskPids next := by
  cases heffect with
  | quit hterminated _ hquit => exact hpids.quit (hkeeps.1 _ hterminated) hquit
  | called hlaunch hcalled => exact hpids.called (.of_canLaunch hlaunch) hcalled
  | queued _ hactive hsender hslot heq =>
      subst heq
      exact hpids.enqueue hslot hsender (.of_canLaunch (canLaunch_of_isActive hactive))
  | drained hmade _ hslot hdrained =>
      subst hmade
      exact hpids.drained hslot hkeeps.2.1 hdrained
  | awaits _ heq =>
      subst heq
      unfold enterIpcwaitStatus
      split
      · rename_i address task hslot
        split
        · exact hpids.setTask hslot (hpids.parents _ address task hslot)
            fun index => hpids.senders _ address task index hslot
        · exact hpids
      · exact hpids
  | woken hslot heq =>
      exact (hpids.called (.of_slot hslot) ((wakeManager_only hslot).called hslot)).congr heq
  | same heq => exact hpids.congr heq

theorem setStatus_vdevs (m : Machine) (current : Nat) (change : Task → Task) :
    (m.setStatus current change).vdevs = m.vdevs := by
  unfold Machine.setStatus
  split <;> rfl

theorem mem_setAt {vdevs : List VdevT} {index : Int} {entry vdev : VdevT}
    (hmem : vdev ∈ setAt vdevs index entry) : vdev ∈ vdevs ∨ vdev = entry := by
  unfold setAt at hmem
  split at hmem
  · exact Or.inl hmem
  · exact List.mem_or_eq_of_mem_set hmem

theorem Transfer.armed_of_consume {transfer : Transfer} {entry : VdevT}
    (harmed : Armed (transfer.consume entry)) : Armed entry := by
  cases transfer with
  | read => exact Or.inl (harmed.resolve_right nofun)
  | write payload => exact Or.inr (harmed.resolve_left nofun)

theorem registerVdev_vdevs {current : Nat}
    {payloadInAddr payloadInFlag payloadOutAddr payloadOutFlag : UInt32} {vdev : VdevT}
    (hmem : vdev ∈ (registerVdev m current payloadInAddr payloadInFlag payloadOutAddr
      payloadOutFlag).2.vdevs) (harmed : Armed vdev) : vdev ∈ m.vdevs := by
  unfold registerVdev at hmem
  split at hmem
  · split at hmem
    · exact hmem
    split at hmem
    · dsimp only at hmem
      split at hmem
      · exact hmem
      · rcases List.mem_append.mp hmem with hold | hnew
        · exact hold
        · rw [List.mem_singleton.mp hnew] at harmed
          rcases harmed with hin | hout
          · cases hin
          · cases hout
    · exact hmem
  · exact hmem

-- A vdev that is armed after a call was armed before, or its manager has just armed it.
theorem step_managers (hstep : step m call = some after) {vdev : VdevT} (hmem : vdev ∈ after.vdevs)
    (harmed : Armed vdev) :
    (terminated m.kernel call = none ∧ m.kernel.isActive vdev.pid = true) ∨
      ∃ old ∈ m.vdevs, old.pid = vdev.pid ∧ Armed old := by
  have heffect := effect_of_step hstep
  have hsame : vdev ∈ m.vdevs →
      (terminated m.kernel call = none ∧ m.kernel.isActive vdev.pid = true) ∨
      ∃ old ∈ m.vdevs, old.pid = vdev.pid ∧ Armed old :=
    fun hold => Or.inr ⟨vdev, hold, rfl, harmed⟩
  cases call with
  | other action =>
      obtain ⟨next, -, rfl⟩ := Option.map_eq_some_iff.mp heffect
      exact hsame hmem
  | send current pid payload len =>
      obtain ⟨result, -, rfl⟩ := Option.map_eq_some_iff.mp heffect
      exact hsame hmem
  | read current payload =>
      obtain ⟨result, -, rfl⟩ := Option.map_eq_some_iff.mp heffect
      exact hsame hmem
  | ipcwait current =>
      cases heffect
      exact hsame hmem
  | iowait current dev loc payload type | iowait1 current handle ptr len type done | vdevwait current =>
      cases heffect
      exact hsame (setStatus_vdevs m current _ ▸ hmem)
  | register current payloadInAddr payloadInFlag payloadOutAddr payloadOutFlag =>
      cases heffect
      exact hsame (registerVdev_vdevs hmem harmed)
  | inReady current index | outReady current index =>
      have hactive := step_active hstep rfl
      obtain ⟨result, hready, rfl⟩ := Option.map_eq_some_iff.mp heffect
      obtain ⟨entry, hentry, rfl⟩ := Option.map_eq_some_iff.mp hready
      split at hmem
      · exact hsame hmem
      · rename_i hmine
        rcases mem_setAt hmem with hold | rfl
        · exact hsame hold
        · exact Or.inl ⟨rfl, by rw [not_not.mp hmine]; exact hactive⟩
  | io index transfer =>
      obtain ⟨result, hio, rfl⟩ := Option.map_eq_some_iff.mp heffect
      rcases vdevIoWrapper_cases hio with heq | ⟨entry, address, task, mem, hentry, -, -, heq⟩
      · rw [heq] at hmem
        exact hsame hmem
      · rw [heq] at hmem
        rcases List.mem_or_eq_of_mem_set hmem with hold | rfl
        · exact hsame hold
        · exact Or.inr ⟨entry, List.mem_of_getElem? hentry,
            (Transfer.consume_pid transfer entry).symm, Transfer.armed_of_consume harmed⟩

theorem PidsOk.step (hok : PidsOk m) (hkeeps : KeepsPids m call)
    (hstep : Vdev.step m call = some after) : PidsOk after := by
  have heffect := step_effect hstep
  refine ⟨hok.tasks.effect hkeeps heffect, ?_⟩
  intro vdev hmem harmed
  rcases step_managers hstep hmem harmed with ⟨hnone, hactive⟩ | ⟨old, hold, hpid, holdArmed⟩
  · apply heffect.live (.of_canLaunch (canLaunch_of_isActive hactive))
    simp [hnone]
  · rw [← hpid]
    apply heffect.live (hok.managers old hold holdArmed)
    intro hterminated
    exact hkeeps.1 _ hterminated (Or.inr ⟨old, hold, rfl, holdArmed⟩)

theorem PidsOk.boot {heap : Heap} {others : Nat → Nat} (hboot : taskInit heap others = some m.kernel)
    (hnone : m.vdevs = []) : PidsOk m := by
  have hlive : Live m.kernel 0 := by
    obtain ⟨address, task, htable, -⟩ := taskInit_table hboot
    exact .of_slot (by rw [htable, Function.update_self])
  refine ⟨⟨?_, ?_, ?_⟩, ?_⟩
  · intro pid address task hslot
    rw [(taskInit_only hboot hslot).1]
    decide
  · intro pid address task hslot
    rw [(taskInit_only hboot hslot).2.1]
    exact hlive
  · intro pid address task index hslot hindex
    have hempty := (taskInit_only hboot hslot).2.2
    omega
  · intro vdev hmem
    rw [hnone] at hmem
    cases hmem

end EchidnaOS.Vdev
