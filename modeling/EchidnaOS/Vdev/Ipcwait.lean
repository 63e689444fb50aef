import EchidnaOS.Task.Launch
import EchidnaOS.Vdev.Inside

namespace EchidnaOS.Vdev

open EchidnaOS.Lib EchidnaOS.Lib.ByteStore EchidnaOS.Lib.SlotTable EchidnaOS.Lib.Run EchidnaOS.Klib
open EchidnaOS.Ipc

variable {k next : Kernel} {pid : Nat} {call : Call}

-- A task that waits for a packet has none.
def WaitsEmpty (k : Kernel) : Prop :=
  ∀ pid address task, k.taskTable pid = .task address task → task.status = .ipcwait →
    task.ipcQueuePtr = 0

theorem WaitsEmpty.called {actor : Nat} (hempty : WaitsEmpty k) (hcalled : CalledBy actor k next) :
    WaitsEmpty next := by
  intro pid address task hslot hwait
  rcases hcalled.parents pid address task hslot with ⟨-, -, hnew⟩ | ⟨address', task', hold, hkeeps⟩
  · exact hnew
  · rw [hkeeps.count]
    exact hempty pid address' task' hold (hkeeps.waiting hwait)

theorem WaitsEmpty.quit {value : Int} (hempty : WaitsEmpty k)
    (hquit : taskQuit k pid value = some next) : WaitsEmpty next := by
  obtain ⟨_, quitting, parentAddress, parent, -, hparent, htable⟩ := taskQuit_table hquit
  have hwoken := hempty.called ((wakeParent_only value hparent).called hparent)
  intro other address task hslot hwait
  rw [htable] at hslot
  by_cases he : other = pid
  · subst he
    simp at hslot
  · rw [Function.update_of_ne he] at hslot
    exact hwoken other address task hslot hwait

theorem WaitsEmpty.setTask {address : Nat} {task : Task} (hempty : WaitsEmpty k)
    (htask : task.status = .ipcwait → task.ipcQueuePtr = 0) :
    WaitsEmpty (k.setTask pid address task) := by
  intro other address' task' hslot hwait
  by_cases he : other = pid
  · subst he
    rw [setTask_same] at hslot
    cases hslot
    exact htask hwait
  · rw [setTask_other he] at hslot
    exact hempty other address' task' hslot hwait

theorem WaitsEmpty.drained {caller : Task} (hempty : WaitsEmpty k)
    (hdrained : Drained caller k next) : WaitsEmpty next := by
  intro pid address task hslot hwait
  cases hold : k.taskTable pid with
  | task oldAddress old =>
      obtain ⟨queue, count, hnext, hle, -⟩ := hdrained.kept pid oldAddress old hold
      have hzero := hempty pid oldAddress old hold
      rw [hnext] at hslot
      cases hslot
      exact Nat.eq_zero_of_le_zero (hzero hwait ▸ hle)
  | null => exact absurd hslot (free_ne_task (hdrained.unused pid (by rw [hold]; rfl)) address task)
  | empty => exact absurd hslot (free_ne_task (hdrained.unused pid (by rw [hold]; rfl)) address task)

theorem WaitsEmpty.congr (hempty : WaitsEmpty k) (heq : next.taskTable = k.taskTable) :
    WaitsEmpty next := by
  intro pid address task hslot
  rw [heq] at hslot
  exact hempty pid address task hslot

theorem WaitsEmpty.effect (hempty : WaitsEmpty k) (heffect : Effect call k next) :
    WaitsEmpty next := by
  cases heffect with
  | quit _ _ hquit => exact hempty.quit hquit
  | called _ hcalled => exact hempty.called hcalled
  | queued _ _ _ hslot heq =>
      subst heq
      apply hempty.setTask
      intro hwait
      -- a task that gets a packet does not wait for one
      simp only [enqueue] at hwait
      split at hwait
      · cases hwait
      · rename_i hother
        exact absurd hwait hother
  | drained _ _ _ hdrained => exact hempty.drained hdrained
  | awaits _ heq =>
      subst heq
      unfold enterIpcwaitStatus
      split
      · split
        · rename_i hzero
          exact hempty.setTask fun _ => hzero
        · exact hempty
      · exact hempty
  | woken hslot heq => exact (hempty.called ((wakeManager_only hslot).called hslot)).congr heq
  | same heq => exact hempty.congr heq

-- What the calls of a task find in the first word of a `task_t`.
def statusCode : Status → Nat
  | .active => 1
  | .res => 2
  | .iowait => 3
  | .ipcwait => 4
  | .procwait => 5
  | .vdevwait => 6

def layStatus (mem : Store) (address : Nat) (status : Status) : Store :=
  write mem address (leBytes 4 (statusCode status))

-- The memcpy of ipc_read_packet, with the caller's packet.
def copyPacket (mem : Store) (caller : Task) (payload : UInt32) : Store :=
  write mem (userAddress caller payload.toNat)
    ((caller.ipcQueue 0).payload.take (caller.ipcQueue 0).length)

-- The status of a task in memory, once the copy has run over it or not.
def statusBehind (k : Kernel) (current : Nat) (payload : UInt32) (pid : Nat) : Option Nat :=
  match k.taskTable current, k.taskTable pid with
  | .task _ caller, .task address task =>
      let mem := layStatus k.heap.mem address task.status
      some (leValue (read (copyPacket mem caller payload) address 4))
  | _, _ => none

end EchidnaOS.Vdev
