import EchidnaOS.Task.Memory
import EchidnaOS.Vdev.Table

namespace EchidnaOS.Vdev

open EchidnaOS.Lib EchidnaOS.Klib EchidnaOS.Ipc

-- `char iowait_dev[2048]` of a `task_t`.
def IOWAIT_DEV_SIZE : Nat := 2048

-- The flag and the byte of a transfer, in the memory of the manager.
def Transfer.flag : Transfer → VdevT → Nat
  | .read, entry => entry.payloadOutFlag
  | .write _, entry => entry.payloadInFlag

def Transfer.byte : Transfer → VdevT → Nat
  | .read, entry => entry.payloadOutAddr
  | .write _, entry => entry.payloadInAddr

-- Both lie in the manager's segment, which may be smaller than when they were registered.
def AccessInside (m : Machine) (vdev : Nat) (transfer : Transfer) : Prop :=
  ∀ entry, m.vdevs[vdev]? = some entry → transfer.status entry = .ready →
    ∀ address task, m.kernel.taskTable entry.pid = .task address task →
      transfer.flag entry + 4 ≤ task.pages * PAGE_SIZE % 2 ^ 32 ∧
        transfer.byte entry < task.pages * PAGE_SIZE % 2 ^ 32

-- A read that pushes packets back finds as many in the queue of the task it takes for the
-- owner.
def PushesBackOwn (k : Kernel) (current : Nat) : Prop :=
  ∀ address caller, k.taskTable current = .task address caller → 1 < caller.ipcQueuePtr →
    ∀ senderAddress sender, k.taskTable (caller.ipcQueue 0).sender = .task senderAddress sender →
      caller.ipcQueuePtr ≤ sender.ipcQueuePtr

-- What a call writes stays in the block or the array that it is for. The records of the kernel
-- lie around it: a call that writes over them does more than `step` says.
def WritesInside (m : Machine) : Call → Prop
  | .other action => KeepsSegments m.kernel action
  | .send current pid payload len => pid < KRNL_MAX_TASKS ∧ SendsInside m.kernel current payload len
  | .read current payload => PushesBackOwn m.kernel current ∧ ReadsInside m.kernel current payload
  | .iowait _ dev _ _ _ => dev.length < IOWAIT_DEV_SIZE
  | .inReady _ vdev => 0 ≤ vdev ∧ vdev < m.vdevs.length
  | .outReady _ vdev => 0 ≤ vdev ∧ vdev < m.vdevs.length
  | .io vdev transfer => AccessInside m vdev transfer
  | _ => True

section Decidable

instance decidableKeepsSegments (k : Kernel) : DecidablePred (KeepsSegments k)
  | .execute _ _ (some file) _ | .executeBlock _ _ _ (some file) _ =>
      inferInstanceAs (Decidable (programPages file.size < 2 ^ 20))
  | .resizeHeap pid _ => decidableForallTask (k.taskTable pid)
  | .execve _ _ _ (some _) _ => inferInstanceAs (Decidable (_ ∧ _))
  | .execute _ _ none _ | .executeBlock _ _ _ none _ | .execve _ _ _ none _ | .fork .. | .quit .. |
    .switch .. | .kernel .. => isTrue trivial

instance decidableAccessInside (m : Machine) (vdev : Nat) (transfer : Transfer) :
    Decidable (AccessInside m vdev transfer) :=
  have (entry : VdevT) : Decidable (transfer.status entry = .ready →
      ∀ address task, m.kernel.taskTable entry.pid = .task address task →
        transfer.flag entry + 4 ≤ task.pages * PAGE_SIZE % 2 ^ 32 ∧
          transfer.byte entry < task.pages * PAGE_SIZE % 2 ^ 32) :=
    inferInstanceAs (Decidable (_ → _))
  Run.decidableForallSome m.vdevs[vdev]? _

instance decidablePushesBackOwn (k : Kernel) (current : Nat) : Decidable (PushesBackOwn k current) :=
  have (caller : Task) : Decidable (1 < caller.ipcQueuePtr →
      ∀ senderAddress sender, k.taskTable (caller.ipcQueue 0).sender = .task senderAddress sender →
        caller.ipcQueuePtr ≤ sender.ipcQueuePtr) :=
    inferInstanceAs (Decidable (_ → _))
  decidableForallTask (k.taskTable current)

instance decidableWritesInside (m : Machine) : DecidablePred (WritesInside m)
  | .other action => decidableKeepsSegments m.kernel action
  | .send .. | .read .. => inferInstanceAs (Decidable (_ ∧ _))
  | .iowait _ dev _ _ _ => inferInstanceAs (Decidable (dev.length < IOWAIT_DEV_SIZE))
  | .inReady _ vdev | .outReady _ vdev => inferInstanceAs (Decidable (0 ≤ vdev ∧ vdev < m.vdevs.length))
  | .io vdev transfer => decidableAccessInside m vdev transfer
  | .ipcwait _ | .iowait1 .. | .vdevwait _ | .register .. => isTrue trivial

end Decidable

end EchidnaOS.Vdev
