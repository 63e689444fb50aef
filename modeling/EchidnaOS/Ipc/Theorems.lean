import EchidnaOS.Ipc
import EchidnaOS.Task.Wait

namespace EchidnaOS.Ipc

open EchidnaOS.Lib EchidnaOS.Lib.ByteStore EchidnaOS.Lib.Run EchidnaOS.Klib

variable {k next : Kernel} {current pid address : Nat} {task : Task} {t after : Traffic}

theorem queueOf_task (hslot : k.taskTable pid = .task address task) :
    queueOf k pid = (List.range task.ipcQueuePtr).map task.ipcQueue := by
  rw [queueOf, hslot, Slot.queue]

theorem queueOf_setTask (k : Kernel) (pid address : Nat) (task : Task) :
    queueOf (k.setTask pid address task) pid =
      (List.range task.ipcQueuePtr).map task.ipcQueue :=
  queueOf_task (setTask_same k pid address task)

theorem queueOf_setTask_other {other : Nat} (hne : other ≠ pid) :
    queueOf (k.setTask pid address task) other = queueOf k other := by
  rw [queueOf, setTask_other hne, queueOf]

-- The packets that both sizes hold survive a krealloc.
theorem reallocQueue_apply (queue : Nat → IpcPacket) {old new index : Nat}
    (hold : index < old) (hnew : index < new) : reallocQueue queue old new index = queue index := by
  unfold reallocQueue
  split
  · rfl
  · exact if_pos (by omega)

theorem enqueue_queue (task : Task) (packet : IpcPacket) :
    (List.range (enqueue task packet).ipcQueuePtr).map (enqueue task packet).ipcQueue =
      (List.range task.ipcQueuePtr).map task.ipcQueue ++ [packet] := by
  unfold enqueue
  dsimp only
  rw [List.range_succ, List.map_append, List.map_singleton, Function.update_self]
  congr 1
  apply List.map_congr_left
  intro index hindex
  have hlt : index < task.ipcQueuePtr := List.mem_range.mp hindex
  rw [Function.update_of_ne (by omega), reallocQueue_apply _ hlt (by omega)]

-- Quitting empties the table entry; the parent's queue is not touched by waking it.
theorem taskQuit_queue {value : Int} (hquit : taskQuit k pid value = some next) (other : Nat) :
    queueOf next other = if other = pid then [] else queueOf k other := by
  obtain ⟨_, quitting, parentAddress, parent, -, hparent, htable⟩ := taskQuit_table hquit
  unfold queueOf
  rw [htable]
  split
  · rename_i he
    rw [he, Function.update_self]
    rfl
  · rename_i hne
    rw [Function.update_of_ne hne]
    unfold wakeParent
    split
    · by_cases he : other = quitting.parent
      · subst he
        rw [setTask_same, hparent, Slot.queue, Slot.queue]
      · rw [setTask_other he]
    · rfl

theorem taskQuit_gone {value : Int} (hquit : taskQuit k pid value = some next) :
    (next.taskTable pid).status = none := by
  obtain ⟨_, _, _, _, -, -, htable⟩ := taskQuit_table hquit
  rw [htable, Function.update_self]
  rfl

theorem taskQuit_live {value : Int} (hquit : taskQuit k pid value = some next) {other : Nat}
    (hlive : (next.taskTable other).status ≠ none) : (k.taskTable other).status ≠ none := by
  obtain ⟨_, quitting, parentAddress, parent, -, hparent, htable⟩ := taskQuit_table hquit
  by_cases he : other = pid
  · rw [he, taskQuit_gone hquit] at hlive
    exact absurd rfl hlive
  · rw [htable, Function.update_of_ne he] at hlive
    by_cases hp : other = quitting.parent
    · rw [hp, hparent]
      exact Option.some_ne_none _
    · rwa [(wakeParent_only value hparent).others other hp] at hlive

-- What a send can do: queue one packet at the end, or terminate its caller.
theorem ipcSendPacket_cases {payload len : UInt32} {result : Option IpcPacket × Kernel}
    (hsend : ipcSendPacket k current pid payload len = some result) :
    (∃ address task caller, k.taskTable pid = .task address task ∧
      result = (some (packetOf k current caller payload len),
        k.setTask pid address (enqueue task (packetOf k current caller payload len)))) ∨
    (result.1 = none ∧ taskQuit k current (-1) = some result.2) := by
  unfold ipcSendPacket at hsend
  split at hsend
  · rename_i caller _
    split at hsend
    · split at hsend
      · rename_i address task hslot
        cases hsend
        exact Or.inl ⟨address, task, caller, hslot, rfl⟩
      · obtain ⟨quit, hquit, rfl⟩ := Option.map_eq_some_iff.mp hsend
        exact Or.inr ⟨rfl, hquit⟩
    · obtain ⟨quit, hquit, rfl⟩ := Option.map_eq_some_iff.mp hsend
      exact Or.inr ⟨rfl, hquit⟩
  · cases hsend

-- On a short queue the loop moves at most the second packet, and within the caller's queue.
theorem pushQueueBack_short (hslot : k.taskTable current = .task address task)
    (hshort : task.ipcQueuePtr = 1 ∨ task.ipcQueuePtr = 2 ∧ (task.ipcQueue 0).sender = current)
    {heap : Heap} (hpush : pushQueueBack { k with heap := heap } (task.ipcQueue 0).sender
      task.ipcQueuePtr = some next) :
    ∃ queue, next.taskTable = Function.update k.taskTable current
        (.task address { task with ipcQueue := queue }) ∧
      ∀ index, index < task.ipcQueuePtr - 1 → queue index = task.ipcQueue (index + 1) := by
  unfold pushQueueBack at hpush
  rcases hshort with hone | ⟨htwo, hsender⟩
  · rw [if_pos (by omega)] at hpush
    cases hpush
    refine ⟨task.ipcQueue, ?_, fun index hlt => by omega⟩
    show k.taskTable = Function.update k.taskTable current (.task address task)
    rw [← hslot, Function.update_eq_self]
  · dsimp only at hpush
    rw [if_neg (by omega), hsender, hslot] at hpush
    cases hpush
    refine ⟨_, rfl, ?_⟩
    intro index hlt
    have hzero : index = 0 := by omega
    subst hzero
    simp [htwo, pushBack]

theorem freeQueueEntry_table {queue : Nat → IpcPacket}
    (hslot : k.taskTable current = .task address { task with ipcQueue := queue }) :
    (freeQueueEntry k current).taskTable = Function.update k.taskTable current
      (.task address { task with
        ipcQueue := reallocQueue queue task.ipcQueuePtr (task.ipcQueuePtr - 1)
        ipcQueuePtr := task.ipcQueuePtr - 1 }) := by
  rw [freeQueueEntry, hslot]
  rfl

-- What a read of a short queue can do: nothing, terminate its caller, or take the first
-- packet off the caller's queue and leave every other entry of the table alone.
theorem ipcReadPacket_cases {payload : UInt32} {result : Option IpcPacket × Kernel}
    (hslot : k.taskTable current = .task address task)
    (hshort : task.ipcQueuePtr ≤ 1 ∨ task.ipcQueuePtr = 2 ∧ (task.ipcQueue 0).sender = current)
    (hframed : ∀ packet ∈ queueOf k current, packet.payload.length = packet.length)
    (hread : ipcReadPacket k current payload = some result) :
    result = (none, k) ∨ (result.1 = none ∧ taskQuit k current (-1) = some result.2) ∨
    ∃ packet task', result.1 = some packet ∧
      queueOf k current = packet :: queueOf result.2 current ∧
      result.2.taskTable = Function.update k.taskTable current (.task address task') := by
  unfold ipcReadPacket at hread
  rw [hslot] at hread
  dsimp only at hread
  split at hread
  · cases hread
    exact Or.inl rfl
  rename_i hpending
  split at hread
  · obtain ⟨pushed, hpush, rfl⟩ := Option.map_eq_some_iff.mp hread
    have hqueue : queueOf k current = task.ipcQueue 0 ::
        (List.range (task.ipcQueuePtr - 1)).map fun index => task.ipcQueue (index + 1) := by
      obtain ⟨count, hcount⟩ := Nat.exists_eq_succ_of_ne_zero hpending
      rw [queueOf_task hslot, hcount, List.range_succ_eq_map, List.map_cons, List.map_map]
      rfl
    -- the bytes are read back from where they were just written
    have hlength := hframed (task.ipcQueue 0) (by rw [hqueue]; exact List.mem_cons_self)
    have hobtained (mem : Store) (start : Nat) :
        read (write mem start (task.ipcQueue 0).payload) start (task.ipcQueue 0).length =
          (task.ipcQueue 0).payload :=
      read_write_same mem start _ _ hlength.symm
    have hshort' : task.ipcQueuePtr = 1 ∨
        task.ipcQueuePtr = 2 ∧ (task.ipcQueue 0).sender = current :=
      hshort.imp_left fun hle => by omega
    obtain ⟨queue, htable, hmoved⟩ := pushQueueBack_short hslot hshort' hpush
    have hpushed : pushed.taskTable current = .task address { task with ipcQueue := queue } := by
      rw [htable, Function.update_self]
    have hfreed := freeQueueEntry_table hpushed
    rw [htable, Function.update_idem] at hfreed
    refine Or.inr (Or.inr ⟨task.ipcQueue 0, _, ?_, ?_, hfreed⟩)
    · dsimp only
      rw [hobtained]
    · rw [hqueue]
      congr 1
      rw [queueOf, hfreed, Function.update_self, Slot.queue]
      apply List.map_congr_left
      intro index hindex
      have hlt := List.mem_range.mp hindex
      dsimp only
      rw [reallocQueue_apply queue (by omega) hlt, hmoved index hlt]
  · obtain ⟨quit, hquit, rfl⟩ := Option.map_eq_some_iff.mp hread
    exact Or.inr (Or.inl ⟨rfl, hquit⟩)

-- What was sent to a live task is what it obtained followed by what waits for it.
structure Fifo (t : Traffic) : Prop where
  delivered : ∀ pid, t.received pid <+: t.sent pid
  pending : ∀ pid, (t.kernel.taskTable pid).status ≠ none →
    t.sent pid = t.received pid ++ queueOf t.kernel pid
  framed : ∀ pid, ∀ packet ∈ queueOf t.kernel pid, packet.payload.length = packet.length

@[simp] theorem append_none (log : Nat → List IpcPacket) (pid : Nat) :
    append log pid none = log := by
  simp [append]

theorem append_same (log : Nat → List IpcPacket) (pid : Nat) (packet : IpcPacket) :
    append log pid (some packet) pid = log pid ++ [packet] := by
  simp [append]

theorem append_other (log : Nat → List IpcPacket) {pid other : Nat} (packet : Option IpcPacket)
    (hne : other ≠ pid) : append log pid packet other = log other := by
  simp [append, hne]

theorem Fifo.same (hfifo : Fifo t)
    (hlive : ∀ pid, (next.taskTable pid).status ≠ none → (t.kernel.taskTable pid).status ≠ none)
    (hqueue : ∀ pid, queueOf next pid = queueOf t.kernel pid) :
    Fifo { t with kernel := next } where
  delivered := hfifo.delivered
  pending pid h := by rw [hqueue]; exact hfifo.pending pid (hlive pid h)
  framed pid := by rw [hqueue]; exact hfifo.framed pid

theorem Fifo.quit (hfifo : Fifo t) {value : Int}
    (hquit : taskQuit t.kernel current value = some next) : Fifo { t with kernel := next } where
  delivered := hfifo.delivered
  pending pid h := by
    have hne : pid ≠ current := by
      rintro rfl
      exact h (taskQuit_gone hquit)
    rw [taskQuit_queue hquit, if_neg hne]
    exact hfifo.pending pid (taskQuit_live hquit h)
  framed pid packet hmem := by
    rw [taskQuit_queue hquit] at hmem
    split at hmem
    · cases hmem
    · exact hfifo.framed pid packet hmem

theorem Fifo.send (hfifo : Fifo t) {payload len : UInt32} {result : Option IpcPacket × Kernel}
    (hsend : ipcSendPacket t.kernel current pid payload len = some result) :
    Fifo { t with kernel := result.2, sent := append t.sent pid result.1 } := by
  rcases ipcSendPacket_cases hsend with ⟨address, task, caller, hslot, rfl⟩ | ⟨hnone, hquit⟩
  · have hlive : (t.kernel.taskTable pid).status ≠ none := by
      rw [hslot]
      exact Option.some_ne_none _
    generalize hpacket : packetOf t.kernel current caller payload len = packet
    have hqueue : queueOf (t.kernel.setTask pid address (enqueue task packet)) pid =
        queueOf t.kernel pid ++ [packet] := by
      rw [queueOf_setTask, enqueue_queue, queueOf_task hslot]
    constructor
    · intro other
      by_cases he : other = pid
      · subst he
        dsimp only
        rw [append_same]
        exact (hfifo.delivered other).trans (List.prefix_append _ _)
      · dsimp only
        rw [append_other _ _ he]
        exact hfifo.delivered other
    · intro other hother
      by_cases he : other = pid
      · subst he
        dsimp only
        rw [append_same, hqueue, hfifo.pending other hlive, List.append_assoc]
      · dsimp only at hother ⊢
        rw [setTask_other he] at hother
        rw [append_other _ _ he, queueOf_setTask_other he]
        exact hfifo.pending other hother
    · intro other old hmem
      dsimp only at hmem
      by_cases he : other = pid
      · subst he
        rw [hqueue, List.mem_append, List.mem_singleton] at hmem
        rcases hmem with hmem | rfl
        · exact hfifo.framed other old hmem
        · rw [← hpacket]
          exact read_length _ _ _
      · rw [queueOf_setTask_other he] at hmem
        exact hfifo.framed other old hmem
  · rw [hnone, append_none]
    exact hfifo.quit hquit

theorem Fifo.read (hfifo : Fifo t) {payload : UInt32} {result : Option IpcPacket × Kernel}
    (hguard : ReadsShortQueue t (.read current payload))
    (hread : ipcReadPacket t.kernel current payload = some result)
    (hslot : t.kernel.taskTable current = .task address task) :
    Fifo { t with kernel := result.2, received := append t.received current result.1 } ∧
      ∀ other, other ≠ current → queueOf result.2 other = queueOf t.kernel other := by
  have hcases := ipcReadPacket_cases hslot (hguard address task hslot) (hfifo.framed current) hread
  rcases hcases with rfl | ⟨hnone, hquit⟩ | ⟨packet, task', hsome, hqueue, htable⟩
  · rw [append_none]
    exact ⟨hfifo, fun _ _ => rfl⟩
  · rw [hnone, append_none]
    refine ⟨hfifo.quit hquit, fun other hne => ?_⟩
    rw [taskQuit_queue hquit, if_neg hne]
  · have hothers : ∀ other, other ≠ current → queueOf result.2 other = queueOf t.kernel other := by
      intro other hne
      rw [queueOf, htable, Function.update_of_ne hne, queueOf]
    have hlive : (t.kernel.taskTable current).status ≠ none := by
      rw [hslot]
      exact Option.some_ne_none _
    have hsent : t.sent current =
        t.received current ++ [packet] ++ queueOf result.2 current := by
      rw [hfifo.pending current hlive, hqueue, List.append_assoc, List.singleton_append]
    rw [hsome]
    refine ⟨⟨?_, ?_, ?_⟩, hothers⟩
    · intro other
      by_cases he : other = current
      · subst he
        dsimp only
        rw [append_same, hsent]
        exact List.prefix_append _ _
      · dsimp only
        rw [append_other _ _ he]
        exact hfifo.delivered other
    · intro other hother
      dsimp only at hother ⊢
      by_cases he : other = current
      · subst he
        rw [append_same, hsent]
      · rw [htable, Function.update_of_ne he] at hother
        rw [append_other _ _ he, hothers other he]
        exact hfifo.pending other hother
    · intro other old hmem
      dsimp only at hmem
      by_cases he : other = current
      · subst he
        exact hfifo.framed other old (by rw [hqueue]; exact List.mem_cons_of_mem _ hmem)
      · rw [hothers other he] at hmem
        exact hfifo.framed other old hmem

section Decidable

variable {p : Nat → Task → Prop}

theorem forall_task : (∀ address' task', Slot.task address task = .task address' task' →
    p address' task') ↔ p address task := by
  constructor
  · exact fun h => h address task rfl
  · rintro h _ _ heq
    cases heq
    exact h

theorem forall_null : ∀ address task, Slot.null = .task address task → p address task :=
  fun _ _ heq => Slot.noConfusion heq

theorem forall_empty : ∀ address task, Slot.empty = .task address task → p address task :=
  fun _ _ heq => Slot.noConfusion heq

instance decidableForallTask [∀ address task, Decidable (p address task)] :
    ∀ slot : Slot, Decidable (∀ address task, slot = .task address task → p address task)
  | .null => isTrue forall_null
  | .empty => isTrue forall_empty
  | .task _ _ => decidable_of_iff _ forall_task.symm

instance decidableRangeInside (task : Task) (payload length : Nat) :
    Decidable (RangeInside task payload length) :=
  inferInstanceAs (Decidable (_ → _))

instance decidableSendsInside (k : Kernel) (current : Nat) (payload len : UInt32) :
    Decidable (SendsInside k current payload len) :=
  decidableForallTask (k.taskTable current)

instance decidableReadsInside (k : Kernel) (current : Nat) (payload : UInt32) :
    Decidable (ReadsInside k current payload) :=
  decidableForallTask (k.taskTable current)

instance decidableReadsShortQueue (t : Traffic) : DecidablePred (ReadsShortQueue t)
  | .read current _ => decidableForallTask (t.kernel.taskTable current)
  | .send .. | .await _ | .store .. => isTrue trivial

instance decidableCopiesInside (t : Traffic) : DecidablePred (CopiesInside t)
  | .send current _ payload len => decidableSendsInside t.kernel current payload len
  | .read current payload => decidableReadsInside t.kernel current payload
  | .await _ | .store .. => isTrue trivial

instance decidableOrderly (t : Traffic) (call : Call) : Decidable (Orderly t call) :=
  inferInstanceAs (Decidable (_ ∧ _))

end Decidable

end EchidnaOS.Ipc
