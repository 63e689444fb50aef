import EchidnaOS.Lib.Run
import EchidnaOS.Task.Step

namespace EchidnaOS.Ipc

open EchidnaOS.Lib EchidnaOS.Lib.ByteStore EchidnaOS.Klib

def SIZEOF_IPC_PACKET : Nat := 12

-- krealloc of a queue from one number of packets to another: in place while the number
-- of pages is the same, else copied into a zeroed block.
def reallocQueue (queue : Nat → IpcPacket) (old new : Nat) : Nat → IpcPacket :=
  if divRoundup (old * SIZEOF_IPC_PACKET % 2 ^ 32) PAGE_SIZE =
      divRoundup (new * SIZEOF_IPC_PACKET % 2 ^ 32) PAGE_SIZE then queue
  else fun index => if index < min old new then queue index else {}

-- The limit check of both calls, in 32-bit arithmetic.
def withinLimit (task : Task) (payload length : Nat) : Bool :=
  (payload + length) % 2 ^ 32 < task.pages * PAGE_SIZE % 2 ^ 32

def userAddress (task : Task) (payload : Nat) : Nat := (payload + task.base) % 2 ^ 32

def enqueue (task : Task) (packet : IpcPacket) : Task :=
  { task with
    ipcQueue := Function.update
      (reallocQueue task.ipcQueue task.ipcQueuePtr (task.ipcQueuePtr + 1)) task.ipcQueuePtr packet
    ipcQueuePtr := task.ipcQueuePtr + 1
    status := if task.status = .ipcwait then .active else task.status }

def packetOf (k : Kernel) (current : Nat) (task : Task) (payload len : UInt32) : IpcPacket where
  sender := current
  length := len.toNat
  payload := read k.heap.mem (userAddress task payload.toNat) len.toNat

-- A failed check terminates the caller. The new kernel comes with the packet that was
-- queued, if one was; `none` is a fault inside the kernel.
def ipcSendPacket (k : Kernel) (current pid : Nat) (payload len : UInt32) :
    Option (Option IpcPacket × Kernel) :=
  match k.taskTable current with
  | .task _ caller =>
      if withinLimit caller payload.toNat len.toNat then
        match k.taskTable pid with
        | .task address task =>
            let packet := packetOf k current caller payload len
            some (some packet, k.setTask pid address (enqueue task packet))
        | _ => (taskQuit k current (-1)).map (none, ·)
      else (taskQuit k current (-1)).map (none, ·)
  | _ => none

-- The loop of ipc_read_packet, from the last packet down.
def pushBack : Nat → (Nat → IpcPacket) → Nat → IpcPacket
  | 0, queue => queue
  | index + 1, queue => pushBack index (Function.update queue index (queue (index + 1)))

-- The loop works on the queue of the task that sent the packet.
def pushQueueBack (k : Kernel) (pid count : Nat) : Option Kernel :=
  if count - 1 = 0 then some k
  else
    match k.taskTable pid with
    | .task address task =>
        some (k.setTask pid address { task with ipcQueue := pushBack (count - 1) task.ipcQueue })
    | _ => none

def freeQueueEntry (k : Kernel) (current : Nat) : Kernel :=
  match k.taskTable current with
  | .task address task =>
      k.setTask current address { task with
        ipcQueue := reallocQueue task.ipcQueue task.ipcQueuePtr (task.ipcQueuePtr - 1)
        ipcQueuePtr := task.ipcQueuePtr - 1 }
  | _ => k

-- The new kernel comes with the packet the caller obtained, if it did: the sender that
-- is returned, and the bytes that now stand in the caller's memory.
def ipcReadPacket (k : Kernel) (current : Nat) (payload : UInt32) :
    Option (Option IpcPacket × Kernel) :=
  match k.taskTable current with
  | .task _ task =>
      if task.ipcQueuePtr = 0 then some (none, k)
      else if withinLimit task payload.toNat (task.ipcQueue 0).length then
        let mem := write k.heap.mem (userAddress task payload.toNat) (task.ipcQueue 0).payload
        let obtained : IpcPacket := {
          sender := (task.ipcQueue 0).sender
          length := (task.ipcQueue 0).length
          payload := read mem (userAddress task payload.toNat) (task.ipcQueue 0).length }
        (pushQueueBack { k with heap.mem := mem } (task.ipcQueue 0).sender task.ipcQueuePtr).map
          fun k => (some obtained, freeQueueEntry k current)
      else (taskQuit k current (-1)).map (none, ·)
  | _ => none

def enterIpcwaitStatus (k : Kernel) (current : Nat) : Kernel :=
  match k.taskTable current with
  | .task address task =>
      if task.ipcQueuePtr = 0 then k.setTask current address { task with status := .ipcwait } else k
  | _ => k

-- A task writes into its own segment.
def storeByte (k : Kernel) (current : Nat) (offset : UInt32) (value : UInt8) : Kernel :=
  match k.taskTable current with
  | .task _ task =>
      if offset.toNat < task.pages * PAGE_SIZE then
        { k with heap.mem := write k.heap.mem (userAddress task offset.toNat) [value] }
      else k
  | _ => k

-- The packets sent to each task and the packets it obtained, in order.
structure Traffic where
  kernel : Kernel
  sent : Nat → List IpcPacket := fun _ => []
  received : Nat → List IpcPacket := fun _ => []

inductive Call where
  | send (current pid : Nat) (payload len : UInt32)
  | read (current : Nat) (payload : UInt32)
  | await (current : Nat)
  | store (current : Nat) (offset : UInt32) (value : UInt8)

def append (log : Nat → List IpcPacket) (pid : Nat) (packet : Option IpcPacket) :
    Nat → List IpcPacket :=
  Function.update log pid (log pid ++ packet.toList)

def step (t : Traffic) : Call → Option Traffic
  | .send current pid payload len =>
      if t.kernel.isActive current ∧ pid < KRNL_MAX_TASKS then
        (ipcSendPacket t.kernel current pid payload len).map fun result =>
          { t with kernel := result.2, sent := append t.sent pid result.1 }
      else none
  | .read current payload =>
      if t.kernel.isActive current then
        (ipcReadPacket t.kernel current payload).map fun result =>
          { t with kernel := result.2, received := append t.received current result.1 }
      else none
  | .await current =>
      if t.kernel.isActive current then
        some { t with kernel := enterIpcwaitStatus t.kernel current }
      else none
  | .store current offset value =>
      if t.kernel.isActive current then
        some { t with kernel := storeByte t.kernel current offset value }
      else none

-- The packets waiting for a task, oldest first.
def Slot.queue : Slot → List IpcPacket
  | .task _ owner => (List.range owner.ipcQueuePtr).map owner.ipcQueue
  | _ => []

def queueOf (k : Kernel) (pid : Nat) : List IpcPacket := Slot.queue (k.taskTable pid)

-- The range that the check accepts lies in the task's segment. A sum that wraps around passes
-- too: memcpy then runs over the records that the kernel keeps in front of the segment, which are
-- not in `heap.mem`.
def RangeInside (task : Task) (payload length : Nat) : Prop :=
  withinLimit task payload length = true → payload + length ≤ task.pages * PAGE_SIZE % 2 ^ 32

def SendsInside (k : Kernel) (current : Nat) (payload len : UInt32) : Prop :=
  ∀ address task, k.taskTable current = .task address task →
    RangeInside task payload.toNat len.toNat

def ReadsInside (k : Kernel) (current : Nat) (payload : UInt32) : Prop :=
  ∀ address task, k.taskTable current = .task address task → task.ipcQueuePtr ≠ 0 →
    RangeInside task payload.toNat (task.ipcQueue 0).length

def CopiesInside (t : Traffic) : Call → Prop
  | .send current _ payload len => SendsInside t.kernel current payload len
  | .read current payload => ReadsInside t.kernel current payload
  | _ => True

-- A read is made with one packet waiting, or with two when the first is the caller's own.
def ReadsShortQueue (t : Traffic) : Call → Prop
  | .read current _ => ∀ address task, t.kernel.taskTable current = .task address task →
      task.ipcQueuePtr ≤ 1 ∨ task.ipcQueuePtr = 2 ∧ (task.ipcQueue 0).sender = current
  | _ => True

def Orderly (t : Traffic) (call : Call) : Prop := ReadsShortQueue t call ∧ CopiesInside t call

end EchidnaOS.Ipc
