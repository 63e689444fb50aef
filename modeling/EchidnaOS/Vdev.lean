import EchidnaOS.Ipc
import EchidnaOS.Lib.SlotTable

namespace EchidnaOS.Vdev

open EchidnaOS.Lib EchidnaOS.Lib.SlotTable EchidnaOS.Lib.ByteStore EchidnaOS.Klib EchidnaOS.Ipc

def VDEV_MAX : Nat := 12
def SIZEOF_VDEV : Nat := 28
def SIZEOF_POINTER : Nat := 4
def IO_NOT_READY : Int := -5

inductive Readiness where
  | ready
  | notReady
  deriving DecidableEq, Repr

structure VdevT where
  pid : Nat
  statusIn : Readiness := .notReady
  payloadInAddr : Nat
  payloadInFlag : Nat
  statusOut : Readiness := .notReady
  payloadOutAddr : Nat
  payloadOutFlag : Nat

-- The kernel with `vdevs`; `pointer` is the address of the array.
structure Machine where
  kernel : Kernel
  pointer : Nat := 0
  vdevs : List VdevT := []

inductive Transfer where
  | read
  | write (payload : UInt8)

-- The manager's own calls. `vdevs[vdev]` is not checked; `none` is an access outside it.
def vdevInReady (m : Machine) (current : Nat) (vdev : Int) : Option (Int × Machine) :=
  (entryAt m.vdevs vdev).map fun entry =>
    if entry.pid ≠ current then (-1, m)
    else (0, { m with vdevs := setAt m.vdevs vdev { entry with statusIn := .ready } })

def vdevOutReady (m : Machine) (current : Nat) (vdev : Int) : Option (Int × Machine) :=
  (entryAt m.vdevs vdev).map fun entry =>
    if entry.pid ≠ current then (-1, m)
    else (0, { m with vdevs := setAt m.vdevs vdev { entry with statusOut := .ready } })

-- A manager that waits gets the number of the vdev in EAX.
def wakeManager (k : Kernel) (pid address : Nat) (task : Task) (vdev : Nat) : Kernel :=
  if task.status = .vdevwait then
    k.setTask pid address { task with status := .active, cpu := { task.cpu with eax := vdev } }
  else k

-- A client reads or writes one byte. The manager's entry of the task table is used without
-- a check, and `none` is a fault there.
def vdevIoWrapper (m : Machine) (vdev : Nat) (transfer : Transfer) : Option (Int × Machine) :=
  match m.vdevs[vdev]? with
  | none => none
  | some entry =>
      match transfer with
      | .read =>
          if entry.statusOut ≠ .ready then some (IO_NOT_READY, m)
          else
            match m.kernel.taskTable entry.pid with
            | .task address task =>
                let k := wakeManager m.kernel entry.pid address task vdev
                let mem := write k.heap.mem (userAddress task entry.payloadOutFlag) (leBytes 4 1)
                some ((mem (userAddress task entry.payloadOutAddr)).toNat,
                  { m with
                    kernel := { k with heap.mem := mem }
                    vdevs := m.vdevs.set vdev { entry with statusOut := .notReady } })
            | _ => none
      | .write payload =>
          if entry.statusIn ≠ .ready then some (IO_NOT_READY, m)
          else
            match m.kernel.taskTable entry.pid with
            | .task address task =>
                let k := wakeManager m.kernel entry.pid address task vdev
                let mem := write (write k.heap.mem (userAddress task entry.payloadInFlag) (leBytes 4 1))
                  (userAddress task entry.payloadInAddr) [payload]
                some (0, { m with
                  kernel := { k with heap.mem := mem }
                  vdevs := m.vdevs.set vdev { entry with statusIn := .notReady } })
            | _ => none

-- The bound of the four addresses, in 32-bit arithmetic.
def addressFits (task : Task) (address : Nat) : Bool :=
  address ≤ (task.pages * PAGE_SIZE + (2 ^ 32 - SIZEOF_POINTER)) % 2 ^ 32

-- The device that is added to the list besides is not used here.
def registerVdev (m : Machine) (current : Nat)
    (payloadInAddr payloadInFlag payloadOutAddr payloadOutFlag : UInt32) : Int × Machine :=
  match m.kernel.taskTable current with
  | .task _ task =>
      if VDEV_MAX ≤ m.vdevs.length then (-1, m)
      else if addressFits task payloadInAddr.toNat ∧ addressFits task payloadInFlag.toNat ∧
          addressFits task payloadOutAddr.toNat ∧ addressFits task payloadOutFlag.toNat then
        let block := krealloc m.kernel.heap m.pointer ((m.vdevs.length + 1) * SIZEOF_VDEV)
        let k := { m.kernel with heap := block.2 }
        if block.1 = 0 then (-1, { m with kernel := k })
        else
          (m.vdevs.length,
            { kernel := k
              pointer := block.1
              vdevs := m.vdevs ++ [{
                pid := current
                payloadInAddr := payloadInAddr.toNat
                payloadInFlag := payloadInFlag.toNat
                payloadOutAddr := payloadOutAddr.toNat
                payloadOutFlag := payloadOutFlag.toNat }] })
      else (-1, m)
  | _ => (-1, m)

def Machine.setStatus (m : Machine) (current : Nat) (change : Task → Task) : Machine :=
  match m.kernel.taskTable current with
  | .task address task => { m with kernel := m.kernel.setTask current address (change task) }
  | _ => m

def enterVdevwaitStatus (m : Machine) (current : Nat) : Machine :=
  m.setStatus current fun task => { task with status := .vdevwait }

-- The strings fetched from user memory are `dev`.
def enterIowaitStatus (m : Machine) (current : Nat) (dev : CString) (loc : Nat) (payload : UInt8)
    (type : Nat) : Machine :=
  m.setStatus current fun task =>
    { task with
      status := .iowait
      iowaitDev := dev
      iowaitLoc := loc
      iowaitType := type
      iowaitPayload := payload }

def enterIowaitStatus1 (m : Machine) (current : Nat) (handle : Int) (ptr : Nat) (len : Int)
    (type : Nat) (done : Int) : Machine :=
  m.setStatus current fun task =>
    { task with
      status := .iowait
      iowaitType := type
      iowaitHandle := handle
      iowaitPtr := ptr
      iowaitLen := len
      iowaitDone := done }

-- The system calls of a task. `other` are those that the task table alone is enough for,
-- and `io` is also what the scheduler repeats for a client that waits.
inductive Call where
  | other (action : EchidnaOS.Action)
  | send (current pid : Nat) (payload len : UInt32)
  | read (current : Nat) (payload : UInt32)
  | ipcwait (current : Nat)
  | iowait (current : Nat) (dev : CString) (loc : Nat) (payload : UInt8) (type : Nat)
  | iowait1 (current : Nat) (handle : Int) (ptr : Nat) (len : Int) (type : Nat) (done : Int)
  | vdevwait (current : Nat)
  | register (current : Nat) (payloadInAddr payloadInFlag payloadOutAddr payloadOutFlag : UInt32)
  | inReady (current : Nat) (vdev : Int)
  | outReady (current : Nat) (vdev : Int)
  | io (vdev : Nat) (transfer : Transfer)

def Call.caller : Call → Option Nat
  | .other _ => none
  | .send current _ _ _ => some current
  | .read current _ => some current
  | .ipcwait current => some current
  | .iowait current _ _ _ _ => some current
  | .iowait1 current _ _ _ _ _ => some current
  | .vdevwait current => some current
  | .register current _ _ _ _ => some current
  | .inReady current _ => some current
  | .outReady current _ => some current
  | .io _ _ => none

def Machine.effect (m : Machine) : Call → Option Machine
  | .other action => (EchidnaOS.step m.kernel action).map fun k => { m with kernel := k }
  | .send current pid payload len =>
      (ipcSendPacket m.kernel current pid payload len).map fun result => { m with kernel := result.2 }
  | .read current payload =>
      (ipcReadPacket m.kernel current payload).map fun result => { m with kernel := result.2 }
  | .ipcwait current => some { m with kernel := enterIpcwaitStatus m.kernel current }
  | .iowait current dev loc payload type =>
      some (enterIowaitStatus m current dev loc payload type)
  | .iowait1 current handle ptr len type done =>
      some (enterIowaitStatus1 m current handle ptr len type done)
  | .vdevwait current => some (enterVdevwaitStatus m current)
  | .register current payloadInAddr payloadInFlag payloadOutAddr payloadOutFlag =>
      some (registerVdev m current payloadInAddr payloadInFlag payloadOutAddr payloadOutFlag).2
  | .inReady current vdev => (vdevInReady m current vdev).map (·.2)
  | .outReady current vdev => (vdevOutReady m current vdev).map (·.2)
  | .io vdev transfer => (vdevIoWrapper m vdev transfer).map (·.2)

-- Only a task that is running makes calls.
def step (m : Machine) (call : Call) : Option Machine :=
  if call.caller.all m.kernel.isActive then m.effect call else none

-- The calls made from boot on, on a machine with four megabytes.
def bootMachine (calls : List Call) : Option Machine :=
  (taskInit emptyHeap fun _ => 0).bind fun k => Run.run step { kernel := k } calls

end EchidnaOS.Vdev
