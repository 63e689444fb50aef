import EchidnaOS.Devfs
import EchidnaOS.Lib.Scan
import EchidnaOS.Vdev.Inside

namespace EchidnaOS.Scheduler

open EchidnaOS.Lib.ByteStore EchidnaOS.Lib.Run EchidnaOS.Lib.Scan EchidnaOS.Devfs EchidnaOS.Vdev

-- What a poll does: the vdevs it gets to, the objects and the memory that the drivers on its
-- way change, what it returns, and the read_stat or write_stat that it leaves.
structure Poll where
  accesses : List (Nat × Transfer) := []
  requests : List Request := []
  memory : Store → Store := id
  result : Int
  stat : Bool := false

-- The types 0 and 1 are vfs_kread and vfs_kwrite, 2 and 3 are read and write.
def Poll.completes (poll : Poll) (iowaitType : Nat) : Bool :=
  if iowaitType ≤ 1 then poll.result ≠ Vdev.IO_NOT_READY else !poll.stat

-- A vdev that was not registered has no device.
def pollVdev (m : Machine) (access : Nat × Transfer) : Option Machine :=
  if access.1 < m.vdevs.length then (vdevIoWrapper m access.1 access.2).map (·.2) else some m

-- `none` is an access to a vdev whose manager is not in the task table any more.
def pollDrivers (m : Machine) (poll : Poll) : Option Machine :=
  (poll.accesses.foldlM pollVdev m).map fun m =>
    let k := m.kernel.requests poll.requests
    { m with kernel := { k with heap.mem := poll.memory k.heap.mem } }

-- The machine while task_scheduler looks for a task, and the number of polls it has made.
structure Scan where
  machine : Machine
  polled : Nat := 0

inductive Outcome where
  | dispatch (pid : Nat) (m : Machine)
  | idle (m : Machine)
  | panic
  | fault
  | spinning

-- The registers and the status of a task whose poll completes, and `iowait_done` of one
-- whose poll does not.
def completeIo (result : Int) (task : Task) : Task :=
  if task.iowaitType ≤ 1 then { task.withEax (lowHalf result) with status := .active }
  else { task.withEax (lowHalf (toInt (task.iowaitDone + result))) with status := .active }

def retryIo (result : Int) (task : Task) : Task :=
  if task.iowaitType ≤ 1 then task else { task with iowaitDone := toInt (task.iowaitDone + result) }

-- The switch on `iowait_type`.
def pollTask (polls : Nat → Poll) (pid iowaitType : Nat) (s : Scan) : Verdict Scan Outcome :=
  if 3 < iowaitType then .take .panic
  else
    match pollDrivers s.machine (polls s.polled) with
    | none => .take .fault
    | some m =>
        let result := (polls s.polled).result
        if (polls s.polled).completes iowaitType then
          .take (.dispatch pid (m.setStatus pid (completeIo result)))
        else .pass { machine := m.setStatus pid (retryIo result), polled := s.polled + 1 }

-- An entry of the table that is not NULL. The segments that a dispatch loads are those of
-- the task.
def visit (polls : Nat → Poll) (pid : Nat) (s : Scan) : Verdict Scan Outcome :=
  match s.machine.kernel.taskTable pid with
  | .task _ task =>
      match task.status with
      | .iowait => pollTask polls pid task.iowaitType s
      | .active => .take (.dispatch pid s.machine)
      | .ipcwait | .procwait | .vdevwait | .res => .pass s
  | _ => .pass s

-- The loop of task_scheduler. At the first NULL entry it idles, unless a task has been
-- dispatched since it was last there.
def schedulerLoop (polls : Nat → Poll) : Nat → Nat → Bool → Scan → Outcome
  | 0, _, _, _ => .spinning
  | fuel + 1, currentTask, idleCpu, s =>
      match s.machine.kernel.taskTable currentTask with
      | .null => if idleCpu then .idle s.machine else schedulerLoop polls fuel 0 true s
      | _ =>
          match visit polls currentTask s with
          | .take outcome => outcome
          | .pass s => schedulerLoop polls fuel (currentTask + 1) idleCpu s

-- Two passes over the table, and the NULL entry behind each of them.
def taskScheduler (polls : Nat → Poll) (currentTask : Nat) (idleCpu : Bool) (m : Machine) : Outcome :=
  schedulerLoop polls (2 * (KRNL_MAX_TASKS + 1)) currentTask idleCpu { machine := m }

-- The CPU runs `current_task`, or it idles.
structure System where
  machine : Machine
  currentTask : Nat := 0
  idleCpu : Bool := true
  running : Bool := false

-- A timer interrupt, or a call of the running task, with the registers that are saved and
-- what the polls of the scheduler will do.
inductive Event where
  | timer (cpu : GprState) (polls : Nat → Poll)
  | call (call : Call) (cpu : GprState) (polls : Nat → Poll)

def Event.polls : Event → Nat → Poll
  | .timer _ polls => polls
  | .call _ _ polls => polls

def actor : EchidnaOS.Action → Option Nat
  | .execute pid .. => some pid
  | .executeBlock pid .. => some pid
  | .fork pid .. => some pid
  | .resizeHeap pid _ => some pid
  | .execve pid .. => some pid
  | .quit pid _ => some pid
  | .switch pid _ => some pid
  | .kernel _ => none

def madeBy : Call → Option Nat
  | .other action => actor action
  | call => call.caller

-- The system call stubs pass the type of the wait.
def fromStub : Call → Bool
  | .iowait _ _ _ _ type => type ≤ 1
  | .iowait1 _ _ _ _ type _ => 2 ≤ type ∧ type ≤ 3
  | _ => true

-- How a call ends: it returns to its task, or gets to task_switch or to task_scheduler.
inductive End where
  | returns
  | switches
  | schedules

def callEnd (k : Kernel) : Call → End
  | .other (.executeBlock pid cpu info file vfs) =>
      if (generalExecuteBlock k pid cpu info file vfs).1 = none then .returns else .switches
  | .other (.fork ..) => .schedules
  | .other (.execve _ _ _ file _) => if file.isNone then .returns else .schedules
  | .other (.quit ..) => .schedules
  | .other (.switch ..) => .switches
  | .send current pid payload len =>
      if terminated k (.send current pid payload len) = none then .returns else .schedules
  | .read current payload => if terminated k (.read current payload) = none then .returns else .schedules
  | .ipcwait _ => .switches
  | .iowait .. => .switches
  | .iowait1 .. => .switches
  | .vdevwait _ => .switches
  | _ => .returns

def System.call (s : System) (call : Call) : Option (End × Machine) :=
  if s.running && (madeBy call).all (· = s.currentTask) && fromStub call then
    (Vdev.step s.machine call).map (callEnd s.machine.kernel call, ·)
  else none

def switchFrom (m : Machine) (currentTask : Nat) (cpu : GprState) : Machine :=
  { m with kernel := taskSwitch m.kernel currentTask cpu }

-- The task and the machine that task_scheduler is entered with, if it is.
def System.entry (s : System) : Event → Option (Nat × Machine)
  | .timer cpu _ => some (s.currentTask + 1, switchFrom s.machine s.currentTask cpu)
  | .call call cpu _ =>
      (s.call call).bind fun result =>
        match result.1 with
        | .returns => none
        | .switches => some (s.currentTask + 1, switchFrom result.2 s.currentTask cpu)
        | .schedules => some (s.currentTask, result.2)

def System.leave (s : System) (call : Call) : Option System :=
  (s.call call).map fun result => { s with machine := result.2 }

-- A run does not go on behind a fault.
def System.step (s : System) (event : Event) : Option System :=
  match s.entry event with
  | some (currentTask, m) =>
      match taskScheduler event.polls currentTask s.idleCpu m with
      | .dispatch pid m => some { machine := m, currentTask := pid, idleCpu := false, running := true }
      | .idle m => some { machine := m }
      | .panic | .fault | .spinning => none
  | none =>
      match event with
      | .timer _ _ => none
      | .call call _ _ => s.leave call

-- The records of the tasks are not among what the drivers of a poll write.
def SparesRecords (k : Kernel) (change : Store → Store) : Prop :=
  ∀ pid address task, k.taskTable pid = .task address task →
    ∀ mem offset, offset < SIZEOF_TASK → change mem (address + offset) = mem (address + offset)

structure PollsInside (m : Machine) (polls : Nat → Poll) : Prop where
  accesses : ∀ count, ∀ access ∈ (polls count).accesses, AccessInside m access.1 access.2
  memory : ∀ count, SparesRecords m.kernel (polls count).memory

-- What the call and the polls of an event write stays in what they write to.
structure System.WritesInside (s : System) (event : Event) : Prop where
  call : ∀ call cpu polls, event = .call call cpu polls → Vdev.WritesInside s.machine call
  polls : ∀ currentTask m, s.entry event = some (currentTask, m) → PollsInside m event.polls

-- A launch of the kernel task before the first timer interrupt.
structure Launch where
  requests : List Request := []
  info : TaskInfo
  file : Option ProgramFile
  vfs : Activity := {}

-- The pages that a program takes fit the 20 bits that a descriptor has for them.
def Launch.Fits (launch : Launch) : Prop :=
  ∀ file, launch.file = some file → programPages file.size < 2 ^ 20

def bootLaunch (k : Kernel) (launch : Launch) : Kernel :=
  (generalExecute (k.requests launch.requests) 0 launch.info launch.file launch.vfs).2

-- kernel_init goes idle after the launches.
def bootSystem (k : Kernel) (launches : List Launch) : System where
  machine := { kernel := launches.foldl bootLaunch k }

-- The state behind a run from boot, with launches of programs that fit.
structure Reached (k : Kernel) (launches : List Launch) (events : List Event) (s : System) : Prop
    extends GuardedRun System.step System.WritesInside (bootSystem k launches) events s where
  fits : ∀ launch ∈ launches, launch.Fits

end EchidnaOS.Scheduler
