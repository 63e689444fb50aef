import EchidnaOS.Vdev.Table

namespace EchidnaOS.Vdev

open EchidnaOS.Lib EchidnaOS.Lib.SlotTable EchidnaOS.Lib.Run EchidnaOS.Klib

inductive Direction where
  | input
  | output
  deriving DecidableEq, Repr

def Direction.status : Direction → VdevT → Readiness
  | .input, entry => entry.statusIn
  | .output, entry => entry.statusOut

-- What a manager and the clients of its vdevs do.
inductive Event where
  | inReady (vdev : Int)
  | outReady (vdev : Int)
  | vdevwait
  | io (vdev : Nat) (transfer : Transfer)

def Event.call (manager : Nat) : Event → Call
  | .inReady vdev => .inReady manager vdev
  | .outReady vdev => .outReady manager vdev
  | .vdevwait => .vdevwait manager
  | .io vdev transfer => .io vdev transfer

-- The direction an event arms: the manager's calls on a vdev of its own.
def arms (vdevs : List VdevT) (manager : Nat) : Event → List (Int × Direction)
  | .inReady vdev => if (entryAt vdevs vdev).any (·.pid = manager) then [(vdev, .input)] else []
  | .outReady vdev => if (entryAt vdevs vdev).any (·.pid = manager) then [(vdev, .output)] else []
  | _ => []

-- `armed` are the directions that the manager armed since it last left VDEVWAIT.
structure Watch where
  machine : Machine
  armed : List (Int × Direction) := []

def Watch.sleeps (w : Watch) (manager : Nat) : Bool :=
  (w.machine.kernel.taskTable manager).status = some .vdevwait

def Watch.isReady (w : Watch) (armed : Int × Direction) : Bool :=
  (entryAt w.machine.vdevs armed.1).any (armed.2.status · = .ready)

def watchStep (manager : Nat) (w : Watch) (event : Event) : Option Watch :=
  (step w.machine (event.call manager)).map fun after =>
    { machine := after
      armed :=
        if w.sleeps manager ∧ ¬Watch.sleeps { machine := after } manager then []
        else w.armed ++ arms w.machine.vdevs manager event }

-- A manager that sleeps after arming something has a direction that can wake it.
def CanWake (manager : Nat) (w : Watch) : Prop :=
  w.sleeps manager = true → w.armed ≠ [] → ∃ armed ∈ w.armed, w.isReady armed = true

instance (manager : Nat) : DecidablePred (CanWake manager) := fun w =>
  inferInstanceAs (Decidable (w.sleeps manager = true → w.armed ≠ [] →
    ∃ armed ∈ w.armed, w.isReady armed = true))

-- The manager waits only while a direction it armed is still ready.
def WaitsArmed (manager : Nat) (w : Watch) : Event → Prop
  | .vdevwait => w.machine.kernel.isActive manager = true → w.armed ≠ [] →
      ∃ armed ∈ w.armed, w.isReady armed = true
  | _ => True

-- The directions that are counted belong to vdevs of the manager.
def ArmedOwn (manager : Nat) (w : Watch) : Prop :=
  ∀ armed ∈ w.armed, (entryAt w.machine.vdevs armed.1).any (·.pid = manager) = true

variable {manager : Nat} {w after : Watch} {event : Event}

theorem not_sleeps_of_active (hactive : w.machine.kernel.isActive manager = true) :
    w.sleeps manager = false := by
  unfold Kernel.isActive at hactive
  simp [Watch.sleeps, of_decide_eq_true hactive]

-- An event changes no vdev's manager.
theorem entryAt_set_pid {vdevs : List VdevT} {vdev : Int} {old entry : VdevT}
    (hold : entryAt vdevs vdev = some old) (hpid : entry.pid = old.pid) (index : Int) :
    (entryAt (setAt vdevs vdev entry) index).any (·.pid = manager) =
      (entryAt vdevs index).any (·.pid = manager) := by
  by_cases he : index = vdev
  · subst he
    rw [entryAt_setAt_self hold, hold]
    simp [hpid]
  · rw [entryAt_setAt_ne he]

-- What an event does to the manager and to the vdevs.
inductive Outcome (manager : Nat) (w : Watch) (after : Machine) : Event → Prop where
  | armed {event : Event} {vdev : Int} {old entry : VdevT}
      (active : w.machine.kernel.isActive manager = true)
      (kernel : after.kernel = w.machine.kernel) (slot : entryAt w.machine.vdevs vdev = some old)
      (vdevs : after.vdevs = setAt w.machine.vdevs vdev entry) (pid : entry.pid = old.pid) :
      Outcome manager w after event
  | refused {event : Event} (same : after = w.machine) (nothing : arms w.machine.vdevs manager event = []) :
      Outcome manager w after event
  | waits (active : w.machine.kernel.isActive manager = true)
      (sleeps : (after.kernel.taskTable manager).status = some .vdevwait)
      (vdevs : after.vdevs = w.machine.vdevs) : Outcome manager w after .vdevwait
  | consumed {vdev : Nat} {transfer : Transfer} {entry : VdevT}
      (slot : entryAt w.machine.vdevs vdev = some entry)
      (vdevs : after.vdevs = setAt w.machine.vdevs vdev (transfer.consume entry))
      (woken : entry.pid = manager → (after.kernel.taskTable manager).status ≠ some .vdevwait)
      (other : entry.pid ≠ manager →
        after.kernel.taskTable manager = w.machine.kernel.taskTable manager) :
      Outcome manager w after (.io vdev transfer)

theorem wakeManager_awake {k : Kernel} {pid address vdev : Nat} {task : Task}
    (hslot : k.taskTable pid = .task address task) :
    ((wakeManager k pid address task vdev).taskTable pid).status ≠ some .vdevwait := by
  unfold wakeManager
  split
  · rw [setTask_same]
    simp [Slot.status]
  · rename_i hother
    rw [hslot, Slot.status]
    exact fun h => hother (Option.some.inj h)

theorem enterVdevwaitStatus_sleeps {m : Machine} (hactive : m.kernel.isActive manager = true) :
    ((enterVdevwaitStatus m manager).kernel.taskTable manager).status = some .vdevwait ∧
      (enterVdevwaitStatus m manager).vdevs = m.vdevs := by
  obtain ⟨address, task, hslot, -⟩ := isActive_slot hactive
  simp [enterVdevwaitStatus, Machine.setStatus, hslot, Slot.status]

theorem step_outcome {machine : Machine}
    (hstep : step w.machine (event.call manager) = some machine) :
    Outcome manager w machine event := by
  have heffect := effect_of_step hstep
  cases event with
  | inReady vdev =>
      obtain ⟨result, hready, rfl⟩ := Option.map_eq_some_iff.mp heffect
      obtain ⟨entry, hentry, rfl⟩ := Option.map_eq_some_iff.mp hready
      split
      · rename_i hother
        exact .refused rfl (by simp [arms, hentry, hother])
      · exact .armed (step_active hstep rfl) rfl hentry rfl rfl
  | outReady vdev =>
      obtain ⟨result, hready, rfl⟩ := Option.map_eq_some_iff.mp heffect
      obtain ⟨entry, hentry, rfl⟩ := Option.map_eq_some_iff.mp hready
      split
      · rename_i hother
        exact .refused rfl (by simp [arms, hentry, hother])
      · exact .armed (step_active hstep rfl) rfl hentry rfl rfl
  | vdevwait =>
      have hactive := step_active hstep rfl
      obtain ⟨hsleeps, hvdevs⟩ := enterVdevwaitStatus_sleeps hactive
      cases heffect
      exact .waits hactive hsleeps hvdevs
  | io vdev transfer =>
      obtain ⟨result, hio, rfl⟩ := Option.map_eq_some_iff.mp heffect
      rcases vdevIoWrapper_cases hio with hsame | ⟨entry, address, task, mem, hentry, -, hslot, heq⟩
      · exact .refused hsame rfl
      · rw [heq]
        refine .consumed (by rw [entryAt_natCast]; exact hentry) ?_ ?_ ?_
        · rw [setAt_natCast]
        · rintro rfl
          exact wakeManager_awake hslot
        · intro hne
          exact (wakeManager_only hslot).others manager (Ne.symm hne)

theorem mem_arms {vdevs : List VdevT} {armed : Int × Direction}
    (hmem : armed ∈ arms vdevs manager event) :
    (entryAt vdevs armed.1).any (·.pid = manager) = true := by
  cases event with
  | inReady vdev =>
      simp only [arms] at hmem
      split at hmem
      · rename_i hown
        rw [List.mem_singleton.mp hmem]
        exact hown
      · cases hmem
  | outReady vdev =>
      simp only [arms] at hmem
      split at hmem
      · rename_i hown
        rw [List.mem_singleton.mp hmem]
        exact hown
      · cases hmem
  | vdevwait => cases hmem
  | io vdev transfer => cases hmem

theorem Outcome.owners {machine : Machine} (houtcome : Outcome manager w machine event)
    (index : Int) : (entryAt machine.vdevs index).any (·.pid = manager) =
      (entryAt w.machine.vdevs index).any (·.pid = manager) := by
  cases houtcome with
  | armed _ _ hslot hvdevs hpid => rw [hvdevs, entryAt_set_pid hslot hpid]
  | refused hsame _ => rw [hsame]
  | waits _ _ hvdevs => rw [hvdevs]
  | consumed hslot hvdevs _ _ => rw [hvdevs, entryAt_set_pid hslot (Transfer.consume_pid _ _)]

theorem ArmedOwn.step (hown : ArmedOwn manager w) (hstep : watchStep manager w event = some after) :
    ArmedOwn manager after := by
  obtain ⟨machine, hmachine, rfl⟩ := Option.map_eq_some_iff.mp hstep
  intro armed hmem
  rw [(step_outcome hmachine).owners]
  dsimp only at hmem
  split at hmem
  · cases hmem
  · rcases List.mem_append.mp hmem with hold | hnew
    · exact hown armed hold
    · exact mem_arms hnew

theorem isReady_congr {machine : Machine} {list : List (Int × Direction)}
    {armed : Int × Direction}
    (heq : entryAt machine.vdevs armed.1 = entryAt w.machine.vdevs armed.1) :
    Watch.isReady ⟨machine, list⟩ armed = w.isReady armed := by
  unfold Watch.isReady
  rw [heq]

-- A manager that goes on sleeping keeps its list, and one that falls asleep takes it along.
theorem armed_of_sleeps {machine : Machine} (hsleeps : Watch.sleeps { machine } manager = true)
    (hnothing : arms w.machine.vdevs manager event = []) :
    (if w.sleeps manager ∧ ¬Watch.sleeps { machine } manager then []
      else w.armed ++ arms w.machine.vdevs manager event) = w.armed := by
  simp [hsleeps, hnothing]

theorem CanWake.step (hown : ArmedOwn manager w) (hwake : CanWake manager w)
    (hguard : WaitsArmed manager w event) (hstep : watchStep manager w event = some after) :
    CanWake manager after := by
  obtain ⟨machine, hmachine, rfl⟩ := Option.map_eq_some_iff.mp hstep
  intro hsleeps hnonempty
  have hasleep : Watch.sleeps { machine } manager = true := hsleeps
  cases step_outcome hmachine with
  | armed hactive hkernel _ _ _ =>
      have hawake := not_sleeps_of_active hactive
      unfold Watch.sleeps at hasleep hawake
      rw [hkernel, hawake] at hasleep
      cases hasleep
  | refused hsame hnothing =>
      subst hsame
      rw [armed_of_sleeps hasleep hnothing] at hnonempty ⊢
      exact hwake hasleep hnonempty
  | waits hactive _ hvdevs =>
      rw [armed_of_sleeps hasleep rfl] at hnonempty ⊢
      obtain ⟨armed, hmem, hready⟩ := hguard hactive hnonempty
      exact ⟨armed, hmem, by rw [isReady_congr (by rw [hvdevs])]; exact hready⟩
  | @consumed vdev transfer entry hslot hvdevs hwoken hother =>
      rw [armed_of_sleeps hasleep rfl] at hnonempty ⊢
      by_cases hmine : entry.pid = manager
      · exact absurd (of_decide_eq_true hasleep) (hwoken hmine)
      · have hslept : w.sleeps manager = true := by
          unfold Watch.sleeps at hasleep ⊢
          rw [← hother hmine]
          exact hasleep
        obtain ⟨armed, hmem, hready⟩ := hwake hslept hnonempty
        -- the access used a vdev of another manager
        have hne : armed.1 ≠ vdev := by
          intro he
          have hpid := hown armed hmem
          rw [he, hslot] at hpid
          exact hmine (by simpa using hpid)
        refine ⟨armed, hmem, ?_⟩
        rw [isReady_congr (by rw [hvdevs, entryAt_setAt_ne hne])]
        exact hready

-- Only the call that puts the manager to sleep can leave it without a ready direction.
theorem canWake_step_iff (hown : ArmedOwn manager w) (hwake : CanWake manager w) :
    (∀ after, watchStep manager w event = some after → CanWake manager after) ↔
      WaitsArmed manager w event := by
  constructor
  · intro hall
    cases event with
    | vdevwait =>
        intro hactive hnonempty
        have hstep : step w.machine (Event.vdevwait.call manager) =
            some (enterVdevwaitStatus w.machine manager) := by
          simp [step, Event.call, Call.caller, hactive, Machine.effect]
        obtain ⟨hsleeps, hvdevs⟩ := enterVdevwaitStatus_sleeps hactive
        have hasleep : Watch.sleeps { machine := enterVdevwaitStatus w.machine manager } manager =
            true := decide_eq_true hsleeps
        have hwatch : watchStep manager w .vdevwait =
            some ⟨enterVdevwaitStatus w.machine manager, w.armed⟩ := by
          rw [watchStep, hstep, Option.map_some, armed_of_sleeps hasleep rfl]
        obtain ⟨armed, hmem, hready⟩ := hall _ hwatch hasleep hnonempty
        rw [isReady_congr (by rw [hvdevs])] at hready
        exact ⟨armed, hmem, hready⟩
    | inReady vdev => trivial
    | outReady vdev => trivial
    | io vdev transfer => trivial
  · intro hguard after hstep
    exact hwake.step hown hguard hstep

-- In a run of a manager and its clients, whatever the order, the manager never sleeps
-- without a direction that can wake it exactly when each wait is made with one still ready.
theorem vdev_manager_wakes_iff (manager : Nat) (m : Machine) (events : List Event) :
    Throughout (watchStep manager) (CanWake manager) { machine := m } events ↔
      Guarded (watchStep manager) (WaitsArmed manager) { machine := m } events := by
  have hown : ArmedOwn manager { machine := m } := fun _ hmem => by cases hmem
  have hwake : CanWake manager { machine := m } := fun _ hnonempty => absurd rfl hnonempty
  exact throughout_iff_guarded (fun _ _ _ hown _ hstep => ArmedOwn.step hown hstep)
    (fun _ _ hown hwake => canWake_step_iff hown hwake) hown hwake

-- The shell registers a vdev, arms its input, and waits only after a client has written.
def registeredShell : Option Machine :=
  bootMachine [.other (plainLaunch 0), .register 1 0 4 8 12]

theorem manager_sleeps_through_write : ∃ m, registeredShell = some m ∧
    ¬Throughout (watchStep 1) (CanWake 1) { machine := m }
      [.inReady 0, .io 0 (.write 65), .vdevwait] := by
  have hrun : registeredShell.map (fun m => decide (Throughout (watchStep 1) (CanWake 1)
      { machine := m } [.inReady 0, .io 0 (.write 65), .vdevwait])) = some false := by
    decide +kernel
  obtain ⟨m, hm, hfalse⟩ := Option.map_eq_some_iff.mp hrun
  exact ⟨m, hm, of_decide_eq_false hfalse⟩

end EchidnaOS.Vdev
