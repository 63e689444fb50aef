import EchidnaOS.Lib.Run
import EchidnaOS.Task.Table

namespace EchidnaOS

open EchidnaOS.Lib EchidnaOS.Lib.Run EchidnaOS.Klib

variable {k next : Kernel} {parent child : Nat} {action : Action}

-- A blocking launch is made by a task that no task in the table has as its parent.
def LaunchesAlone (k : Kernel) : Action → Prop
  | .executeBlock pid .. => ∀ other address task, k.taskTable other = .task address task →
      task.parent ≠ pid
  | _ => True

-- The parent runs again, with the two halves of the return value in eax and edx.
def Resumed (k : Kernel) (parent : Nat) (value : Int) : Prop :=
  ∃ address task, k.taskTable parent = .task address task ∧ task.status = .active ∧
    task.cpu.eax = lowHalf value ∧ task.cpu.edx = highHalf value

-- Along the actions the parent stays PROCWAIT up to a task_quit of the child, which resumes it.
def WaitsFor (parent child : Nat) : Kernel → List Action → Prop
  | k, [] => (k.taskTable parent).status = some .procwait
  | k, action :: rest => (k.taskTable parent).status = some .procwait ∧
      ∀ next, step k action = some next →
        (∃ value, action = .quit child value ∧ Resumed next parent value) ∨
        WaitsFor parent child next rest

-- What a blocking launch sets up: the only task with the waiting parent is its child.
structure Waiting (k : Kernel) (parent child : Nat) : Prop where
  waits : ∃ address task, k.taskTable parent = .task address task ∧ task.status = .procwait
  launched : ∃ address task, k.taskTable child = .task address task ∧ task.parent = parent
  ne : parent ≠ child
  only : ∀ pid address task, k.taskTable pid = .task address task → task.parent = parent →
    pid = child

theorem Waiting.status (hwait : Waiting k parent child) :
    (k.taskTable parent).status = some .procwait := by
  obtain ⟨address, task, hslot, hstatus⟩ := hwait.waits
  rw [hslot, Slot.status, hstatus]

theorem Waiting.ne_of_active (hwait : Waiting k parent child) {actor : Nat}
    (hactive : k.isActive actor = true) : actor ≠ parent := by
  rintro rfl
  simp [Kernel.isActive, hwait.status] at hactive

theorem Waiting.ne_of_canLaunch (hwait : Waiting k parent child) {actor : Nat}
    (hlaunch : k.canLaunch actor = true) : actor ≠ parent := by
  rintro rfl
  rw [Kernel.canLaunch, Bool.or_eq_true] at hlaunch
  rcases hlaunch with hactive | hresident
  · exact hwait.ne_of_active hactive rfl
  · simp only [Bool.and_eq_true, decide_eq_true_eq] at hresident
    obtain ⟨rfl, hstatus⟩ := hresident
    simp [hwait.status] at hstatus

-- A call by another task neither wakes the parent nor gives it a second child.
theorem Waiting.called {actor : Nat} (hwait : Waiting k parent child) (hne : actor ≠ parent)
    (hcalled : CalledBy actor k next) : Waiting next parent child := by
  obtain ⟨address, task, hslot, hstatus⟩ := hwait.waits
  obtain ⟨childAddress, childTask, hchild, hparent⟩ := hwait.launched
  constructor
  · exact ⟨address, task, hcalled.others parent address task hne.symm hslot, hstatus⟩
  · by_cases he : child = actor
    · subst he
      obtain ⟨task', hnext, hkept⟩ := hcalled.kept childAddress childTask hchild
      exact ⟨childAddress, task', hnext, hkept.parent.trans hparent⟩
    · exact ⟨childAddress, childTask, hcalled.others child _ _ he hchild, hparent⟩
  · exact hwait.ne
  · intro pid address' task' hnext hparent'
    rcases hcalled.parents pid address' task' hnext with ⟨-, hnew, -⟩ |
      ⟨address'', task'', hold, hkept⟩
    · exact absurd (hnew.symm.trans hparent') hne
    · exact hwait.only pid address'' task'' hold (hkept.parent.symm.trans hparent')

theorem taskQuit_table {pid : Nat} {value : Int} (hquit : taskQuit k pid value = some next) :
    ∃ address task parentAddress parentTask, k.taskTable pid = .task address task ∧
      k.taskTable task.parent = .task parentAddress parentTask ∧
      next.taskTable = Function.update
        (wakeParent k task.parent parentAddress parentTask value).taskTable pid .empty := by
  unfold taskQuit at hquit
  split at hquit
  · rename_i address task hslot
    split at hquit
    · rename_i parentAddress parentTask hparent
      cases hquit
      exact ⟨address, task, parentAddress, parentTask, hslot, hparent, rfl⟩
    · cases hquit
  · cases hquit

theorem wakeParent_only {pid address : Nat} {task : Task} (value : Int)
    (hslot : k.taskTable pid = .task address task) :
    OnlyTask pid k (wakeParent k pid address task value) := by
  unfold wakeParent
  split
  · exact OnlyTask.setTask hslot k.heap k.others _ ⟨rfl, rfl, rfl, nofun⟩
  · exact .of_eq rfl

-- The quit of the child resumes the parent.
theorem Waiting.quit_child (hwait : Waiting k parent child) {value : Int}
    (hquit : taskQuit k child value = some next) : Resumed next parent value := by
  obtain ⟨address, task, parentAddress, parentTask, hslot, hparent, htable⟩ := taskQuit_table hquit
  obtain ⟨childAddress, childTask, hchild, hchildParent⟩ := hwait.launched
  obtain ⟨waitAddress, waitTask, hwaits, hstatus⟩ := hwait.waits
  rw [hslot] at hchild
  cases hchild
  rw [hchildParent, hwaits] at hparent
  obtain ⟨rfl, rfl⟩ := Slot.task.inj hparent
  refine ⟨waitAddress, { waitTask with
    status := .active
    cpu := { waitTask.cpu with eax := lowHalf value, edx := highHalf value } }, ?_, rfl, rfl, rfl⟩
  rw [htable, Function.update_of_ne hwait.ne, wakeParent, if_pos hstatus, hchildParent]
  exact setTask_same _ _ _ _

-- Any other quit is of a task with another parent.
theorem Waiting.quit_other (hwait : Waiting k parent child) {pid : Nat} {value : Int}
    (hquit : taskQuit k pid value = some next) (hchild : pid ≠ child) (hself : pid ≠ parent) :
    Waiting next parent child := by
  obtain ⟨address, task, parentAddress, parentTask, hslot, hparent, htable⟩ := taskQuit_table hquit
  have hother : task.parent ≠ parent := fun he => hchild (hwait.only pid address task hslot he)
  have hcalled := (wakeParent_only value hparent).called hparent
  have hmiddle := hwait.called hother hcalled
  obtain ⟨waitAddress, waitTask, hwaits, hstatus⟩ := hmiddle.waits
  obtain ⟨childAddress, childTask, hlaunched, hchildParent⟩ := hmiddle.launched
  constructor
  · exact ⟨waitAddress, waitTask, by rw [htable, Function.update_of_ne hself.symm, hwaits], hstatus⟩
  · refine ⟨childAddress, childTask, ?_, hchildParent⟩
    rw [htable, Function.update_of_ne hchild.symm, hlaunched]
  · exact hwait.ne
  · intro other address' task' hnext hparent'
    by_cases he : other = pid
    · subst he
      simp [htable] at hnext
    · rw [htable, Function.update_of_ne he] at hnext
      exact hmiddle.only other address' task' hnext hparent'

theorem Waiting.step (hwait : Waiting k parent child) (hstep : EchidnaOS.step k action = some next) :
    (∃ value, action = .quit child value ∧ Resumed next parent value) ∨
      Waiting next parent child := by
  rcases step_cases hstep with ⟨pid, value, rfl, hactive, hquit⟩ | ⟨actor, hactive, hcalled⟩ |
    ⟨actor, info, file, vfs, -, hlaunch, rfl⟩ | heq
  · by_cases hchild : pid = child
    · subst hchild
      exact Or.inl ⟨value, rfl, hwait.quit_child hquit⟩
    · exact Or.inr (hwait.quit_other hquit hchild (hwait.ne_of_active hactive))
  · exact Or.inr (hwait.called (hwait.ne_of_active hactive) hcalled)
  · exact Or.inr (hwait.called (hwait.ne_of_canLaunch hlaunch)
      (generalExecute_spawned k actor info file vfs).called)
  · exact Or.inr (hwait.called hwait.ne.symm (SameTasks.of_eq heq).called)

theorem Waiting.waitsFor (hwait : Waiting k parent child) (actions : List Action) :
    WaitsFor parent child k actions := by
  induction actions generalizing k with
  | nil => exact hwait.status
  | cons action rest ih =>
      refine ⟨hwait.status, ?_⟩
      intro next hstep
      rcases hwait.step hstep with hquit | hnext
      · exact Or.inl hquit
      · exact Or.inr (ih hnext)

theorem generalExecuteBlock_waiting {cpu : GprState} {info : TaskInfo} {file : Option ProgramFile}
    {vfs : Activity} (hactive : k.isActive parent = true)
    (halone : LaunchesAlone k (.executeBlock parent cpu info file vfs))
    (hchild : (generalExecuteBlock k parent cpu info file vfs).1 = some child) :
    Waiting (generalExecuteBlock k parent cpu info file vfs).2 parent child := by
  have hspawn := generalExecute_spawned k parent info file vfs
  unfold generalExecuteBlock at hchild ⊢
  generalize generalExecute k parent info file vfs = result at hspawn hchild ⊢
  rcases result with ⟨_ | new, next⟩
  · cases hchild
  obtain ⟨-, hfree, hothers, childAddress, childTask, htask, hparent, -⟩ := hspawn
  dsimp only at hfree hothers htask hchild ⊢
  obtain ⟨address, task, hslot, -⟩ := isActive_slot hactive
  have hne : parent ≠ new := fun he => free_ne_task hfree address task (he ▸ hslot)
  rw [hothers parent hne, hslot] at hchild ⊢
  cases hchild
  constructor
  · exact ⟨address, { task with status := .procwait, cpu := cpu }, setTask_same _ _ _ _, rfl⟩
  · exact ⟨childAddress, childTask, by rw [setTask_other hne.symm]; exact htask, hparent⟩
  · exact hne
  · intro pid address' task' hnext hparent'
    by_contra hpid
    by_cases hself : pid = parent
    · subst hself
      rw [setTask_same] at hnext
      cases hnext
      exact halone pid address task hslot hparent'
    · rw [setTask_other hself, hothers pid hpid] at hnext
      exact halone pid address' task' hnext hparent'

-- In a run whose blocking launches are made by childless tasks, the caller of each one
-- sleeps until its own child quits and then holds that child's return value.
theorem block_waits_for_child {actions front back : List Action} {before : Kernel}
    {cpu : GprState} {info : TaskInfo} {file : Option ProgramFile} {vfs : Activity}
    (hguard : Guarded step LaunchesAlone k actions)
    (hsplit : actions = front ++ .executeBlock parent cpu info file vfs :: back)
    (hbefore : run step k front = some before) (hactive : before.isActive parent = true)
    (hchild : (generalExecuteBlock before parent cpu info file vfs).1 = some child) :
    WaitsFor parent child (generalExecuteBlock before parent cpu info file vfs).2 back := by
  subst hsplit
  have halone := (hguard.append.2 before hbefore).1
  exact (generalExecuteBlock_waiting hactive halone hchild).waitsFor back

-- The kernel task and one shell.
def shellKernel : Kernel where
  heap := emptyHeap
  taskTable pid := if pid = 0 then .task 0x10000 { status := .res }
    else if pid = 1 then .task 0x20000 {} else .null
  others := fun _ => 0

theorem shell_waits_for_child :
    WaitsFor 1 2 (generalExecuteBlock shellKernel 1 {} plainInfo (some emptyProgram) {}).2
      [.quit 2 5] := by
  have halone : LaunchesAlone shellKernel (plainBlock 1) := by
    intro other address task hslot
    simp only [shellKernel] at hslot
    split_ifs at hslot <;> cases hslot <;> decide
  have hguard : Guarded step LaunchesAlone shellKernel [plainBlock 1, .quit 2 5] :=
    ⟨halone, fun _ _ => ⟨trivial, fun _ _ => trivial⟩⟩
  exact block_waits_for_child hguard
    (show [plainBlock 1, .quit 2 5] = [] ++ plainBlock 1 :: [.quit 2 5] from rfl) rfl
    (by decide) (by decide +kernel)

def bootRun (actions : List Action) : Option Kernel :=
  (taskInit emptyHeap fun _ => 0).bind fun k => run step k actions

-- The shell at pid 1 has a program running in the background at pid 2 and launches
-- another one, at pid 3, that it waits for. The quit of the first one resumes it.
def backgroundRun : Option Kernel := bootRun [plainLaunch 0, plainLaunch 1]

theorem background_child_resumes_parent : ∃ before after, backgroundRun = some before ∧
    generalExecuteBlock before 1 {} plainInfo (some emptyProgram) {} = (some 3, after) ∧
    ¬WaitsFor 1 3 after [.quit 2 7] := by
  have hrun : backgroundRun.isSome = true := by decide +kernel
  obtain ⟨before, hbefore⟩ := Option.isSome_iff_exists.mp hrun
  refine ⟨before, (generalExecuteBlock before 1 {} plainInfo (some emptyProgram) {}).2,
    hbefore, ?_, ?_⟩
  · have hchild : (backgroundRun.map fun k =>
        (generalExecuteBlock k 1 {} plainInfo (some emptyProgram) {}).1) = some (some 3) := by
      decide +kernel
    rw [hbefore] at hchild
    exact Prod.ext (Option.some.inj hchild) rfl
  · intro hwaits
    have hwoken : (backgroundRun.bind fun k =>
        (step (generalExecuteBlock k 1 {} plainInfo (some emptyProgram) {}).2 (.quit 2 7)).map
          fun next => (next.taskTable 1).status) = some (some .active) := by
      decide +kernel
    rw [hbefore] at hwoken
    obtain ⟨next, hstep, hstatus⟩ := Option.map_eq_some_iff.mp hwoken
    rcases hwaits.2 next hstep with ⟨value, haction, -⟩ | hstill
    · cases haction
    · rw [WaitsFor, hstatus] at hstill
      cases hstill

end EchidnaOS
