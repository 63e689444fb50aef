import EchidnaOS.Segment
import EchidnaOS.Task.Wait

namespace EchidnaOS

open EchidnaOS.Lib EchidnaOS.Klib

-- What a task says about its memory and its descriptors.
structure Layout where
  base : Nat
  pages : Nat
  ldt : Nat
  ldtEntries : Nat
  deriving DecidableEq

def Task.layout (task : Task) : Layout := ⟨task.base, task.pages, task.ldt, task.ldtEntries⟩

def Slot.layout : Slot → Option Layout
  | .task _ owner => some owner.layout
  | _ => none

def Kernel.layout (k : Kernel) (pid : Nat) : Option Layout := (k.taskTable pid).layout

variable {k next : Kernel} {pid current address : Nat} {task : Task}

theorem layout_eq (hslot : k.taskTable pid = .task address task) :
    k.layout pid = some task.layout := by
  rw [Kernel.layout, hslot, Slot.layout]

theorem layout_some {layout : Layout} (hlayout : k.layout pid = some layout) :
    ∃ address task, k.taskTable pid = .task address task ∧ task.layout = layout := by
  unfold Kernel.layout at hlayout
  cases hslot : k.taskTable pid with
  | task address task => exact ⟨address, task, rfl, by simpa [hslot, Slot.layout] using hlayout⟩
  | null => simp [hslot, Slot.layout] at hlayout
  | empty => simp [hslot, Slot.layout] at hlayout

theorem layout_none (hfree : (k.taskTable pid).status = none) : k.layout pid = none := by
  unfold Kernel.layout
  cases hslot : k.taskTable pid with
  | task address task => exact absurd hslot (free_ne_task hfree address task)
  | null => rfl
  | empty => rfl

theorem layout_congr (heq : next.taskTable = k.taskTable) : next.layout = k.layout := by
  funext pid
  rw [Kernel.layout, heq, Kernel.layout]

@[simp] theorem requests_layout (k : Kernel) (reqs : List Request) :
    (k.requests reqs).layout = k.layout :=
  layout_congr (requests_taskTable k reqs)

theorem setTask_layout (k : Kernel) (pid address : Nat) (task : Task) :
    (k.setTask pid address task).layout = Function.update k.layout pid (some task.layout) := by
  funext other
  by_cases he : other = pid
  · subst he
    rw [layout_eq (setTask_same k other address task), Function.update_self]
  · rw [Kernel.layout, setTask_other he, Function.update_of_ne he, Kernel.layout]

-- A task may change in every other respect.
theorem setTask_layout_same {heap : Heap} {others : Nat → Nat} {task' : Task}
    (hslot : k.taskTable pid = .task address task) (hsame : task'.layout = task.layout) :
    (Kernel.setTask ⟨heap, k.taskTable, others⟩ pid address task').layout = k.layout := by
  rw [setTask_layout, hsame, ← layout_eq hslot]
  exact Function.update_eq_self pid k.layout

theorem createFileHandle_layout (k : Kernel) (pid : Nat) :
    (createFileHandle k pid).layout = k.layout := by
  unfold createFileHandle
  split
  · rename_i address task hslot
    exact setTask_layout_same hslot rfl
  · rfl

theorem createFileHandleV2_layout (k : Kernel) (pid : Nat) (handle : FileHandleV2) :
    (createFileHandleV2 k pid handle).layout = k.layout := by
  unfold createFileHandleV2
  split
  · rename_i address task hslot
    dsimp only
    split
    · exact setTask_layout_same hslot rfl
    · exact setTask_layout_same hslot rfl
  · rfl

theorem openStreams_layout (k : Kernel) (pid : Nat) (vfs : Activity) :
    (openStreams k pid vfs).layout = k.layout := by
  simp only [openStreams, openStream, createFileHandleV2_layout, requests_layout,
    createFileHandle_layout]

theorem SameTasks.layout (hsame : SameTasks k next) : next.layout = k.layout := by
  funext pid
  cases hslot : k.taskTable pid with
  | task address task => rw [layout_eq hslot, layout_eq ((hsame pid address task).mpr hslot)]
  | null =>
      rw [layout_none (k := k) (by rw [hslot]; rfl)]
      cases hnext : next.taskTable pid with
      | task address task => rw [(hsame pid address task).mp hnext] at hslot; cases hslot
      | null => exact layout_none (by rw [hnext]; rfl)
      | empty => exact layout_none (by rw [hnext]; rfl)
  | empty =>
      rw [layout_none (k := k) (by rw [hslot]; rfl)]
      cases hnext : next.taskTable pid with
      | task address task => rw [(hsame pid address task).mp hnext] at hslot; cases hslot
      | null => exact layout_none (by rw [hnext]; rfl)
      | empty => exact layout_none (by rw [hnext]; rfl)

-- One more task at most, with the given descriptors.
def Adds (ldt ldtEntries : Nat) (k next : Kernel) : Prop :=
  next.layout = k.layout ∨ ∃ child base pages, k.layout child = none ∧
    next.layout = Function.update k.layout child (some ⟨base, pages, ldt, ldtEntries⟩)

theorem taskCreate_layout (k : Kernel) (new : Task) :
    ((taskCreate k new).1 = none ∧ (taskCreate k new).2.layout = k.layout) ∨
    ∃ child, (taskCreate k new).1 = some child ∧ k.layout child = none ∧
      (taskCreate k new).2.layout = Function.update k.layout child (some new.layout) := by
  rcases taskCreate_table k new with ⟨hnone, hsame⟩ | ⟨child, address, hsome, -, hfree, htable⟩
  · exact Or.inl ⟨hnone, hsame.layout⟩
  · refine Or.inr ⟨child, hsome, layout_none hfree, ?_⟩
    rw [← setTask_layout k child address new]
    exact layout_congr htable

theorem launch_layout (k : Kernel) (current base : Nat) (info : TaskInfo) (file : ProgramFile)
    (vfs : Activity) : Adds 0 0 k (launch k current base info file vfs).2 := by
  unfold launch
  dsimp only
  generalize hloaded : ({ k.requests vfs.load with heap.mem := _ } : Kernel) = loaded
  have hstart : loaded.layout = k.layout := by
    rw [← hloaded]
    exact requests_layout k vfs.load
  have hcreate := taskCreate_layout loaded (newTask current base file)
  generalize taskCreate loaded (newTask current base file) = result at hcreate ⊢
  rcases result with ⟨result, created⟩
  rcases hcreate with ⟨rfl, hsame⟩ | ⟨child, rfl, hnone, hadded⟩
  · left
    dsimp only at hsame ⊢
    rw [← hstart, ← hsame]
    exact layout_congr rfl
  · refine Or.inr ⟨child, base, programPages file.size, hstart ▸ hnone, ?_⟩
    have hnew : (newTask current base file).layout = ⟨base, programPages file.size, 0, 0⟩ := rfl
    dsimp only at hadded ⊢
    rw [hstart, hnew] at hadded
    split
    · rename_i address task hslot
      have hsetup : (setupTask task file info).layout = task.layout := rfl
      generalize hopened : openStreams _ child vfs = opened
      have hlayout : opened.layout = created.layout := by
        rw [← hopened, openStreams_layout]
        exact setTask_layout_same hslot hsetup
      exact (layout_congr rfl).trans (hlayout.trans hadded)
    · exact hadded

theorem generalExecute_layout (k : Kernel) (current : Nat) (info : TaskInfo)
    (file : Option ProgramFile) (vfs : Activity) :
    Adds 0 0 k (generalExecute k current info file vfs).2 := by
  unfold generalExecute
  split
  · exact Or.inl rfl
  · dsimp only
    split
    · exact Or.inl rfl
    · exact launch_layout { k with heap := _ } current _ info _ vfs

theorem generalExecuteBlock_layout (k : Kernel) (current : Nat) (cpu : GprState) (info : TaskInfo)
    (file : Option ProgramFile) (vfs : Activity) :
    Adds 0 0 k (generalExecuteBlock k current cpu info file vfs).2 := by
  have hadds := generalExecute_layout k current info file vfs
  unfold generalExecuteBlock
  generalize generalExecute k current info file vfs = result at hadds ⊢
  rcases result with ⟨_ | child, next⟩
  · exact hadds
  · dsimp only at hadds ⊢
    split
    · rename_i address task hslot
      have hsame : (next.setTask current address
          { task with status := .procwait, cpu := cpu }).layout = next.layout :=
        setTask_layout_same hslot rfl
      unfold Adds
      rw [hsame]
      exact hadds
    · exact hadds

-- The memcpy of task_fork copies the array onto itself: the child has the parent's pointer.
theorem forkClone_layout (hslot : k.taskTable current = .task address task) {forking : Task}
    (hsame : forking.layout = task.layout) (forks : Nat → ForkedHandle)
    (base handles handlesV2 : Nat) : Adds task.ldt task.ldtEntries k
      (forkClone k current address forking forks base handles handlesV2).2 := by
  have hldt : forking.ldt = task.ldt ∧ forking.ldtEntries = task.ldtEntries := by
    simp only [Task.layout, Layout.mk.injEq] at hsame
    exact hsame.2.2
  unfold forkClone
  dsimp only
  generalize hcloned : cloneHandles forks k 0 forking.handlesV2 = cloned
  generalize hcopied : ({ cloned.1 with heap.mem := _ } : Kernel) = copied
  have htable : copied.taskTable = k.taskTable := by
    rw [← hcopied, ← hcloned]
    exact cloneHandles_taskTable forks k 0 forking.handlesV2
  have hcreate := taskCreate_table copied (forkedTask forking current base handles handlesV2 cloned.2)
  generalize taskCreate copied _ = result at hcreate ⊢
  rcases result with ⟨result, created⟩
  rcases hcreate with ⟨rfl, hunchanged⟩ | ⟨child, newAddress, rfl, -, hfree, hcreated⟩
  · left
    dsimp only at hunchanged ⊢
    have hkept : created.taskTable current = .task address task :=
      (hunchanged current address task).mpr (by rw [htable]; exact hslot)
    have hfailed : created.layout = k.layout := hunchanged.layout.trans (layout_congr htable)
    rw [← hfailed]
    exact setTask_layout_same hkept hsame
  · right
    dsimp only at hcreated hfree ⊢
    rw [htable] at hcreated hfree
    refine ⟨child, base, forking.pages, layout_none hfree, ?_⟩
    have hne : current ≠ child := fun he => free_ne_task hfree address task (he ▸ hslot)
    have hparent : created.taskTable current = .task address task := by
      rw [hcreated, Function.update_of_ne hne, hslot]
    rw [setTask_other hne.symm, hcreated, Function.update_self]
    dsimp only
    have hreturn : (created.setTask current address (forking.withEax child)).layout =
        created.layout := setTask_layout_same hparent hsame
    rw [setTask_layout, hreturn, ← hldt.1, ← hldt.2]
    have hlayout : created.layout = Function.update k.layout child
        (some (forkedTask forking current base handles handlesV2 cloned.2).layout) := by
      rw [← setTask_layout k child newAddress]
      exact layout_congr hcreated
    rw [hlayout, Function.update_idem]
    rfl

theorem taskFork_layout (hslot : k.taskTable current = .task address task) (cpu : GprState)
    (forks : Nat → ForkedHandle) :
    Adds task.ldt task.ldtEntries k (taskFork k current cpu forks).2 := by
  have hsame : ({ task with cpu := cpu } : Task).layout = task.layout := rfl
  unfold taskFork
  rw [hslot]
  dsimp only
  obtain ⟨heap, hfail | ⟨base, handles, handlesV2, hclone⟩⟩ :=
    forkAlloc_cases k current address { task with cpu := cpu } forks
  · rw [hfail]
    exact Or.inl (setTask_layout_same hslot hsame)
  · rw [hclone]
    have hkept : ({ k with heap := heap } : Kernel).taskTable current = .task address task := hslot
    exact forkClone_layout hkept hsame forks base handles handlesV2

theorem taskQuit_layout {value : Int} (hquit : taskQuit k pid value = some next) :
    next.layout = Function.update k.layout pid none := by
  obtain ⟨_, quitting, parentAddress, parent, -, hparent, htable⟩ := taskQuit_table hquit
  have hwoken : (wakeParent k quitting.parent parentAddress parent value).layout = k.layout := by
    unfold wakeParent
    split
    · exact setTask_layout_same hparent rfl
    · rfl
  rw [← hwoken]
  funext other
  by_cases he : other = pid
  · subst he
    rw [Function.update_self]
    exact layout_none (by rw [htable, Function.update_self]; rfl)
  · rw [Kernel.layout, htable, Function.update_of_ne he, Function.update_of_ne he, Kernel.layout]

theorem taskSwitch_layout (k : Kernel) (current : Nat) (cpu : GprState) :
    (taskSwitch k current cpu).layout = k.layout := by
  unfold taskSwitch
  split
  · rename_i address task hslot
    exact setTask_layout_same hslot rfl
  · rfl

theorem execve_layout (hslot : k.taskTable current = .task address task)
    (argv envp : List ExecString) (file : Option ProgramFile) (load : List Request) :
    (execve k current argv envp file load).layout = k.layout ∨ (∃ program, file = some program) ∧
      ∃ base, (execve k current argv envp file load).layout = Function.update k.layout current
        (some ⟨base, task.pages, task.ldt, task.ldtEntries⟩) := by
  unfold execve
  rw [hslot]
  cases file with
  | none => exact Or.inl (layout_congr rfl)
  | some file =>
      right
      dsimp only
      generalize execveTemporaries k.heap argv envp = tmp
      generalize kalloc tmp.2 _ = result
      refine ⟨⟨file, rfl⟩, result.1, ?_⟩
      have htable : (execveLoad { k with heap := result.2 } current address task argv envp file load
          tmp.1 result.1).taskTable =
            (k.setTask current address (execvedTask task result.1 file)).taskTable := by
        simp only [execveLoad, Kernel.setTask, requests_taskTable]
      rw [layout_congr htable, setTask_layout]
      rfl

end EchidnaOS
