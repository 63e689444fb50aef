import EchidnaOS.Task.Step

namespace EchidnaOS

open EchidnaOS.Lib EchidnaOS.Klib

variable {k middle next : Kernel} {pid actor address : Nat} {task : Task}

-- The same tasks at the same pids; an unused entry may become EMPTY_PID.
def SameTasks (k next : Kernel) : Prop :=
  ∀ pid address task, next.taskTable pid = .task address task ↔
    k.taskTable pid = .task address task

-- What a call leaves of a task: its parent and its packets, and it is not made to wait
-- for one.
structure Keeps (task task' : Task) : Prop where
  parent : task'.parent = task.parent
  queue : task'.ipcQueue = task.ipcQueue
  count : task'.ipcQueuePtr = task.ipcQueuePtr
  waiting : task'.status = .ipcwait → task.status = .ipcwait

-- Only the entry of `pid` changes, and it keeps its address and its place.
structure OnlyTask (pid : Nat) (k next : Kernel) : Prop where
  others : ∀ other, other ≠ pid → next.taskTable other = k.taskTable other
  kept : ∀ address task, k.taskTable pid = .task address task →
    ∃ task', next.taskTable pid = .task address task' ∧ Keeps task task'

-- A call by `actor` leaves every other task alone, and each new task stands in the table,
-- is its child and has no packets.
structure CalledBy (actor : Nat) (k next : Kernel) : Prop where
  others : ∀ pid address task, pid ≠ actor → k.taskTable pid = .task address task →
    next.taskTable pid = .task address task
  kept : ∀ address task, k.taskTable actor = .task address task →
    ∃ task', next.taskTable actor = .task address task' ∧ Keeps task task'
  parents : ∀ pid address task, next.taskTable pid = .task address task →
    (pid < KRNL_MAX_TASKS ∧ task.parent = actor ∧ task.ipcQueuePtr = 0) ∨
    ∃ address' task', k.taskTable pid = .task address' task' ∧ Keeps task' task

theorem Keeps.refl (task : Task) : Keeps task task := ⟨rfl, rfl, rfl, id⟩

theorem Keeps.trans {first second third : Task} (hfirst : Keeps first second)
    (hsecond : Keeps second third) : Keeps first third where
  parent := hsecond.parent.trans hfirst.parent
  queue := hsecond.queue.trans hfirst.queue
  count := hsecond.count.trans hfirst.count
  waiting hwait := hfirst.waiting (hsecond.waiting hwait)

@[simp] theorem request_taskTable (k : Kernel) (req : Request) :
    (k.request req).taskTable = k.taskTable := by
  cases req <;> simp only [Kernel.request] <;> split <;> try rfl
  split <;> rfl

@[simp] theorem requests_taskTable (k : Kernel) (reqs : List Request) :
    (k.requests reqs).taskTable = k.taskTable := by
  induction reqs generalizing k with
  | nil => rfl
  | cons req rest ih =>
      simp only [Kernel.requests, List.foldl_cons] at ih ⊢
      rw [ih, request_taskTable]

@[simp] theorem setTask_same (k : Kernel) (pid address : Nat) (task : Task) :
    (k.setTask pid address task).taskTable pid = .task address task := by
  simp [Kernel.setTask]

@[simp] theorem setTask_other {other : Nat} (hne : other ≠ pid) :
    (k.setTask pid address task).taskTable other = k.taskTable other := by
  simp [Kernel.setTask, hne]

theorem SameTasks.of_eq (heq : next.taskTable = k.taskTable) : SameTasks k next := by
  intro pid address task
  rw [heq]

theorem OnlyTask.of_eq (heq : next.taskTable = k.taskTable) : OnlyTask pid k next where
  others other _ := by rw [heq]
  kept address task h := ⟨task, by rw [heq]; exact h, .refl task⟩

theorem OnlyTask.trans (hfirst : OnlyTask pid k middle) (hsecond : OnlyTask pid middle next) :
    OnlyTask pid k next where
  others other hne := (hsecond.others other hne).trans (hfirst.others other hne)
  kept address task h := by
    obtain ⟨task', h', hkeeps⟩ := hfirst.kept address task h
    obtain ⟨task'', h'', hkeeps'⟩ := hsecond.kept address task' h'
    exact ⟨task'', h'', hkeeps.trans hkeeps'⟩

theorem OnlyTask.setTask (hslot : k.taskTable pid = .task address task) (heap : Heap)
    (others : Nat → Nat) (task' : Task) (hkeeps : Keeps task task') :
    OnlyTask pid k (Kernel.setTask ⟨heap, k.taskTable, others⟩ pid address task') where
  others other hne := setTask_other hne
  kept address' task'' h := by
    rw [hslot] at h
    cases h
    exact ⟨task', setTask_same _ _ _ _, hkeeps⟩

theorem createFileHandle_only (k : Kernel) (pid : Nat) : OnlyTask pid k (createFileHandle k pid) := by
  unfold createFileHandle
  split
  · rename_i address task hslot
    exact OnlyTask.setTask hslot _ _ _ ⟨rfl, rfl, rfl, id⟩
  · exact .of_eq rfl

theorem createFileHandleV2_only (k : Kernel) (pid : Nat) (handle : FileHandleV2) :
    OnlyTask pid k (createFileHandleV2 k pid handle) := by
  unfold createFileHandleV2
  split
  · rename_i address task hslot
    dsimp only
    split
    · exact OnlyTask.setTask hslot k.heap k.others _ ⟨rfl, rfl, rfl, id⟩
    · exact OnlyTask.setTask hslot _ _ _ ⟨rfl, rfl, rfl, id⟩
  · exact .of_eq rfl

theorem openStream_only (k : Kernel) (pid : Nat) (stream : Stream) :
    OnlyTask pid k (openStream k pid stream) :=
  (OnlyTask.of_eq (requests_taskTable k stream.requests)).trans
    (createFileHandleV2_only _ pid stream.handle)

theorem openStreams_only (k : Kernel) (pid : Nat) (vfs : Activity) :
    OnlyTask pid k (openStreams k pid vfs) :=
  (createFileHandle_only k pid).trans <| (createFileHandle_only _ pid).trans <|
    (createFileHandle_only _ pid).trans <| (openStream_only _ pid vfs.stdin).trans <|
      (openStream_only _ pid vfs.stdout).trans (openStream_only _ pid vfs.stderr)

theorem freePid_free {table : Nat → Slot} {fuel start : Nat}
    (hfound : freePid table fuel start = some pid) :
    pid < start + fuel ∧ (table pid).status = none := by
  induction fuel generalizing start with
  | zero => cases hfound
  | succ fuel ih =>
      unfold freePid at hfound
      split at hfound
      · obtain ⟨hlt, hfree⟩ := ih hfound
        exact ⟨by omega, hfree⟩
      · rename_i hslot
        cases hfound
        refine ⟨by omega, ?_⟩
        cases hentry : table pid with
        | task address task => exact absurd hentry (hslot address task)
        | null => rfl
        | empty => rfl

theorem free_ne_task (hfree : (k.taskTable pid).status = none) (address : Nat) (task : Task) :
    k.taskTable pid ≠ .task address task := by
  intro h
  simp [h, Slot.status] at hfree

-- A new task takes an entry that held none.
theorem taskCreate_table (k : Kernel) (new : Task) :
    ((taskCreate k new).1 = none ∧ SameTasks k (taskCreate k new).2) ∨
    ∃ child address, (taskCreate k new).1 = some child ∧ child < KRNL_MAX_TASKS ∧
      (k.taskTable child).status = none ∧
      (taskCreate k new).2.taskTable =
        Function.update k.taskTable child (.task address new) := by
  unfold taskCreate
  split
  · exact Or.inl ⟨rfl, .of_eq rfl⟩
  · rename_i child hfound
    obtain ⟨hlt, hfree⟩ := freePid_free hfound
    rw [Nat.zero_add] at hlt
    split
    · refine Or.inl ⟨rfl, ?_⟩
      intro pid address task
      by_cases he : pid = child
      · subst he
        simp [free_ne_task hfree]
      · simp [he]
    · exact Or.inr ⟨child, _, rfl, hlt, hfree, rfl⟩

-- What a launch does to the table.
def Spawned (current : Nat) (k next : Kernel) : Option Nat → Prop
  | none => SameTasks k next
  | some child => child < KRNL_MAX_TASKS ∧ (k.taskTable child).status = none ∧
      (∀ other, other ≠ child → next.taskTable other = k.taskTable other) ∧
      ∃ address task, next.taskTable child = .task address task ∧ task.parent = current ∧
        task.ipcQueuePtr = 0

theorem launch_spawned (k : Kernel) (current base : Nat) (info : TaskInfo) (file : ProgramFile)
    (vfs : Activity) : Spawned current k (launch k current base info file vfs).2
      (launch k current base info file vfs).1 := by
  unfold launch
  dsimp only
  have htable := taskCreate_table
    { k.requests vfs.load with
      heap.mem := loadProgram (k.requests vfs.load).heap.mem base file }
    (newTask current base file)
  rcases hcreate : taskCreate _ (newTask current base file) with ⟨result, created⟩
  rw [hcreate] at htable
  rcases htable with ⟨rfl, hsame⟩ | ⟨child, address, rfl, hlt, hfree, htable⟩
  · intro pid address task
    rw [← requests_taskTable k vfs.load]
    exact hsame pid address task
  · dsimp only at htable hfree ⊢
    rw [requests_taskTable] at htable hfree
    have hslot : created.taskTable child = .task address (newTask current base file) := by
      simp [htable]
    rw [hslot]
    dsimp only
    have honly := (OnlyTask.setTask hslot created.heap created.others
      (setupTask (newTask current base file) file info) ⟨rfl, rfl, rfl, id⟩).trans
        (openStreams_only _ child vfs)
    refine ⟨hlt, hfree, ?_, ?_⟩
    · intro other hne
      rw [← Function.update_of_ne hne (Slot.task address (newTask current base file)) k.taskTable,
        ← htable]
      exact honly.others other hne
    · obtain ⟨task, htask, hkeeps⟩ := honly.kept _ _ hslot
      exact ⟨address, task, htask, hkeeps.parent, hkeeps.count⟩

theorem generalExecute_spawned (k : Kernel) (current : Nat) (info : TaskInfo)
    (file : Option ProgramFile) (vfs : Activity) :
    Spawned current k (generalExecute k current info file vfs).2
      (generalExecute k current info file vfs).1 := by
  unfold generalExecute
  split
  · exact .of_eq rfl
  · dsimp only
    split
    · exact .of_eq rfl
    · exact launch_spawned { k with heap := _ } current _ info _ vfs

theorem SameTasks.called (hsame : SameTasks k next) : CalledBy actor k next where
  others pid address task _ h := (hsame pid address task).mpr h
  kept address task h := ⟨task, (hsame actor address task).mpr h, .refl task⟩
  parents pid address task h := Or.inr ⟨address, task, (hsame pid address task).mp h, .refl task⟩

theorem OnlyTask.back (honly : OnlyTask actor k next)
    (hslot : k.taskTable actor = .task address task) {address' : Nat} {task' : Task}
    (hnext : next.taskTable pid = .task address' task') :
    ∃ oldAddress old, k.taskTable pid = .task oldAddress old ∧ Keeps old task' := by
  by_cases he : pid = actor
  · subst he
    obtain ⟨task'', h, hkeeps⟩ := honly.kept address task hslot
    rw [h] at hnext
    cases hnext
    exact ⟨address, task, hslot, hkeeps⟩
  · rw [honly.others pid he] at hnext
    exact ⟨address', task', hnext, .refl task'⟩

theorem OnlyTask.called (honly : OnlyTask actor k next)
    (hslot : k.taskTable actor = .task address task) : CalledBy actor k next where
  others pid address task hne h := (honly.others pid hne).trans h
  kept := honly.kept
  parents _ _ _ h := Or.inr (honly.back hslot h)

theorem CalledBy.trans (hfirst : CalledBy actor k middle) (hsecond : CalledBy actor middle next) :
    CalledBy actor k next where
  others pid address task hne h :=
    hsecond.others pid address task hne (hfirst.others pid address task hne h)
  kept address task h := by
    obtain ⟨task', h', hkeeps⟩ := hfirst.kept address task h
    obtain ⟨task'', h'', hkeeps'⟩ := hsecond.kept address task' h'
    exact ⟨task'', h'', hkeeps.trans hkeeps'⟩
  parents pid address task h := by
    rcases hsecond.parents pid address task h with hchild | ⟨address', task', h', hkeeps⟩
    · exact Or.inl hchild
    · rcases hfirst.parents pid address' task' h' with ⟨hlt, hchild, hempty⟩ |
        ⟨address'', task'', h'', hkeeps'⟩
      · exact Or.inl ⟨hlt, hkeeps.parent.trans hchild, hkeeps.count.trans hempty⟩
      · exact Or.inr ⟨address'', task'', h'', hkeeps'.trans hkeeps⟩

theorem CalledBy.congr {other : Kernel} (hcalled : CalledBy actor k next)
    (heq : other.taskTable = next.taskTable) : CalledBy actor k other where
  others pid address task hne h := by rw [heq]; exact hcalled.others pid address task hne h
  kept address task h := by rw [heq]; exact hcalled.kept address task h
  parents pid address task h := hcalled.parents pid address task (by rw [← heq]; exact h)

theorem CalledBy.of_heap (heap : Heap) (hcalled : CalledBy actor { k with heap := heap } next) :
    CalledBy actor k next :=
  ⟨hcalled.others, hcalled.kept, hcalled.parents⟩

theorem Spawned.called {result : Option Nat} (hspawn : Spawned actor k next result) :
    CalledBy actor k next := by
  cases result with
  | none => exact SameTasks.called hspawn
  | some child =>
      obtain ⟨hlt, hfree, hothers, address, task, htask, hparent, hempty⟩ := hspawn
      have hne : ∀ pid address task, k.taskTable pid = .task address task → pid ≠ child := by
        intro pid address task h he
        exact free_ne_task hfree address task (he ▸ h)
      constructor
      · intro pid address task _ h
        rw [hothers pid (hne pid address task h)]
        exact h
      · intro address task h
        exact ⟨task, by rw [hothers actor (hne actor address task h)]; exact h, .refl task⟩
      · intro pid address' task' h
        by_cases he : pid = child
        · subst he
          rw [htask] at h
          cases h
          exact Or.inl ⟨hlt, hparent, hempty⟩
        · rw [hothers pid he] at h
          exact Or.inr ⟨address', task', h, .refl task'⟩

@[simp] theorem cloneHandles_taskTable (forks : Nat → ForkedHandle) (k : Kernel) (index : Nat)
    (handles : List FileHandleV2) :
    (cloneHandles forks k index handles).1.taskTable = k.taskTable := by
  induction handles generalizing k index with
  | nil => rfl
  | cons handle rest ih =>
      unfold cloneHandles
      split
      · exact ih k (index + 1)
      · exact (ih _ (index + 1)).trans (requests_taskTable k _)

theorem forkFail_called {other : Task} (hslot : k.taskTable actor = .task address other)
    (hsame : SameTasks k next) (hkeeps : Keeps other task) :
    CalledBy actor k (forkFail next actor address task).2 :=
  hsame.called.trans ((OnlyTask.setTask ((hsame actor address other).mpr hslot) next.heap
    next.others (task.withEax FAILURE) (hkeeps.trans ⟨rfl, rfl, rfl, id⟩)).called
      ((hsame actor address other).mpr hslot))

theorem forkClone_called {other : Task} (hslot : k.taskTable actor = .task address other)
    (hkeeps : Keeps other task) (forks : Nat → ForkedHandle)
    (base handles handlesV2 : Nat) :
    CalledBy actor k (forkClone k actor address task forks base handles handlesV2).2 := by
  unfold forkClone
  dsimp only
  generalize hmem : ByteStore.write _ base _ = mem
  generalize hcloned : cloneHandles forks k 0 task.handlesV2 = cloned
  have hstart : cloned.1.taskTable = k.taskTable := by
    rw [← hcloned, cloneHandles_taskTable]
  have htable := taskCreate_table { cloned.1 with heap.mem := mem }
    (forkedTask task actor base handles handlesV2 cloned.2)
  rcases hcreate : taskCreate _ (forkedTask task actor base handles handlesV2 cloned.2)
    with ⟨result, created⟩
  rw [hcreate] at htable
  rcases htable with ⟨rfl, hsame⟩ | ⟨child, newAddress, rfl, hlt, hfree, htable⟩
  · apply forkFail_called hslot _ hkeeps
    intro pid address' task'
    rw [← hstart]
    exact hsame pid address' task'
  · dsimp only at htable hfree ⊢
    rw [hstart] at htable hfree
    have hne : actor ≠ child := fun he => free_ne_task hfree address other (he ▸ hslot)
    -- the registers of the child are set after those of the parent, at another pid
    let spawned := created.setTask child newAddress
      ((forkedTask task actor base handles handlesV2 cloned.2).withEax 0)
    have hspawn : Spawned actor k spawned (some child) := by
      refine ⟨hlt, hfree, fun pid hpid => ?_, newAddress, _, setTask_same _ _ _ _, rfl, rfl⟩
      rw [setTask_other hpid, htable, Function.update_of_ne hpid]
    have hself : spawned.taskTable actor = .task address other := by
      rw [setTask_other hne, htable, Function.update_of_ne hne, hslot]
    have hcalled := hspawn.called.trans ((OnlyTask.setTask hself spawned.heap spawned.others
      (task.withEax child) (hkeeps.trans ⟨rfl, rfl, rfl, id⟩)).called hself)
    rw [setTask_other hne.symm, htable, Function.update_self]
    refine hcalled.congr ?_
    exact Function.update_comm hne _ _ created.taskTable

-- The allocations of task_fork change the heap only, and it fails or clones.
theorem forkAlloc_cases (k : Kernel) (current address : Nat) (task : Task)
    (forks : Nat → ForkedHandle) : ∃ heap : Heap,
      forkAlloc k current address task forks = forkFail { k with heap := heap } current address task ∨
      ∃ base handles handlesV2, forkAlloc k current address task forks =
        forkClone { k with heap := heap } current address task forks base handles handlesV2 := by
  unfold forkAlloc
  dsimp only
  split
  · exact ⟨_, Or.inl rfl⟩
  split
  · exact ⟨_, Or.inl rfl⟩
  split
  · exact ⟨_, Or.inl rfl⟩
  · exact ⟨_, Or.inr ⟨_, _, _, rfl⟩⟩

theorem taskFork_called (k : Kernel) (current : Nat) (cpu : GprState)
    (forks : Nat → ForkedHandle) : CalledBy current k (taskFork k current cpu forks).2 := by
  unfold taskFork
  split
  · rename_i address task hslot
    have hkeeps : Keeps task { task with cpu := cpu } := ⟨rfl, rfl, rfl, id⟩
    obtain ⟨heap, hfail | ⟨base, handles, handlesV2, hclone⟩⟩ :=
      forkAlloc_cases k current address { task with cpu := cpu } forks
    · rw [hfail]
      exact forkFail_called hslot (.of_eq rfl) hkeeps
    · rw [hclone]
      apply CalledBy.of_heap heap
      have hkept : ({ k with heap := heap } : Kernel).taskTable current = .task address task := hslot
      exact forkClone_called hkept hkeeps forks _ _ _
  · exact (SameTasks.of_eq rfl).called

theorem resizeHeap_only (k : Kernel) (current : Nat) (heapSize : UInt32) :
    OnlyTask current k (resizeHeap k current heapSize) := by
  unfold resizeHeap
  split
  · rename_i address task hslot
    dsimp only
    split
    · exact .of_eq rfl
    · exact OnlyTask.setTask hslot _ _ _ ⟨rfl, rfl, rfl, id⟩
  · exact .of_eq rfl

theorem execve_only (k : Kernel) (current : Nat) (argv envp : List ExecString)
    (file : Option ProgramFile) (load : List Request) :
    OnlyTask current k (execve k current argv envp file load) := by
  unfold execve
  split
  · rename_i address task hslot
    split
    · exact .of_eq rfl
    · rename_i file
      dsimp only
      generalize execveTemporaries k.heap argv envp = tmp
      generalize kalloc tmp.2 _ = result
      have hkeeps : Keeps task (execvedTask task result.1 file) := ⟨rfl, rfl, rfl, nofun⟩
      apply (OnlyTask.setTask hslot k.heap k.others _ hkeeps).trans
      apply OnlyTask.of_eq
      simp only [execveLoad, Kernel.setTask, requests_taskTable]
  · exact .of_eq rfl

theorem taskSwitch_only (k : Kernel) (current : Nat) (cpu : GprState) :
    OnlyTask current k (taskSwitch k current cpu) := by
  unfold taskSwitch
  split
  · rename_i address task hslot
    exact OnlyTask.setTask hslot k.heap k.others _ ⟨rfl, rfl, rfl, id⟩
  · exact .of_eq rfl

theorem generalExecuteBlock_called (k : Kernel) (current : Nat) (cpu : GprState)
    (info : TaskInfo) (file : Option ProgramFile) (vfs : Activity) :
    CalledBy current k (generalExecuteBlock k current cpu info file vfs).2 := by
  have hcalled := (generalExecute_spawned k current info file vfs).called
  unfold generalExecuteBlock
  generalize generalExecute k current info file vfs = result at hcalled ⊢
  rcases result with ⟨_ | child, next⟩
  · exact hcalled
  · dsimp only at hcalled ⊢
    split
    · rename_i address task hslot
      exact hcalled.trans ((OnlyTask.setTask hslot next.heap next.others
        { task with status := .procwait, cpu := cpu } ⟨rfl, rfl, rfl, nofun⟩).called hslot)
    · exact hcalled

-- At first the kernel task is the only one.
theorem taskInit_table {heap : Heap} {others : Nat → Nat}
    (hboot : taskInit heap others = some k) : ∃ address task,
      k.taskTable = Function.update (fun _ => .null) 0 (.task address task) ∧
      task.status = .res ∧ task.parent = 0 ∧ task.ipcQueuePtr = 0 ∧ task.ldt = 0 ∧
      task.ldtEntries = 0 := by
  unfold taskInit at hboot
  dsimp only at hboot
  generalize kalloc heap _ = table at hboot
  generalize kalloc table.2 _ = entry at hboot
  split at hboot
  · cases hboot
  split at hboot
  · cases hboot
  · cases hboot
    exact ⟨_, _, rfl, rfl, rfl, rfl, rfl, rfl⟩

theorem taskInit_only {heap : Heap} {others : Nat → Nat}
    (hboot : taskInit heap others = some k) (hslot : k.taskTable pid = .task address task) :
    pid = 0 ∧ task.parent = 0 ∧ task.ipcQueuePtr = 0 := by
  obtain ⟨first, kernel, htable, -, hparent, hempty, -⟩ := taskInit_table hboot
  rw [htable] at hslot
  by_cases he : pid = 0
  · subst he
    rw [Function.update_self] at hslot
    cases hslot
    exact ⟨rfl, hparent, hempty⟩
  · rw [Function.update_of_ne he] at hslot
    cases hslot

theorem isActive_slot (hactive : k.isActive pid = true) :
    ∃ address task, k.taskTable pid = .task address task ∧ task.status = .active := by
  unfold Kernel.isActive at hactive
  cases hslot : k.taskTable pid with
  | task address task => exact ⟨address, task, rfl, by simpa [hslot, Slot.status] using hactive⟩
  | null => simp [hslot, Slot.status] at hactive
  | empty => simp [hslot, Slot.status] at hactive

theorem OnlyTask.called_of_active (honly : OnlyTask pid k next) (hactive : k.isActive pid = true) :
    CalledBy pid k next := by
  obtain ⟨address, task, hslot, -⟩ := isActive_slot hactive
  exact honly.called hslot

-- Every step is the quit of a running task, another call of a running task, a launch, or
-- work of the rest of the kernel that leaves the table alone.
theorem step_cases {action : Action} (hstep : step k action = some next) :
    (∃ pid value, action = .quit pid value ∧ k.isActive pid = true ∧
      taskQuit k pid value = some next) ∨
    (∃ actor, k.isActive actor = true ∧ CalledBy actor k next) ∨
    (∃ actor info file vfs, action = .execute actor info file vfs ∧ k.canLaunch actor = true ∧
      next = (generalExecute k actor info file vfs).2) ∨
    next.taskTable = k.taskTable := by
  cases action with
  | quit pid value =>
      simp only [step, Option.ite_none_right_eq_some] at hstep
      exact Or.inl ⟨pid, value, rfl, hstep⟩
  | kernel reqs =>
      simp only [step, Option.some.injEq] at hstep
      subst hstep
      exact Or.inr (Or.inr (Or.inr (requests_taskTable k reqs)))
  | execute pid info file vfs =>
      simp only [step, Option.ite_none_right_eq_some, Option.some.injEq] at hstep
      obtain ⟨hlaunch, rfl⟩ := hstep
      exact Or.inr (Or.inr (Or.inl ⟨pid, info, file, vfs, rfl, hlaunch, rfl⟩))
  | executeBlock pid cpu info file vfs =>
      simp only [step, Option.ite_none_right_eq_some, Option.some.injEq] at hstep
      obtain ⟨hactive, rfl⟩ := hstep
      exact Or.inr (Or.inl ⟨pid, hactive,
        generalExecuteBlock_called k pid cpu info file vfs⟩)
  | fork pid cpu forks =>
      simp only [step, Option.ite_none_right_eq_some, Option.some.injEq] at hstep
      obtain ⟨hactive, rfl⟩ := hstep
      exact Or.inr (Or.inl ⟨pid, hactive, taskFork_called k pid cpu forks⟩)
  | resizeHeap pid heapSize =>
      simp only [step, Option.ite_none_right_eq_some, Option.some.injEq] at hstep
      obtain ⟨hactive, rfl⟩ := hstep
      exact Or.inr (Or.inl ⟨pid, hactive,
        (resizeHeap_only k pid heapSize).called_of_active hactive⟩)
  | execve pid argv envp file load =>
      simp only [step, Option.ite_none_right_eq_some, Option.some.injEq] at hstep
      obtain ⟨hactive, rfl⟩ := hstep
      exact Or.inr (Or.inl ⟨pid, hactive,
        (execve_only k pid argv envp file load).called_of_active hactive⟩)
  | switch pid cpu =>
      simp only [step, Option.ite_none_right_eq_some, Option.some.injEq] at hstep
      obtain ⟨hactive, rfl⟩ := hstep
      exact Or.inr (Or.inl ⟨pid, hactive,
        (taskSwitch_only k pid cpu).called_of_active hactive⟩)

end EchidnaOS
