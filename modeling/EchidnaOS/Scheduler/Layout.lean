import EchidnaOS.Scheduler

namespace EchidnaOS.Scheduler

open EchidnaOS.Lib EchidnaOS.Lib.ByteStore EchidnaOS.Klib EchidnaOS.Ipc EchidnaOS.Vdev

variable {k middle next : Kernel} {m after : Machine} {pid current address : Nat} {task task' : Task}

-- The status of a task stays, or neither the one before nor the one after is that of the
-- kernel task, and the task does not come to wait for I/O.
def KeepsStatus (task task' : Task) : Prop :=
  (task'.status = task.status ∧ task'.iowaitType = task.iowaitType) ∨
    (task.status ≠ .res ∧ task'.status ≠ .res ∧ task'.status ≠ .iowait)

-- What may become of an entry: it stays, or its task changes or leaves.
inductive EntryStep : Slot → Slot → Prop where
  | same (slot : Slot) : EntryStep slot slot
  | change {address address' : Nat} {task task' : Task} (keeps : KeepsStatus task task') :
      EntryStep (.task address task) (.task address' task')
  | quit {address : Nat} {task : Task} (status : task.status ≠ .res) :
      EntryStep (.task address task) .empty

def Kept (k next : Kernel) : Prop := ∀ pid, EntryStep (k.taskTable pid) (next.taskTable pid)

-- An entry with no NULL before it is taken, by a new task or by EMPTY_PID.
structure Grown (child : Nat) (k next : Kernel) : Prop where
  before : ∀ pid, pid < child → k.taskTable pid ≠ .null
  notKernel : (k.taskTable child).status ≠ some .res
  taken : next.taskTable child ≠ .null
  notRes : (next.taskTable child).status ≠ some .res
  notIowait : (next.taskTable child).status ≠ some .iowait
  others : ∀ pid, pid ≠ child → EntryStep (k.taskTable pid) (next.taskTable pid)

def TableStep (k next : Kernel) : Prop := Kept k next ∨ ∃ child, Grown child k next

theorem KeepsStatus.trans {first second third : Task} (hfirst : KeepsStatus first second)
    (hsecond : KeepsStatus second third) : KeepsStatus first third := by
  rcases hfirst with ⟨hstatus, htype⟩ | ⟨hold, hnew, hio⟩
  · rcases hsecond with ⟨hstatus', htype'⟩ | ⟨hold', hnew', hio'⟩
    · exact Or.inl ⟨hstatus'.trans hstatus, htype'.trans htype⟩
    · exact Or.inr ⟨hstatus ▸ hold', hnew', hio'⟩
  · rcases hsecond with ⟨hstatus', htype'⟩ | ⟨hold', hnew', hio'⟩
    · exact Or.inr ⟨hold, hstatus' ▸ hnew, hstatus' ▸ hio⟩
    · exact Or.inr ⟨hold, hnew', hio'⟩

theorem KeepsStatus.not_res (hkeeps : KeepsStatus task task') (hres : task.status ≠ .res) :
    task'.status ≠ .res := by
  rcases hkeeps with ⟨hstatus, -⟩ | ⟨-, hnew, -⟩
  · rw [hstatus]
    exact hres
  · exact hnew

theorem KeepsStatus.not_res_before (hkeeps : KeepsStatus task task') (hres : task'.status ≠ .res) :
    task.status ≠ .res := by
  rcases hkeeps with ⟨hstatus, -⟩ | ⟨hold, -⟩
  · rw [← hstatus]
    exact hres
  · exact hold

theorem EntryStep.trans {first second third : Slot} (hfirst : EntryStep first second)
    (hsecond : EntryStep second third) : EntryStep first third := by
  cases hfirst with
  | same => exact hsecond
  | quit hstatus =>
      cases hsecond
      exact .quit hstatus
  | change hkeeps =>
      cases hsecond with
      | same => exact .change hkeeps
      | change hkeeps' => exact .change (hkeeps.trans hkeeps')
      | quit hstatus => exact .quit (hkeeps.not_res_before hstatus)

theorem EntryStep.null_iff {slot slot' : Slot} (hstep : EntryStep slot slot') :
    slot' = .null ↔ slot = .null := by
  cases hstep with
  | same => exact Iff.rfl
  | change => exact iff_of_false nofun nofun
  | quit => exact iff_of_false nofun nofun

theorem EntryStep.res_iff {slot slot' : Slot} (hstep : EntryStep slot slot') :
    slot'.status = some .res ↔ slot.status = some .res := by
  cases hstep with
  | same => exact Iff.rfl
  | quit hstatus => exact iff_of_false nofun fun hres => hstatus (Option.some.inj hres)
  | @change _ _ task task' hkeeps =>
      rw [Slot.status, Slot.status, Option.some.injEq, Option.some.injEq]
      have hafter := hkeeps.not_res
      have hbefore := hkeeps.not_res_before
      tauto

theorem Kept.of_eq (heq : next.taskTable = k.taskTable) : Kept k next := by
  intro pid
  rw [heq]
  exact .same _

theorem Kept.refl (k : Kernel) : Kept k k := .of_eq rfl

theorem Kept.withHeap (hkept : Kept k next) (heap : Heap) : Kept k { next with heap := heap } := hkept

theorem Kept.trans (hfirst : Kept k middle) (hsecond : Kept middle next) : Kept k next :=
  fun pid => (hfirst pid).trans (hsecond pid)

theorem Kept.setTask (hslot : k.taskTable pid = .task address task) (heap : Heap)
    (others : Nat → Nat) (address' : Nat) (task' : Task) (hkeeps : KeepsStatus task task') :
    Kept k (Kernel.setTask ⟨heap, k.taskTable, others⟩ pid address' task') := by
  intro other
  by_cases he : other = pid
  · rw [he, setTask_same, hslot]
    exact .change hkeeps
  · rw [setTask_other he]
    exact .same _

theorem Kept.status_ne_res (hkept : Kept k next) (hres : (k.taskTable pid).status ≠ some .res) :
    (next.taskTable pid).status ≠ some .res := by
  rw [Ne, (hkept pid).res_iff]
  exact hres

theorem Grown.kept {child : Nat} (hgrown : Grown child k middle) (hkept : Kept middle next) :
    Grown child k next := by
  refine ⟨hgrown.before, hgrown.notKernel, ?_, hkept.status_ne_res hgrown.notRes, ?_, ?_⟩
  · rw [Ne, (hkept child).null_iff]
    exact hgrown.taken
  · have htaken := hgrown.notIowait
    have hstep := hkept child
    intro hio
    cases hslot : middle.taskTable child with
    | null =>
        exact hgrown.taken hslot
    | empty =>
        rw [hslot] at hstep
        generalize next.taskTable child = slot at hstep hio
        cases hstep
        cases hio
    | task address task =>
        rw [hslot] at hstep htaken
        generalize next.taskTable child = slot at hstep hio
        cases hstep with
        | same => exact htaken hio
        | quit => cases hio
        | change hkeeps =>
            rcases hkeeps with ⟨hstatus, -⟩ | ⟨-, -, hne⟩
            · rw [Slot.status, hstatus] at hio
              exact htaken hio
            · exact hne (Option.some.inj hio)
  · exact fun pid hne => (hgrown.others pid hne).trans (hkept pid)

theorem Kept.grown {child : Nat} (hkept : Kept k middle) (hgrown : Grown child middle next) :
    Grown child k next := by
  refine ⟨?_, ?_, hgrown.taken, hgrown.notRes, hgrown.notIowait, ?_⟩
  · intro pid hlt hnull
    exact hgrown.before pid hlt ((hkept pid).null_iff.mpr hnull)
  · rw [Ne, ← (hkept child).res_iff]
    exact hgrown.notKernel
  · exact fun pid hne => (hkept pid).trans (hgrown.others pid hne)

theorem TableStep.kept (hstep : TableStep k middle) (hkept : Kept middle next) : TableStep k next := by
  rcases hstep with hfirst | ⟨child, hgrown⟩
  · exact Or.inl (hfirst.trans hkept)
  · exact Or.inr ⟨child, hgrown.kept hkept⟩

theorem Kept.tableStep (hkept : Kept k middle) (hstep : TableStep middle next) : TableStep k next := by
  rcases hstep with hsecond | ⟨child, hgrown⟩
  · exact Or.inl (hkept.trans hsecond)
  · exact Or.inr ⟨child, hkept.grown hgrown⟩

theorem KeepsStatus.of_eq (hstatus : task'.status = task.status)
    (htype : task'.iowaitType = task.iowaitType) : KeepsStatus task task' := Or.inl ⟨hstatus, htype⟩

theorem createFileHandle_kept (k : Kernel) (pid : Nat) : Kept k (createFileHandle k pid) := by
  unfold createFileHandle
  split
  · rename_i address task hslot
    exact Kept.setTask hslot _ _ _ _ (.of_eq rfl rfl)
  · exact .refl k

theorem createFileHandleV2_kept (k : Kernel) (pid : Nat) (handle : FileHandleV2) :
    Kept k (createFileHandleV2 k pid handle) := by
  unfold createFileHandleV2
  split
  · rename_i address task hslot
    dsimp only
    split
    · exact Kept.setTask hslot k.heap k.others _ _ (.of_eq rfl rfl)
    · exact Kept.setTask hslot _ _ _ _ (.of_eq rfl rfl)
  · exact .refl k

theorem openStream_kept (k : Kernel) (pid : Nat) (stream : Stream) : Kept k (openStream k pid stream) :=
  (Kept.of_eq (requests_taskTable k stream.requests)).trans
    (createFileHandleV2_kept _ pid stream.handle)

theorem openStreams_kept (k : Kernel) (pid : Nat) (vfs : Activity) : Kept k (openStreams k pid vfs) :=
  (createFileHandle_kept k pid).trans <| (createFileHandle_kept _ pid).trans <|
    (createFileHandle_kept _ pid).trans <| (openStream_kept _ pid vfs.stdin).trans <|
      (openStream_kept _ pid vfs.stdout).trans (openStream_kept _ pid vfs.stderr)

-- The entries before the one that is found are those of tasks.
theorem freePid_before {table : Nat → Slot} {fuel start other : Nat}
    (hfound : freePid table fuel start = some pid) (hstart : start ≤ other) (hother : other < pid) :
    table other ≠ .null := by
  induction fuel generalizing start with
  | zero => cases hfound
  | succ fuel ih =>
      unfold freePid at hfound
      split at hfound
      · rename_i address task hslot
        rcases hstart.eq_or_lt with heq | hlt
        · rw [← heq, hslot]
          nofun
        · exact ih hfound hlt
      · cases hfound
        omega

theorem status_ne_res_of_none (hfree : (k.taskTable pid).status = none) :
    (k.taskTable pid).status ≠ some .res := by
  rw [hfree]
  nofun

-- A new task that is ACTIVE takes an entry, or EMPTY_PID does.
theorem taskCreate_step (k : Kernel) {new : Task} (hactive : new.status = .active) :
    TableStep k (taskCreate k new).2 := by
  unfold taskCreate
  split
  · exact Or.inl (.refl k)
  · rename_i child hfound
    have hfree := (freePid_free hfound).2
    have hgrown : ∀ slot heap, slot ≠ .null → slot.status ≠ some .res → slot.status ≠ some .iowait →
        Grown child k { k with heap := heap, taskTable := Function.update k.taskTable child slot } := by
      intro slot heap hnull hres hio
      refine ⟨fun pid => freePid_before hfound (Nat.zero_le pid), status_ne_res_of_none hfree,
        ?_, ?_, ?_, ?_⟩
      · simpa only [Function.update_self] using hnull
      · simpa only [Function.update_self] using hres
      · simpa only [Function.update_self] using hio
      · intro pid hne
        simpa only [Function.update_of_ne hne] using EntryStep.same _
    split
    · exact Or.inr ⟨child, hgrown .empty _ nofun nofun nofun⟩
    · refine Or.inr ⟨child, hgrown _ _ nofun ?_ ?_⟩
      · simp [Slot.status, hactive]
      · simp [Slot.status, hactive]

theorem taskCreate_slot {new : Task} {child : Nat} (hchild : (taskCreate k new).1 = some child) :
    ∃ address, (taskCreate k new).2.taskTable child = .task address new := by
  rcases taskCreate_table k new with ⟨hnone, -⟩ | ⟨other, address, hsome, -, -, htable⟩
  · rw [hnone] at hchild
    cases hchild
  · rw [hsome, Option.some.injEq] at hchild
    subst hchild
    exact ⟨address, by rw [htable, Function.update_self]⟩

theorem launch_step (k : Kernel) (current base : Nat) (info : TaskInfo) (file : ProgramFile)
    (vfs : Activity) : TableStep k (launch k current base info file vfs).2 := by
  have hkept : Kept k (k.requests vfs.load) := .of_eq (requests_taskTable k vfs.load)
  unfold launch
  dsimp only
  generalize k.requests vfs.load = loaded at hkept ⊢
  have hloaded := hkept.withHeap { loaded.heap with mem := loadProgram loaded.heap.mem base file }
  generalize ({ loaded with heap.mem := loadProgram loaded.heap.mem base file } : Kernel) = started
    at hloaded ⊢
  have hcreated := hloaded.tableStep (@taskCreate_step started (newTask current base file) rfl)
  have hslot := @taskCreate_slot started (newTask current base file)
  rcases hcreate : taskCreate started (newTask current base file) with ⟨result, created⟩
  rw [hcreate] at hcreated hslot
  cases result with
  | none => exact hcreated.kept ((Kept.refl created).withHeap _)
  | some child =>
      obtain ⟨address, hchild⟩ := hslot rfl
      dsimp only at hchild ⊢
      rw [hchild]
      have hset := Kept.setTask hchild created.heap created.others address
        (setupTask (newTask current base file) file info) (.of_eq rfl rfl)
      have hopened := hset.trans (openStreams_kept _ child vfs)
      exact hcreated.kept (hopened.withHeap _)

theorem generalExecute_step (k : Kernel) (current : Nat) (info : TaskInfo)
    (file : Option ProgramFile) (vfs : Activity) :
    TableStep k (generalExecute k current info file vfs).2 := by
  unfold generalExecute
  split
  · exact Or.inl (.refl k)
  · dsimp only
    split
    · exact Or.inl (.of_eq rfl)
    · rename_i file _
      let allocated := { k with
        heap := (kalloc k.heap (programPages file.size * PAGE_SIZE % 2 ^ 32)).2 }
      have hkept : Kept k allocated := .of_eq rfl
      exact hkept.tableStep (launch_step allocated current _ info file vfs)

theorem TableStep.status_ne_res (hstep : TableStep k next)
    (hres : (k.taskTable pid).status ≠ some .res) : (next.taskTable pid).status ≠ some .res := by
  rcases hstep with hkept | ⟨child, hgrown⟩
  · exact hkept.status_ne_res hres
  · by_cases he : pid = child
    · subst he
      exact hgrown.notRes
    · rw [Ne, (hgrown.others pid he).res_iff]
      exact hres

theorem ne_res_of_isActive (hactive : k.isActive pid = true) :
    (k.taskTable pid).status ≠ some .res := by
  obtain ⟨address, task, hslot, hstatus⟩ := isActive_slot hactive
  rw [hslot, Slot.status, hstatus]
  simp

theorem slot_ne_res (hslot : k.taskTable pid = .task address task)
    (hres : (k.taskTable pid).status ≠ some .res) : task.status ≠ .res := by
  rw [hslot] at hres
  exact fun h => hres (congrArg some h)

theorem generalExecuteBlock_step (hactive : k.isActive current = true) (cpu : GprState)
    (info : TaskInfo) (file : Option ProgramFile) (vfs : Activity) :
    TableStep k (generalExecuteBlock k current cpu info file vfs).2 := by
  have hstep := generalExecute_step k current info file vfs
  unfold generalExecuteBlock
  generalize generalExecute k current info file vfs = result at hstep ⊢
  rcases result with ⟨_ | child, launched⟩
  · exact hstep
  · dsimp only at hstep ⊢
    split
    · rename_i address task hslot
      have hres := slot_ne_res hslot (hstep.status_ne_res (ne_res_of_isActive hactive))
      exact hstep.kept (Kept.setTask hslot launched.heap launched.others _ _
        (Or.inr ⟨hres, nofun, nofun⟩))
    · exact hstep

theorem resizeHeap_kept (k : Kernel) (current : Nat) (heapSize : UInt32) :
    Kept k (resizeHeap k current heapSize) := by
  unfold resizeHeap
  split
  · rename_i address task hslot
    dsimp only
    split
    · exact .of_eq rfl
    · exact Kept.setTask hslot _ _ _ _ (.of_eq rfl rfl)
  · exact .refl k

theorem execve_kept (hactive : k.isActive current = true) (argv envp : List ExecString)
    (file : Option ProgramFile) (load : List Request) :
    Kept k (execve k current argv envp file load) := by
  unfold execve
  split
  · rename_i address task hslot
    have hres := slot_ne_res hslot (ne_res_of_isActive hactive)
    split
    · exact .of_eq rfl
    · rename_i file
      dsimp only
      generalize execveTemporaries k.heap argv envp = tmp
      generalize kalloc tmp.2 _ = result
      have hset := Kept.setTask hslot k.heap k.others address (execvedTask task result.1 file)
        (Or.inr ⟨hres, nofun, nofun⟩)
      apply hset.trans
      apply Kept.of_eq
      simp only [execveLoad, Kernel.setTask, requests_taskTable]
  · exact .refl k

theorem taskSwitch_kept (k : Kernel) (current : Nat) (cpu : GprState) :
    Kept k (taskSwitch k current cpu) := by
  unfold taskSwitch
  split
  · rename_i address task hslot
    exact Kept.setTask hslot k.heap k.others _ _ (.of_eq rfl rfl)
  · exact .refl k

theorem forkFail_step {other : Task} (hstep : TableStep k next)
    (hheld : next.taskTable current = .task address other) (hkeeps : KeepsStatus other task) :
    TableStep k (forkFail next current address task).2 :=
  hstep.kept (Kept.setTask hheld next.heap next.others address (task.withEax FAILURE) hkeeps)

-- The child has the status of its parent.
theorem forkClone_step {other : Task} (hslot : k.taskTable current = .task address other)
    (hactive : task.status = .active) (hkeeps : KeepsStatus other task) (forks : Nat → ForkedHandle)
    (base handles handlesV2 : Nat) :
    TableStep k (forkClone k current address task forks base handles handlesV2).2 := by
  have hcloned : Kept k (cloneHandles forks k 0 task.handlesV2).1 :=
    .of_eq (cloneHandles_taskTable forks k 0 task.handlesV2)
  have hcurrent := hslot
  rw [← cloneHandles_taskTable forks k 0 task.handlesV2] at hcurrent
  unfold forkClone
  dsimp only
  generalize cloneHandles forks k 0 task.handlesV2 = cloned at hcloned hcurrent ⊢
  have hcopied := hcloned.withHeap { cloned.1.heap with
    mem := write cloned.1.heap.mem base
      (read cloned.1.heap.mem task.base (task.pages * PAGE_SIZE % 2 ^ 32)) }
  generalize hcopy : ({ cloned.1 with
    heap.mem := write cloned.1.heap.mem base
      (read cloned.1.heap.mem task.base (task.pages * PAGE_SIZE % 2 ^ 32)) } : Kernel) = copied
    at hcopied ⊢
  have hheld : copied.taskTable current = .task address other := by
    rw [← hcopy]
    exact hcurrent
  generalize hchild : forkedTask task current base handles handlesV2 cloned.2 = child
  have hstatus : child.status = .active := by
    rw [← hchild]
    exact hactive
  have hcreated := hcopied.tableStep (taskCreate_step copied hstatus)
  have htable := taskCreate_table copied child
  rcases hcreate : taskCreate copied child with ⟨result, created⟩
  rw [hcreate] at hcreated htable
  rcases htable with ⟨rfl, hsame⟩ | ⟨newPid, newAddress, rfl, -, hfree, htable⟩
  · have hkept := (hsame current address other).mpr hheld
    exact forkFail_step (hcreated.kept ((Kept.refl created).withHeap _)) hkept hkeeps
  · have hne : current ≠ newPid := by
      rintro rfl
      exact free_ne_task hfree address other hheld
    have hself : created.taskTable current = .task address other := by
      dsimp only at htable
      rw [htable, Function.update_of_ne hne, hheld]
    have hparent := hcreated.kept
      (Kept.setTask hself created.heap created.others address (task.withEax newPid) hkeeps)
    dsimp only
    split
    · rename_i childAddress forked hforked
      exact hparent.kept (Kept.setTask hforked _ _ _ _ (.of_eq rfl rfl))
    · exact hparent

theorem taskFork_step (hactive : k.isActive current = true) (cpu : GprState)
    (forks : Nat → ForkedHandle) : TableStep k (taskFork k current cpu forks).2 := by
  obtain ⟨address, task, hslot, hstatus⟩ := isActive_slot hactive
  have hkeeps : KeepsStatus task { task with cpu := cpu } := .of_eq rfl rfl
  unfold taskFork
  rw [hslot]
  dsimp only
  obtain ⟨heap, hfail | ⟨base, handles, handlesV2, hclone⟩⟩ :=
    forkAlloc_cases k current address { task with cpu := cpu } forks
  · rw [hfail]
    exact forkFail_step (Or.inl ((Kept.refl k).withHeap heap)) hslot hkeeps
  · rw [hclone]
    have hkept : Kept k { k with heap := heap } := (Kept.refl k).withHeap heap
    have hheld : ({ k with heap := heap } : Kernel).taskTable current = .task address task := hslot
    have hregisters : ({ task with cpu := cpu } : Task).status = .active := hstatus
    exact hkept.tableStep (forkClone_step hheld hregisters hkeeps forks base handles handlesV2)

theorem wakeParent_kept (value : Int) (hslot : k.taskTable pid = .task address task) :
    Kept k (wakeParent k pid address task value) := by
  unfold wakeParent
  split
  · rename_i hwaits
    refine Kept.setTask hslot k.heap k.others address _ (Or.inr ⟨?_, nofun, nofun⟩)
    rw [hwaits]
    nofun
  · exact .refl k

theorem taskQuit_kept {value : Int} (hactive : k.isActive pid = true)
    (hquit : taskQuit k pid value = some next) : Kept k next := by
  obtain ⟨address, task, parentAddress, parent, hslot, hparent, htable⟩ := taskQuit_table hquit
  have hwoken := wakeParent_kept value hparent
  have hres := ne_res_of_isActive hactive
  intro other
  rw [htable]
  by_cases he : other = pid
  · rw [he, Function.update_self, hslot]
    exact .quit (slot_ne_res hslot hres)
  · rw [Function.update_of_ne he]
    exact hwoken other

theorem enqueue_keeps (task : Task) (packet : IpcPacket) : KeepsStatus task (enqueue task packet) := by
  by_cases hwaits : task.status = .ipcwait
  · refine Or.inr ⟨?_, ?_, ?_⟩
    · rw [hwaits]
      nofun
    · simp [enqueue, hwaits]
    · simp [enqueue, hwaits]
  · refine .of_eq ?_ rfl
    simp [enqueue, hwaits]

theorem ipcSendPacket_kept {payload len : UInt32} {result : Option IpcPacket × Kernel}
    (hactive : k.isActive current = true)
    (hsend : ipcSendPacket k current pid payload len = some result) : Kept k result.2 := by
  have hquits : ∀ {result : Option IpcPacket × Kernel},
      (taskQuit k current (-1)).map (none, ·) = some result → Kept k result.2 := by
    intro result hmap
    obtain ⟨quit, hquit, rfl⟩ := Option.map_eq_some_iff.mp hmap
    exact taskQuit_kept hactive hquit
  unfold ipcSendPacket at hsend
  split at hsend
  · split at hsend
    · split at hsend
      · rename_i address task hslot
        cases hsend
        exact Kept.setTask hslot k.heap k.others address _ (enqueue_keeps task _)
      · exact hquits hsend
    · exact hquits hsend
  · cases hsend

theorem pushQueueBack_kept {count : Nat} (hpush : pushQueueBack k pid count = some next) :
    Kept k next := by
  unfold pushQueueBack at hpush
  split at hpush
  · cases hpush
    exact .refl k
  · split at hpush
    · rename_i address task hslot
      cases hpush
      exact Kept.setTask hslot k.heap k.others _ _ (.of_eq rfl rfl)
    · cases hpush

theorem freeQueueEntry_kept (k : Kernel) (current : Nat) : Kept k (freeQueueEntry k current) := by
  unfold freeQueueEntry
  split
  · rename_i address task hslot
    exact Kept.setTask hslot k.heap k.others _ _ (.of_eq rfl rfl)
  · exact .refl k

theorem ipcReadPacket_kept {payload : UInt32} {result : Option IpcPacket × Kernel}
    (hactive : k.isActive current = true) (hread : ipcReadPacket k current payload = some result) :
    Kept k result.2 := by
  unfold ipcReadPacket at hread
  split at hread
  · split at hread
    · cases hread
      exact .refl k
    split at hread
    · obtain ⟨pushed, hpush, rfl⟩ := Option.map_eq_some_iff.mp hread
      have hpushed : Kept k pushed := fun pid => pushQueueBack_kept hpush pid
      exact hpushed.trans (freeQueueEntry_kept pushed current)
    · obtain ⟨quit, hquit, rfl⟩ := Option.map_eq_some_iff.mp hread
      exact taskQuit_kept hactive hquit
  · cases hread

theorem enterIpcwaitStatus_kept (hactive : k.isActive current = true) :
    Kept k (enterIpcwaitStatus k current) := by
  unfold enterIpcwaitStatus
  split
  · rename_i address task hslot
    have hres := slot_ne_res hslot (ne_res_of_isActive hactive)
    split
    · exact Kept.setTask hslot k.heap k.others _ _ (Or.inr ⟨hres, nofun, nofun⟩)
    · exact .refl k
  · exact .refl k

theorem wakeManager_kept {vdev : Nat} (hslot : k.taskTable pid = .task address task) :
    Kept k (wakeManager k pid address task vdev) := by
  unfold wakeManager
  split
  · rename_i hwaits
    refine Kept.setTask hslot k.heap k.others address _ (Or.inr ⟨?_, nofun, nofun⟩)
    rw [hwaits]
    nofun
  · exact .refl k

theorem vdevIoWrapper_kept {vdev : Nat} {transfer : Transfer} {result : Int × Machine}
    (hio : vdevIoWrapper m vdev transfer = some result) : Kept m.kernel result.2.kernel := by
  rcases vdevIoWrapper_cases hio with hsame | ⟨entry, address, task, mem, -, -, hslot, heq⟩
  · rw [hsame]
    exact .refl _
  · rw [heq]
    exact (wakeManager_kept hslot).withHeap _

theorem setStatus_kept (m : Machine) (current : Nat) {change : Task → Task}
    (hchange : ∀ address task, m.kernel.taskTable current = .task address task →
      KeepsStatus task (change task)) : Kept m.kernel (m.setStatus current change).kernel := by
  unfold Machine.setStatus
  split
  · rename_i address task hslot
    exact Kept.setTask hslot m.kernel.heap m.kernel.others _ _ (hchange address task hslot)
  · exact .refl _

theorem action_step {action : EchidnaOS.Action} (hstep : EchidnaOS.step k action = some next) :
    TableStep k next := by
  cases action with
  | execute pid info file vfs =>
      simp only [EchidnaOS.step, Option.ite_none_right_eq_some, Option.some.injEq] at hstep
      obtain ⟨-, rfl⟩ := hstep
      exact generalExecute_step k pid info file vfs
  | executeBlock pid cpu info file vfs =>
      simp only [EchidnaOS.step, Option.ite_none_right_eq_some, Option.some.injEq] at hstep
      obtain ⟨hactive, rfl⟩ := hstep
      exact generalExecuteBlock_step hactive cpu info file vfs
  | fork pid cpu forks =>
      simp only [EchidnaOS.step, Option.ite_none_right_eq_some, Option.some.injEq] at hstep
      obtain ⟨hactive, rfl⟩ := hstep
      exact taskFork_step hactive cpu forks
  | resizeHeap pid heapSize =>
      simp only [EchidnaOS.step, Option.ite_none_right_eq_some, Option.some.injEq] at hstep
      obtain ⟨-, rfl⟩ := hstep
      exact Or.inl (resizeHeap_kept k pid heapSize)
  | execve pid argv envp file load =>
      simp only [EchidnaOS.step, Option.ite_none_right_eq_some, Option.some.injEq] at hstep
      obtain ⟨hactive, rfl⟩ := hstep
      exact Or.inl (execve_kept hactive argv envp file load)
  | quit pid value =>
      simp only [EchidnaOS.step, Option.ite_none_right_eq_some] at hstep
      exact Or.inl (taskQuit_kept hstep.1 hstep.2)
  | switch pid cpu =>
      simp only [EchidnaOS.step, Option.ite_none_right_eq_some, Option.some.injEq] at hstep
      obtain ⟨-, rfl⟩ := hstep
      exact Or.inl (taskSwitch_kept k pid cpu)
  | kernel reqs =>
      simp only [EchidnaOS.step, Option.some.injEq] at hstep
      subst hstep
      exact Or.inl (.of_eq (requests_taskTable k reqs))

end EchidnaOS.Scheduler
