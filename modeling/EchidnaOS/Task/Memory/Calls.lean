import EchidnaOS.Task.Memory.Theorems

namespace EchidnaOS

open EchidnaOS.Lib EchidnaOS.Klib

variable {k next : Kernel} {owner owner' : Nat → Option Owner} {pid address ptr : Nat} {task : Task}
  {ldts : Nat → Prop}

theorem taskCreate_child_ne_zero (hkernel : ∃ address task, k.taskTable 0 = .task address task)
    {child : Nat} (hfree : (k.taskTable child).status = none) : child ≠ 0 := by
  rintro rfl
  obtain ⟨address, task, hslot⟩ := hkernel
  exact free_ne_task hfree address task hslot

theorem Owned.empty (howned : Owned ldts k owner) (pid : Nat) :
    Owned ldts { k with taskTable := Function.update k.taskTable pid .empty } owner where
  tagged := howned.tagged
  others := howned.others
  tasks other address task hslot := by
    by_cases he : other = pid
    · simp [he] at hslot
    · exact howned.tasks other address task (by simpa [he] using hslot)
  arrays := howned.arrays

-- task_create stores the three pointers of the new task, which were in local variables.
theorem Owned.create (howned : Owned ldts k owner)
    (hkernel : ∃ address task, k.taskTable 0 = .task address task) (new : Task)
    (hbase : new.base ≠ 0)
    (hheld : Held owner [new.base, new.fileHandles, new.fileHandlesV2])
    (hsized : ImageSized k.heap new) :
    ((taskCreate k new).1 = none ∧ Owned ldts (taskCreate k new).2 owner) ∨
    ∃ child address, (taskCreate k new).1 = some child ∧ child ≠ 0 ∧
      (taskCreate k new).2.taskTable child = .task address new ∧
      ∃ owner', Owned ldts (taskCreate k new).2 owner' := by
  unfold taskCreate
  split
  · exact Or.inl ⟨rfl, howned⟩
  · rename_i child hfound
    have hchild := taskCreate_child_ne_zero hkernel (freePid_free hfound).2
    rcases howned.alloc SIZEOF_TASK with ⟨hzero, hnext, -⟩ | ⟨hne, hfresh, hnext, hsize, hkept⟩
    · rw [if_pos hzero]
      exact Or.inl ⟨rfl, hnext.empty child⟩
    · rw [if_neg hne]
      refine Or.inr ⟨child, _, rfl, hchild, Function.update_self _ _ _, ?_⟩
      generalize hresult : kalloc k.heap SIZEOF_TASK = result at *
      have hheld₀ := hheld.cons hfresh
      have hheld₁ := hheld₀.given (.entry child)
      have hheld₂ := hheld₁.given (.image child)
      have hheld₃ := hheld₂.given (.handles child)
      have hnext₁ := hnext.given hheld₀.head (.entry child)
      have hnext₂ := hnext₁.given hheld₁.head (.image child)
      have hnext₃ := hnext₂.given hheld₂.head (.handles child)
      have hnext₄ := hnext₃.given hheld₃.head (.handlesV2 child)
      refine ⟨_, hnext₄.setTask ?_⟩
      constructor
      · exact give_keeps hheld₃.head (give_keeps hheld₂.head
          (give_keeps hheld₁.head (give_self hne) (by simp)) (by simp)) (by simp)
      · intro hhandles
        exact give_keeps hheld₃.head (give_self hhandles) (by simp)
      · exact give_self
      · intro _
        exact give_keeps hheld₃.head (give_keeps hheld₂.head (give_self hbase) (by simp)) (by simp)
      · intro _
        have hloose := hheld.head hbase
        exact hsized.of_metadata (hkept _ _ trivial hloose).2 rfl rfl
      · exact hsize

theorem TaskOwned.kept_field {heap other : Heap} (htask : TaskOwned heap owner pid address task)
    {tag : Owner} (hkept : Kept (· ≠ tag) heap other owner owner') (hentry : tag ≠ .entry pid)
    (himage : tag ≠ .image pid) :
    owner' address = some (.entry pid) ∧
      (pid ≠ 0 → owner' task.base = some (.image pid)) ∧ (pid ≠ 0 → ImageSized other task) ∧
      (other.metadata address).size = SIZEOF_TASK := by
  have hrecord := hkept _ _ hentry.symm htask.entry
  refine ⟨hrecord.1, fun h => (hkept _ _ himage.symm (htask.image h)).1, ?_, ?_⟩
  · exact fun h => (htask.sized h).of_metadata (hkept _ _ himage.symm (htask.image h)).2 rfl rfl
  · rw [hrecord.2]
    exact htask.record

-- The objects of the other tasks and of the rest of the kernel survive a krealloc of
-- one field of one task.
theorem Owned.of_field (howned : Owned ldts k owner) {heap : Heap} {tag : Owner}
    (hslot : k.taskTable pid = .task address task) (hpid : tag.pid = some pid)
    (htagged : Tagged heap owner') (hkept : Kept (· ≠ tag) k.heap heap owner owner')
    {task' : Task} (htask : TaskOwned heap owner' pid address task') :
    Owned ldts ({ k with heap := heap }.setTask pid address task') owner' where
  tagged := htagged
  others name hname := by
    refine (hkept _ _ ?_ (howned.others name hname)).1
    rintro rfl
    cases hpid
  tasks other address' task'' hother := by
    by_cases he : other = pid
    · subst he
      rw [setTask_same] at hother
      cases hother
      exact htask
    · rw [setTask_other he] at hother
      refine (howned.tasks other address' task'' hother).keep (hkept.mono ?_)
      rintro tag' htag rfl
      exact he (Option.some.inj (htag.symm.trans hpid))
  arrays := howned.kept_arrays hkept fun _ => by rintro rfl; cases hpid

theorem Owned.createFileHandle (howned : Owned ldts k owner) (pid : Nat) :
    ∃ owner', Owned ldts (createFileHandle k pid) owner' := by
  unfold EchidnaOS.createFileHandle
  split
  · rename_i address task hslot
    have htask := howned.tasks pid address task hslot
    obtain ⟨owner', htagged, hkept, hnew⟩ := howned.tagged.realloc_field htask.handles
      ((task.fileHandlesPtr + 1) * SIZEOF_FILE_HANDLE % 2 ^ 32)
    obtain ⟨hentry, himage, hsized, hrecord⟩ := htask.kept_field hkept (by simp) (by simp)
    exact ⟨owner', howned.of_field hslot rfl htagged hkept ⟨hentry, hnew,
      fun h => (hkept _ _ (by simp) (htask.handlesV2 h)).1, himage,
      fun h => (hsized h).of_metadata rfl rfl rfl, hrecord⟩⟩
  · exact ⟨owner, howned⟩

theorem Owned.createFileHandleV2 (howned : Owned ldts k owner) (pid : Nat) (handle : FileHandleV2) :
    ∃ owner', Owned ldts (createFileHandleV2 k pid handle) owner' := by
  unfold EchidnaOS.createFileHandleV2
  split
  · rename_i address task hslot
    have htask := howned.tasks pid address task hslot
    dsimp only
    split
    · exact ⟨owner, howned.setTask (htask.congr rfl rfl rfl rfl rfl)⟩
    · obtain ⟨owner', htagged, hkept, hnew⟩ := howned.tagged.realloc_field htask.handlesV2
        ((task.handlesV2.length + 1) * SIZEOF_FILE_HANDLE_V2 % 2 ^ 32)
      obtain ⟨hentry, himage, hsized, hrecord⟩ := htask.kept_field hkept (by simp) (by simp)
      exact ⟨owner', howned.of_field hslot rfl htagged hkept ⟨hentry,
        fun h => (hkept _ _ (by simp) (htask.handles h)).1, hnew, himage,
        fun h => (hsized h).of_metadata rfl rfl rfl, hrecord⟩⟩
  · exact ⟨owner, howned⟩

theorem Owned.openStream (howned : Owned ldts k owner) (pid : Nat) (stream : Stream) :
    ∃ owner', Owned ldts (openStream k pid stream) owner' := by
  obtain ⟨owner', howned', -⟩ := howned.requests stream.requests
  exact howned'.createFileHandleV2 pid stream.handle

theorem Owned.openStreams (howned : Owned ldts k owner) (pid : Nat) (vfs : Activity) :
    ∃ owner', Owned ldts (openStreams k pid vfs) owner' := by
  obtain ⟨owner₁, howned₁⟩ := howned.createFileHandle pid
  obtain ⟨owner₂, howned₂⟩ := howned₁.createFileHandle pid
  obtain ⟨owner₃, howned₃⟩ := howned₂.createFileHandle pid
  obtain ⟨owner₄, howned₄⟩ := howned₃.openStream pid vfs.stdin
  obtain ⟨owner₅, howned₅⟩ := howned₄.openStream pid vfs.stdout
  exact howned₅.openStream pid vfs.stderr

theorem programPages_size {size : Nat} (hpages : programPages size < 2 ^ 20) :
    programPages size * PAGE_SIZE % 2 ^ 32 = programPages size * PAGE_SIZE := by
  apply Nat.mod_eq_of_lt
  simp only [PAGE_SIZE]
  omega

theorem imageSized_new {heap : Heap} (hpages : task.pages < 2 ^ 20)
    (hsize : (heap.metadata task.base).size = task.pages * PAGE_SIZE)
    (hheap : task.heapBase % PAGE_SIZE = 0) : ImageSized heap task where
  pages_le := hsize.ge
  size_mod := by rw [hsize, Nat.mul_mod_left]
  size_lt := by rw [hsize]; simp only [PAGE_SIZE]; omega
  heapBase_mod := hheap

theorem Owned.launch (howned : Owned ldts k owner)
    (hkernel : ∃ address task, k.taskTable 0 = .task address task) {current base : Nat}
    {info : TaskInfo} {file : ProgramFile} {vfs : Activity} (hbase : base ≠ 0)
    (hheld : Held owner [base]) (hpages : programPages file.size < 2 ^ 20)
    (hsize : (k.heap.metadata base).size = programPages file.size * PAGE_SIZE) :
    ∃ owner', Owned ldts (launch k current base info file vfs).2 owner' := by
  obtain ⟨owner₁, howned₁, hkept⟩ := howned.requests vfs.load
  have hloose := hkept base .loose rfl (hheld.head hbase)
  have hheld₁ : Held owner₁ [base, 0, 0] := by
    constructor
    · intro ptr hmem hnull
      simp only [List.mem_cons, List.not_mem_nil, or_false] at hmem
      rcases hmem with rfl | rfl | rfl
      · exact hloose.1
      · exact absurd rfl hnull
      · exact absurd rfl hnull
    · simp [hbase]
  have hsized : ImageSized (k.requests vfs.load).heap (newTask current base file) :=
    imageSized_new hpages (by rw [newTask, hloose.2]; exact hsize) rfl
  unfold EchidnaOS.launch
  dsimp only
  have howned₂ := howned₁.setMem (loadProgram (k.requests vfs.load).heap.mem base file)
  have hcreate := howned₂.create (by rw [requests_taskTable]; exact hkernel)
    (newTask current base file) hbase hheld₁ (hsized.of_metadata rfl rfl rfl)
  generalize taskCreate _ (newTask current base file) = result at hcreate ⊢
  rcases result with ⟨result, created⟩
  rcases hcreate with ⟨rfl, hcreated⟩ | ⟨child, address, rfl, hchild, hslot, owner₃, hcreated⟩
  · exact ⟨_, hcreated.freeLoose hloose.1⟩
  · dsimp only at hslot hcreated ⊢
    rw [hslot]
    dsimp only
    have htask := hcreated.tasks child address _ hslot
    have hsetup : TaskOwned created.heap owner₃ child address
        (setupTask (newTask current base file) file info) := by
      refine ⟨htask.entry, htask.handles, htask.handlesV2, htask.image, fun h => ?_, htask.record⟩
      have hold := htask.sized h
      refine ⟨hold.pages_le, hold.size_mod, hold.size_lt, ?_⟩
      show programPages file.size * PAGE_SIZE % 2 ^ 32 % PAGE_SIZE = 0
      rw [programPages_size hpages, Nat.mul_mod_left]
    obtain ⟨owner₄, hopened⟩ := (hcreated.setTask hsetup).openStreams child vfs
    exact ⟨owner₄, hopened.setMem _⟩

theorem Owned.generalExecute (howned : Owned ldts k owner)
    (hkernel : ∃ address task, k.taskTable 0 = .task address task) (current : Nat)
    (info : TaskInfo) (file : Option ProgramFile) (vfs : Activity)
    (hpages : ∀ program, file = some program → programPages program.size < 2 ^ 20) :
    ∃ owner', Owned ldts (generalExecute k current info file vfs).2 owner' := by
  unfold EchidnaOS.generalExecute
  cases file with
  | none => exact ⟨owner, howned⟩
  | some file =>
      have hpages := hpages file rfl
      dsimp only
      rw [programPages_size hpages]
      rcases howned.alloc (programPages file.size * PAGE_SIZE) with
        ⟨hzero, hnext, -⟩ | ⟨hne, hfresh, hnext, hsize, -⟩
      · rw [if_pos hzero]
        exact ⟨owner, hnext⟩
      · rw [if_neg hne]
        exact hnext.launch hkernel hne ((Held.nil owner).cons hfresh) hpages hsize

theorem Owned.generalExecuteBlock (howned : Owned ldts k owner)
    (hkernel : ∃ address task, k.taskTable 0 = .task address task) (current : Nat)
    (cpu : GprState) (info : TaskInfo) (file : Option ProgramFile) (vfs : Activity)
    (hpages : ∀ program, file = some program → programPages program.size < 2 ^ 20) :
    ∃ owner', Owned ldts (generalExecuteBlock k current cpu info file vfs).2 owner' := by
  obtain ⟨owner', howned'⟩ := howned.generalExecute hkernel current info file vfs hpages
  unfold EchidnaOS.generalExecuteBlock
  generalize EchidnaOS.generalExecute k current info file vfs = result at howned' ⊢
  rcases result with ⟨_ | child, next⟩
  · exact ⟨owner', howned'⟩
  · dsimp only at howned' ⊢
    split
    · rename_i address task hslot
      exact ⟨owner', howned'.setTask
        ((howned'.tasks current address task hslot).congr rfl rfl rfl rfl rfl)⟩
    · exact ⟨owner', howned'⟩

theorem Owned.cloneHandles (howned : Owned ldts k owner) (forks : Nat → ForkedHandle) (index : Nat)
    (handles : List FileHandleV2) :
    ∃ owner', Owned ldts (cloneHandles forks k index handles).1 owner' ∧
      Kept (fun tag => tag.named = false) k.heap (cloneHandles forks k index handles).1.heap
        owner owner' := by
  induction handles generalizing k owner index with
  | nil => exact ⟨owner, howned, .refl _ _ _⟩
  | cons handle rest ih =>
      unfold EchidnaOS.cloneHandles
      split
      · exact ih howned (index + 1)
      · obtain ⟨middle, howned', hkept⟩ := howned.requests (forks index).requests
        obtain ⟨last, howned'', hkept'⟩ := ih howned' (index + 1)
        exact ⟨last, howned'', hkept.trans hkept'⟩

theorem Owned.forkFail (howned : Owned ldts k owner) (hslot : k.taskTable pid = .task address task)
    (cpu : GprState) : Owned ldts (forkFail k pid address { task with cpu := cpu }).2 owner :=
  howned.setTask ((howned.tasks pid address task hslot).congr rfl rfl rfl rfl rfl)

theorem Owned.forkClone (howned : Owned ldts k owner)
    (hkernel : ∃ address task, k.taskTable 0 = .task address task)
    (hslot : k.taskTable pid = .task address task) (cpu : GprState)
    (forks : Nat → ForkedHandle) {base handles handlesV2 : Nat} (hbase : base ≠ 0)
    (hheld : Held owner [base, handles, handlesV2]) (hpages : task.pages < 2 ^ 20)
    (hheap : task.heapBase % PAGE_SIZE = 0)
    (hsize : (k.heap.metadata base).size = task.pages * PAGE_SIZE) :
    ∃ owner', Owned ldts (forkClone k pid address { task with cpu := cpu } forks base handles
      handlesV2).2 owner' := by
  obtain ⟨owner₁, howned₁, hkept⟩ := howned.cloneHandles forks 0 task.handlesV2
  have hheld₁ := hheld.kept hkept
  have hmeta := (hkept base .loose rfl (hheld.head hbase)).2
  unfold EchidnaOS.forkClone
  dsimp only
  have htable : (EchidnaOS.cloneHandles forks k 0 task.handlesV2).1.taskTable = k.taskTable :=
    cloneHandles_taskTable forks k 0 task.handlesV2
  generalize EchidnaOS.cloneHandles forks k 0 task.handlesV2 = cloned at *
  generalize ByteStore.write _ base _ = mem
  have hsized : ImageSized cloned.1.heap
      (forkedTask { task with cpu := cpu } pid base handles handlesV2 cloned.2) :=
    imageSized_new hpages (by rw [forkedTask, hmeta]; exact hsize) hheap
  have hcreate := (howned₁.setMem mem).create (by rw [htable]; exact hkernel)
    (forkedTask { task with cpu := cpu } pid base handles handlesV2 cloned.2) hbase hheld₁
    (hsized.of_metadata rfl rfl rfl)
  have hcreated := taskCreate_table { cloned.1 with heap.mem := mem }
    (forkedTask { task with cpu := cpu } pid base handles handlesV2 cloned.2)
  generalize taskCreate _ (forkedTask _ pid base handles handlesV2 cloned.2) = result at *
  rcases result with ⟨result, created⟩
  rcases hcreate with ⟨rfl, hnext⟩ | ⟨child, newAddress, rfl, -, hchild, owner₂, hnext⟩
  · dsimp only at hnext hcreated ⊢
    have hsame : created.taskTable pid = .task address task := by
      rcases hcreated with ⟨-, hsame⟩ | ⟨child, _, hsome, -⟩
      · exact (hsame pid address task).mpr (by rw [htable]; exact hslot)
      · cases hsome
    obtain ⟨owner₃, hfreed⟩ := hnext.freeAll hheld₁
    exact ⟨owner₃, hfreed.forkFail hsame cpu⟩
  · dsimp only at hnext hchild hcreated ⊢
    obtain ⟨hne, hsame⟩ : pid ≠ child ∧ created.taskTable pid = .task address task := by
      rcases hcreated with ⟨hnone, -⟩ | ⟨child', _, hsome, -, hfree, hupdate⟩
      · cases hnone
      · cases hsome
        have hne : pid ≠ child := by
          rintro rfl
          rw [htable] at hfree
          exact free_ne_task hfree address task hslot
        exact ⟨hne, by rw [hupdate, Function.update_of_ne hne, htable, hslot]⟩
    have hparent : Owned ldts (created.setTask pid address
        (({ task with cpu := cpu } : Task).withEax child)) owner₂ :=
      hnext.setTask ((hnext.tasks pid address task hsame).congr rfl rfl rfl rfl rfl)
    rw [setTask_other hne.symm, hchild]
    refine ⟨owner₂, hparent.setTask ?_⟩
    exact (hnext.tasks child newAddress _ hchild).congr rfl rfl rfl rfl rfl

theorem Owned.taskFork (howned : Owned ldts k owner)
    (hkernel : ∃ address task, k.taskTable 0 = .task address task) (hpid : pid ≠ 0)
    (cpu : GprState) (forks : Nat → ForkedHandle) :
    ∃ owner', Owned ldts (taskFork k pid cpu forks).2 owner' := by
  unfold EchidnaOS.taskFork
  split
  · rename_i address task hslot
    have hsized := (howned.tasks pid address task hslot).sized hpid
    have hpages : task.pages < 2 ^ 20 := by
      have hle := hsized.pages_le
      have hlt := hsized.size_lt
      simp only [PAGE_SIZE] at hle
      omega
    have hproduct : task.pages * PAGE_SIZE % 2 ^ 32 = task.pages * PAGE_SIZE := by
      apply Nat.mod_eq_of_lt
      simp only [PAGE_SIZE]
      omega
    unfold forkAlloc
    dsimp only
    rw [hproduct]
    rcases howned.alloc (task.pages * PAGE_SIZE) with
      ⟨hzero, hnext, -⟩ | ⟨hbase, hfresh, hnext, hsize, -⟩
    · rw [if_pos hzero]
      exact ⟨owner, hnext.forkFail hslot cpu⟩
    rw [if_neg hbase]
    have hheld := (Held.nil owner).cons hfresh
    generalize kalloc k.heap (task.pages * PAGE_SIZE) = base at *
    rcases hnext.alloc (task.fileHandlesPtr * SIZEOF_FILE_HANDLE % 2 ^ 32) with
      ⟨hzero, hnext', -⟩ | ⟨hhandles, hfresh', hnext', -, hkept⟩
    · rw [if_pos hzero]
      exact ⟨_, (hnext'.freeLoose (hheld.head hbase)).forkFail hslot cpu⟩
    rw [if_neg hhandles]
    have hheld' := hheld.cons hfresh'
    generalize kalloc base.2 (task.fileHandlesPtr * SIZEOF_FILE_HANDLE % 2 ^ 32) = handles at *
    rcases hnext'.alloc (task.handlesV2.length * SIZEOF_FILE_HANDLE_V2 % 2 ^ 32) with
      ⟨hzero, hnext'', -⟩ | ⟨hhandlesV2, hfresh'', hnext'', -, hkept'⟩
    · rw [if_pos hzero]
      obtain ⟨owner', hfreed⟩ := hnext''.freeAll (hheld'.perm (List.Perm.swap _ _ _))
      exact ⟨owner', hfreed.forkFail hslot cpu⟩
    rw [if_neg hhandlesV2]
    have hheld'' := hheld'.cons hfresh''
    generalize kalloc handles.2 (task.handlesV2.length * SIZEOF_FILE_HANDLE_V2 % 2 ^ 32) =
      handlesV2 at *
    have hloose := hheld.head hbase
    have hkeep := hkept _ _ trivial hloose
    refine hnext''.forkClone hkernel hslot cpu forks hbase
      (hheld''.perm (List.reverse_perm [base.1, handles.1, handlesV2.1])) hpages
      hsized.heapBase_mod ?_
    show (handlesV2.2.metadata base.1).size = task.pages * PAGE_SIZE
    rw [(hkept' _ _ trivial hkeep.1).2, hkeep.2, hsize]
  · exact ⟨owner, howned⟩

theorem Owned.resizeHeap (howned : Owned ldts k owner) (hpid : pid ≠ 0) (heapSize : UInt32)
    (hfits : ∀ address task, k.taskTable pid = .task address task →
      task.heapBase + heapPages heapSize * PAGE_SIZE < 2 ^ 32) :
    ∃ owner', Owned ldts (resizeHeap k pid heapSize) owner' := by
  unfold EchidnaOS.resizeHeap
  split
  · rename_i address task hslot
    have hlt := hfits address task hslot
    have htask := howned.tasks pid address task hslot
    have hheap := (htask.sized hpid).heapBase_mod
    dsimp only
    rw [Nat.mod_eq_of_lt hlt]
    rcases howned.tagged.realloc (htask.image hpid)
      (task.heapBase + heapPages heapSize * PAGE_SIZE) with
      ⟨hzero, htagged, hmeta⟩ | ⟨hne, htagged, hsize, hkept⟩
    · rw [if_pos hzero]
      exact ⟨owner, howned.of_kept htagged (fun _ _ _ h => ⟨h, by rw [hmeta]⟩) howned.others⟩
    · rw [if_neg hne]
      refine ⟨_, howned.of_field hslot rfl htagged hkept ?_⟩
      constructor
      · exact (hkept _ _ (by simp) htask.entry).1
      · exact fun h => (hkept _ _ (by simp) (htask.handles h)).1
      · exact fun h => (hkept _ _ (by simp) (htask.handlesV2 h)).1
      · exact fun _ => Function.update_self _ _ _
      · intro _
        simp only [PAGE_SIZE] at hlt hheap hsize ⊢
        refine ⟨?_, ?_, ?_, hheap⟩
        · rw [hsize]
          simp only [PAGE_SIZE]
          omega
        · rw [hsize]
          simp only [PAGE_SIZE]
          omega
        · rw [hsize]
          exact hlt
      · rw [(hkept _ _ (by simp) htask.entry).2]
        exact htask.record
  · exact ⟨owner, howned⟩

-- Each temporary block is new, so what execve holds stays distinct.
theorem Owned.hold (howned : Owned ldts k owner) {ptrs : List Nat} (hheld : Held owner ptrs)
    (size : Nat) : ∃ owner', Owned ldts { k with heap := (kalloc k.heap size).2 } owner' ∧
      Held owner' ((kalloc k.heap size).1 :: ptrs) ∧
      Kept (fun _ => True) k.heap (kalloc k.heap size).2 owner owner' ∧
      ((kalloc k.heap size).1 ≠ 0 →
        ((kalloc k.heap size).2.metadata (kalloc k.heap size).1).size = size) := by
  rcases howned.alloc size with ⟨hzero, hnext, hkept⟩ | ⟨hne, hfresh, hnext, hsize, hkept⟩
  · refine ⟨owner, hnext, ?_, hkept, fun hne => absurd hzero hne⟩
    rw [hzero]
    exact hheld.consNull
  · exact ⟨_, hnext, hheld.cons hfresh, hkept, fun _ => hsize⟩

theorem Owned.copyStrings (howned : Owned ldts k owner) {ptrs : List Nat} (hheld : Held owner ptrs)
    (args : List ExecString) :
    ∃ owner', Owned ldts { k with heap := (copyStrings k.heap args).2 } owner' ∧
      Held owner' ((copyStrings k.heap args).1 ++ ptrs) ∧
      Kept (fun _ => True) k.heap (copyStrings k.heap args).2 owner owner' := by
  induction args generalizing k owner ptrs with
  | nil => exact ⟨owner, howned, hheld, .refl _ _ _⟩
  | cons arg rest ih =>
      obtain ⟨owner₁, howned₁, hheld₁, hkept₁, -⟩ := howned.hold hheld (arg.length + 1)
      obtain ⟨owner₂, howned₂, hheld₂, hkept₂⟩ := ih howned₁ hheld₁
      exact ⟨owner₂, howned₂, hheld₂.perm List.perm_middle, hkept₁.trans hkept₂⟩

def Temporaries.ptrs (tmp : Temporaries) : List Nat :=
  tmp.envpStrings ++ (tmp.argvStrings ++ [tmp.envp, tmp.argv])

theorem Owned.execveTemporaries (howned : Owned ldts k owner) (argv envp : List ExecString) :
    ∃ owner', Owned ldts { k with heap := (execveTemporaries k.heap argv envp).2 } owner' ∧
      Held owner' (execveTemporaries k.heap argv envp).1.ptrs ∧
      Kept (fun _ => True) k.heap (execveTemporaries k.heap argv envp).2 owner owner' := by
  unfold EchidnaOS.execveTemporaries
  dsimp only
  obtain ⟨owner₁, howned₁, hheld₁, hkept₁, -⟩ := howned.hold (Held.nil owner) 1024
  generalize kalloc k.heap 1024 = tmpArgv at *
  obtain ⟨owner₂, howned₂, hheld₂, hkept₂, -⟩ := howned₁.hold hheld₁ 1024
  dsimp only at howned₂ hheld₂ hkept₂
  generalize kalloc tmpArgv.2 1024 = tmpEnvp at *
  obtain ⟨owner₃, howned₃, hheld₃, hkept₃⟩ := howned₂.copyStrings hheld₂ (argv.take 256)
  dsimp only at howned₃ hheld₃ hkept₃
  generalize EchidnaOS.copyStrings tmpEnvp.2 (argv.take 256) = argvStrings at *
  obtain ⟨owner₄, howned₄, hheld₄, hkept₄⟩ := howned₃.copyStrings hheld₃ (envp.take 256)
  exact ⟨owner₄, howned₄, hheld₄, ((hkept₁.trans hkept₂).trans hkept₃).trans hkept₄⟩

theorem freeTemporaries_eq (heap : Heap) (tmp : Temporaries) (prevBase : Nat) :
    freeTemporaries heap tmp prevBase = kfreeAll heap
      (tmp.argvStrings.takeWhile (· ≠ 0) ++ tmp.envpStrings.takeWhile (· ≠ 0) ++
        [prevBase, tmp.argv, tmp.envp]) := by
  simp only [freeTemporaries, kfreeAll, List.foldl_append, List.foldl_cons, List.foldl_nil]

theorem Held.temporaries {tmp : Temporaries} {prevBase : Nat}
    (hheld : Held owner (prevBase :: tmp.ptrs)) :
    Held owner (tmp.argvStrings.takeWhile (· ≠ 0) ++ tmp.envpStrings.takeWhile (· ≠ 0) ++
      [prevBase, tmp.argv, tmp.envp]) := by
  have hall : Held owner (tmp.argvStrings ++ tmp.envpStrings ++ [prevBase, tmp.argv, tmp.envp]) := by
    refine hheld.perm ?_
    rw [List.perm_iff_count]
    intro ptr
    simp only [Temporaries.ptrs, List.count_cons, List.count_append, List.count_nil]
    omega
  refine hall.sublist ?_
  exact ((List.takeWhile_sublist _).append (List.takeWhile_sublist _)).append (List.Sublist.refl _)

-- execve replaces the image of a task: the new block becomes the task's and the old
-- one is only known to a local variable.
theorem Owned.rebase (howned : Owned ldts k owner) (hpid : pid ≠ 0)
    (hslot : k.taskTable pid = .task address task) {base : Nat} {ptrs : List Nat}
    (hbase : base ≠ 0) (hheld : Held owner (base :: ptrs)) (task' : Task)
    (hbase' : task'.base = base) (hhandles : task'.fileHandles = task.fileHandles)
    (hhandlesV2 : task'.fileHandlesV2 = task.fileHandlesV2)
    (hsized : ImageSized k.heap task') :
    ∃ owner', Owned ldts (k.setTask pid address task') owner' ∧ Held owner' (task.base :: ptrs) := by
  have htask := howned.tasks pid address task hslot
  have himage := htask.image hpid
  have hloose := hheld.head hbase
  have hprev := howned.tagged.ne_zero himage
  have hne : task.base ≠ base := by
    intro he
    rw [he, hloose] at himage
    cases himage
  let owner' := Function.update (Function.update owner task.base (some .loose)) base
    (some (.image pid))
  have hkept : Kept (fun tag => tag ≠ .image pid ∧ tag ≠ .loose) k.heap k.heap owner owner' := by
    rintro ptr tag ⟨hnotImage, hnotLoose⟩ hptr
    have hptrBase : ptr ≠ base := by
      rintro rfl
      rw [hloose] at hptr
      exact hnotLoose (Option.some.inj hptr).symm
    have hptrPrev : ptr ≠ task.base := by
      rintro rfl
      rw [himage] at hptr
      exact hnotImage (Option.some.inj hptr).symm
    exact ⟨by simp only [owner', Function.update_of_ne hptrBase,
      Function.update_of_ne hptrPrev, hptr], rfl⟩
  have htagged : Tagged k.heap owner' := by
    refine (howned.tagged.retag ?_ .loose).retag ?_ (.image pid)
    · rw [himage]
      exact Option.some_ne_none _
    · rw [Function.update_of_ne hne.symm, hloose]
      exact Option.some_ne_none _
  have harrays := howned.kept_arrays hkept fun _ => ⟨by simp, by simp⟩
  refine ⟨owner', ⟨htagged, ?_, ?_, harrays⟩, ?_, ?_⟩
  · intro name hname
    exact (hkept _ _ ⟨by simp, by simp⟩ (howned.others name hname)).1
  · intro other address' task'' hother
    by_cases he : other = pid
    · subst he
      rw [setTask_same] at hother
      cases hother
      constructor
      · exact (hkept _ _ ⟨by simp, by simp⟩ htask.entry).1
      · rw [hhandles]
        exact fun h => (hkept _ _ ⟨by simp, by simp⟩ (htask.handles h)).1
      · rw [hhandlesV2]
        exact fun h => (hkept _ _ ⟨by simp, by simp⟩ (htask.handlesV2 h)).1
      · rw [hbase']
        exact fun _ => Function.update_self _ _ _
      · exact fun _ => hsized
      · exact htask.record
    · rw [setTask_other he] at hother
      refine (howned.tasks other address' task'' hother).keep (hkept.mono ?_)
      intro tag htag
      refine ⟨?_, ?_⟩
      · rintro rfl
        exact he (Option.some.inj htag).symm
      · rintro rfl
        cases htag
  · intro ptr hmem hnull
    rcases List.mem_cons.mp hmem with rfl | hmem
    · simp only [owner', Function.update_of_ne hne, Function.update_self]
    · have hold := (hheld.given (.image pid)).loose ptr hmem hnull
      have hptrBase : ptr ≠ base := by
        rintro rfl
        rw [give_self hbase] at hold
        cases hold
      have hptr := hheld.loose ptr (List.mem_cons_of_mem base hmem) hnull
      have hptrPrev : ptr ≠ task.base := by
        rintro rfl
        rw [himage] at hptr
        cases hptr
      simp only [owner', Function.update_of_ne hptrBase, Function.update_of_ne hptrPrev, hptr]
  · rw [List.filter_cons_of_pos (by simpa using hprev), List.nodup_cons]
    refine ⟨?_, (hheld.sublist (List.sublist_cons_self base ptrs)).nodup⟩
    intro hmem
    have hptr := hheld.loose task.base
      (List.mem_cons_of_mem base (List.mem_filter.mp hmem).1) hprev
    rw [himage] at hptr
    cases hptr

theorem Owned.execve (howned : Owned ldts k owner) (hpid : pid ≠ 0) (argv envp : List ExecString)
    (file : Option ProgramFile) (load : List Request)
    (hroom : ∀ program, file = some program →
      (kalloc (EchidnaOS.execveTemporaries k.heap argv envp).2
        (programPages program.size * PAGE_SIZE % 2 ^ 32)).1 ≠ 0)
    (hpages : ∀ program, file = some program → ∀ address task,
      k.taskTable pid = .task address task → task.pages ≤ programPages program.size % 2 ^ 20) :
    ∃ owner', Owned ldts (execve k pid argv envp file load) owner' := by
  unfold EchidnaOS.execve
  split
  · rename_i address task hslot
    cases file with
    | none =>
        obtain ⟨owner₁, howned₁, hheld₁, -⟩ := howned.hold (Held.nil owner) 1024
        obtain ⟨owner₂, howned₂, -⟩ := howned₁.hold hheld₁ 1024
        exact ⟨owner₂, howned₂⟩
    | some file =>
        have hroom := hroom file rfl
        have hpages := hpages file rfl address task hslot
        obtain ⟨owner₁, howned₁, hheld₁, -⟩ := howned.execveTemporaries argv envp
        dsimp only
        generalize EchidnaOS.execveTemporaries k.heap argv envp = tmp at *
        obtain ⟨owner₂, howned₂, hheld₂, -, hsize⟩ := howned₁.hold hheld₁
          (programPages file.size * PAGE_SIZE % 2 ^ 32)
        dsimp only at howned₂ hheld₂ hsize
        generalize kalloc tmp.2 (programPages file.size * PAGE_SIZE % 2 ^ 32) = image at *
        obtain ⟨owner₃, howned₃, hkept₃⟩ := howned₂.requests load
        have hslot₃ : (Kernel.requests { k with heap := image.2 } load).taskTable pid =
            .task address task := by
          rw [requests_taskTable]
          exact hslot
        have hmeta := (hkept₃ _ _ rfl (hheld₂.head hroom)).2
        have hsized : ImageSized (Kernel.requests { k with heap := image.2 } load).heap
            (execvedTask task image.1 file) := by
          have hbytes : ((Kernel.requests { k with heap := image.2 } load).heap.metadata
              image.1).size = programPages file.size * PAGE_SIZE % 2 ^ 32 := by
            rw [hmeta]
            exact hsize hroom
          refine ⟨?_, ?_, ?_, ?_⟩ <;> simp only [execvedTask, hbytes, PAGE_SIZE] <;> omega
        obtain ⟨owner₄, howned₄, hheld₄⟩ := howned₃.rebase hpid hslot₃ hroom
          (hheld₂.kept hkept₃) (execvedTask task image.1 file) rfl rfl rfl hsized
        unfold execveLoad
        dsimp only
        generalize copyEnvp image.1 0 0x8000 _ _ = mem
        rw [freeTemporaries_eq]
        exact (howned₄.setMem mem).freeAll hheld₄.temporaries
  · exact ⟨owner, howned⟩

-- A field of a task that has left the table is freed; NULL fields are freed as well.
theorem Owned.freeField (howned : Owned ldts k owner) {tag : Owner}
    (htag : ptr ≠ 0 → owner ptr = some tag) (hpid : tag.pid = some pid)
    (hgone : (k.taskTable pid).status = none) :
    ∃ owner', Owned ldts { k with heap := kfree k.heap ptr } owner' ∧
      ∀ other tag', tag' ≠ tag → owner other = some tag' → owner' other = some tag' := by
  by_cases hnull : ptr = 0
  · subst hnull
    exact ⟨owner, howned.freeNull, fun _ _ _ h => h⟩
  · refine ⟨_, howned.free (htag hnull) ?_ ?_ ?_, ?_⟩
    · exact Owner.named_eq_false (Owner.inTable_of_pid hpid)
    · rintro array rfl
      cases hpid
    · intro other hother
      rw [hpid] at hother
      cases hother
      exact hgone
    · intro other tag' hne hother
      have hptr : other ≠ ptr := by
        rintro rfl
        rw [htag hnull] at hother
        exact hne (Option.some.inj hother).symm
      rw [Function.update_of_ne hptr, hother]

theorem Owned.wakeParent (howned : Owned ldts k owner) (hslot : k.taskTable pid = .task address task)
    (value : Int) : Owned ldts (wakeParent k pid address task value) owner := by
  unfold EchidnaOS.wakeParent
  split
  · exact howned.setTask ((howned.tasks pid address task hslot).congr rfl rfl rfl rfl rfl)
  · exact howned

theorem Owned.taskQuit (howned : Owned ldts k owner) {value : Int} (hpid : pid ≠ 0)
    (hquit : taskQuit k pid value = some next) : ∃ owner', Owned ldts next owner' := by
  unfold EchidnaOS.taskQuit at hquit
  split at hquit
  · rename_i address task hslot
    split at hquit
    · rename_i parentAddress parent hparent
      have htask := howned.tasks pid address task hslot
      have hwoken := (howned.wakeParent hparent value).empty pid
      cases hquit
      have hgone : (Function.update (EchidnaOS.wakeParent k task.parent parentAddress parent
          value).taskTable pid Slot.empty pid).status = none := by
        rw [Function.update_self]
        rfl
      generalize EchidnaOS.wakeParent k task.parent parentAddress parent value = woken at *
      obtain ⟨owner₁, howned₁, hkept₁⟩ := hwoken.freeField htask.handles rfl hgone
      obtain ⟨owner₂, howned₂, hkept₂⟩ := howned₁.freeField
        (fun h => hkept₁ _ _ (by simp) (htask.handlesV2 h)) rfl hgone
      obtain ⟨owner₃, howned₃, hkept₃⟩ := howned₂.freeField
        (fun _ => hkept₂ _ _ (by simp) (hkept₁ _ _ (by simp) (htask.image hpid))) rfl hgone
      obtain ⟨owner₄, howned₄, -⟩ := howned₃.freeField (fun _ => hkept₃ _ _ (by simp)
        (hkept₂ _ _ (by simp) (hkept₁ _ _ (by simp) htask.entry))) rfl hgone
      exact ⟨owner₄, howned₄⟩
    · cases hquit
  · cases hquit

end EchidnaOS
