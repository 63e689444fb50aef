import EchidnaOS.Segment.Layout
import EchidnaOS.Task.Memory.Run

namespace EchidnaOS.Segment

open EchidnaOS.Lib EchidnaOS.Lib.Run EchidnaOS.Klib

-- Every descriptor of a task starts inside its block, and no array has two tasks.
def DescriptorsInside (s : State) : Prop :=
  ∀ pid address task, s.kernel.taskTable pid = .task address task →
    (∀ index, index < task.ldtEntries → task.base ≤ (s.array task.ldt index).base ∧
      (s.array task.ldt index).base < task.base + task.pages * PAGE_SIZE) ∧
    ∀ other address' task', other ≠ pid → s.kernel.taskTable other = .task address' task' →
      task.ldt ≠ 0 → task.ldt ≠ task'.ldt

-- The number of entries that the page of an array holds.
def ENTRIES_PER_PAGE : Nat := 512

-- A fork is made without descriptors, and the block of a task with descriptors is neither
-- moved by resize_heap nor replaced by execve. Requests for segments that are accepted lie
-- inside the task, and the array has room.
def KeepsDescriptors (s : State) : Call → Prop
  | .newSegment current base pageCount _ => ∀ address task,
      s.kernel.taskTable current = .task address task →
      requestFits task base.toNat pageCount.toNat = true →
        1 ≤ pageCount.toNat ∧
        base.toNat + pageCount.toNat * PAGE_SIZE ≤ task.pages * PAGE_SIZE ∧
        task.ldtEntries < ENTRIES_PER_PAGE
  | .other (.fork pid _ _) => ∀ address task, s.kernel.taskTable pid = .task address task →
      task.ldt = 0
  | .other (.resizeHeap pid heapSize) => ∀ address task,
      s.kernel.taskTable pid = .task address task →
      task.ldtEntries = 0 ∨
      divRoundup (s.kernel.heap.metadata task.base).size PAGE_SIZE =
        divRoundup (task.heapBase + heapPages heapSize * PAGE_SIZE) PAGE_SIZE ∨
      (krealloc s.kernel.heap task.base (task.heapBase + heapPages heapSize * PAGE_SIZE)).1 = 0
  | .other (.execve pid _ _ (some _) _) => ∀ address task,
      s.kernel.taskTable pid = .task address task → task.ldtEntries = 0
  | _ => True

-- The memory of the tasks is their own as well.
def KeepsMemory (s : State) (call : Call) : Prop :=
  KeepsDescriptors s call ∧ match call with
    | .other action => KeepsSegments s.kernel action
    | _ => True

def Contains (layout : Layout) (address : Nat) : Prop :=
  layout.base ≤ address ∧ address < layout.base + layout.pages * PAGE_SIZE

-- `ldts` are the arrays that tasks have.
structure LdtOk (ldts : Nat → Prop) (s : State) : Prop where
  memory : MemoryOk ldts s.kernel
  arrays : ∀ pid layout, s.kernel.layout pid = some layout → layout.ldt ≠ 0 → ldts layout.ldt
  empty : ∀ pid layout, s.kernel.layout pid = some layout → layout.ldt = 0 → layout.ldtEntries = 0
  inside : ∀ pid layout index, s.kernel.layout pid = some layout → index < layout.ldtEntries →
    Contains layout (s.array layout.ldt index).base
  apart : ∀ pid other layout layout', other ≠ pid → s.kernel.layout pid = some layout →
    s.kernel.layout other = some layout' → layout.ldt ≠ 0 → layout.ldt ≠ layout'.ldt

variable {ldts : Nat → Prop} {s after : State} {next : Kernel} {current pid address : Nat}
  {task : Task}

theorem LdtOk.descriptorsInside (hok : LdtOk ldts s) : DescriptorsInside s := by
  intro pid address task hslot
  refine ⟨fun index => hok.inside pid task.layout index (layout_eq hslot), ?_⟩
  intro other address' task' hne hother
  exact hok.apart pid other task.layout task'.layout hne (layout_eq hslot) (layout_eq hother)

-- What the layout of a task may become while its descriptors stay: nothing is lost of its
-- block, or it has none.
def Follows (layout : Nat → Option Layout) (pid : Nat) (new : Layout) : Prop :=
  new.ldt = 0 ∧ new.ldtEntries = 0 ∨ ∃ old, layout pid = some old ∧ new.ldt = old.ldt ∧
    new.ldtEntries = old.ldtEntries ∧
    (old.ldtEntries = 0 ∨ new.base = old.base ∧ old.pages ≤ new.pages)

theorem Follows.refl {layout : Nat → Option Layout} {new : Layout} (hnew : layout pid = some new) :
    Follows layout pid new :=
  Or.inr ⟨new, hnew, rfl, rfl, Or.inr ⟨rfl, le_rfl⟩⟩

theorem LdtOk.follows (hok : LdtOk ldts s) (hmemory : MemoryOk ldts next)
    (hfollows : ∀ pid layout, next.layout pid = some layout →
      Follows s.kernel.layout pid layout) : LdtOk ldts { s with kernel := next } := by
  constructor
  · exact hmemory
  · intro pid layout hlayout hldt
    rcases hfollows pid layout hlayout with ⟨hzero, -⟩ | ⟨old, hold, hsame, -, -⟩
    · exact absurd hzero hldt
    · rw [hsame] at hldt ⊢
      exact hok.arrays pid old hold hldt
  · intro pid layout hlayout hldt
    rcases hfollows pid layout hlayout with ⟨-, hzero⟩ | ⟨old, hold, hsame, hentries, -⟩
    · exact hzero
    · rw [hentries]
      exact hok.empty pid old hold (hsame ▸ hldt)
  · intro pid layout index hlayout hindex
    rcases hfollows pid layout hlayout with ⟨-, hzero⟩ | ⟨old, hold, hsame, hentries, hblock⟩
    · omega
    · rw [hentries] at hindex
      have hinside := hok.inside pid old index hold hindex
      rcases hblock with hnone | ⟨hbase, hpages⟩
      · omega
      · have hbytes := Nat.mul_le_mul_right PAGE_SIZE hpages
        dsimp only
        rw [hsame]
        unfold Contains at hinside ⊢
        omega
  · intro pid other layout layout' hne hlayout hlayout' hldt
    rcases hfollows pid layout hlayout with ⟨hzero, -⟩ | ⟨old, hold, hsame, -, -⟩
    · exact absurd hzero hldt
    · rcases hfollows other layout' hlayout' with ⟨hzero', -⟩ | ⟨old', hold', hsame', -, -⟩
      · rw [hzero']
        exact hldt
      · rw [hsame] at hldt ⊢
        rw [hsame']
        exact hok.apart pid other old old' hne hold hold' hldt

theorem follows_of_same (heq : next.layout = s.kernel.layout) {layout : Layout}
    (hlayout : next.layout pid = some layout) : Follows s.kernel.layout pid layout :=
  .refl (heq ▸ hlayout)

theorem follows_of_update {new : Layout} (hnew : Follows s.kernel.layout current new)
    (heq : next.layout = Function.update s.kernel.layout current (some new)) {layout : Layout}
    (hlayout : next.layout pid = some layout) : Follows s.kernel.layout pid layout := by
  rw [heq] at hlayout
  by_cases he : pid = current
  · subst he
    rw [Function.update_self] at hlayout
    cases hlayout
    exact hnew
  · rw [Function.update_of_ne he] at hlayout
    exact .refl hlayout

theorem follows_of_adds (hadds : Adds 0 0 s.kernel next) {layout : Layout}
    (hlayout : next.layout pid = some layout) : Follows s.kernel.layout pid layout := by
  rcases hadds with hsame | ⟨child, base, pages, -, hadded⟩
  · exact follows_of_same hsame hlayout
  · exact follows_of_update (Or.inl ⟨rfl, rfl⟩) hadded hlayout

-- A resize that leaves the block where it is does not take pages from the task.
theorem resizeHeap_follows (hmemory : MemoryOk ldts s.kernel) (hpid : current ≠ 0)
    (hslot : s.kernel.taskTable current = .task address task) {heapSize : UInt32}
    (hfits : task.heapBase + heapPages heapSize * PAGE_SIZE < 2 ^ 32)
    (hstays : task.ldtEntries = 0 ∨
      divRoundup (s.kernel.heap.metadata task.base).size PAGE_SIZE =
        divRoundup (task.heapBase + heapPages heapSize * PAGE_SIZE) PAGE_SIZE ∨
      (krealloc s.kernel.heap task.base (task.heapBase + heapPages heapSize * PAGE_SIZE)).1 = 0)
    {layout : Layout}
    (hlayout : (resizeHeap s.kernel current heapSize).layout pid = some layout) :
    Follows s.kernel.layout pid layout := by
  obtain ⟨owner, howned⟩ := hmemory.owned
  have htask := howned.tasks current address task hslot
  have hsized := htask.sized hpid
  have hbase : task.base ≠ 0 := howned.tagged.ne_zero (htask.image hpid)
  unfold resizeHeap at hlayout
  rw [hslot] at hlayout
  dsimp only at hlayout
  rw [Nat.mod_eq_of_lt hfits] at hlayout
  split at hlayout
  · exact .refl hlayout
  · rename_i hne
    refine follows_of_update ?_ (setTask_layout _ _ _ _) hlayout
    refine Or.inr ⟨task.layout, layout_eq hslot, rfl, rfl, ?_⟩
    rcases hstays with hnone | hsame | hfails
    · exact Or.inl hnone
    · right
      have hinPlace : (krealloc s.kernel.heap task.base
          (task.heapBase + heapPages heapSize * PAGE_SIZE)).1 = task.base := by
        rw [krealloc, if_neg hbase, if_pos hsame]
      refine ⟨hinPlace, ?_⟩
      have hle := hsized.pages_le
      have hmod := hsized.heapBase_mod
      have hsizeMod := hsized.size_mod
      have hlt := hsized.size_lt
      simp only [Task.layout, divRoundup, PAGE_SIZE] at *
      omega
    · exact absurd hfails hne

theorem LdtOk.other (hok : LdtOk ldts s) {action : Action} (hkeeps : KeepsMemory s (.other action))
    (hstep : EchidnaOS.step s.kernel action = some next) :
    LdtOk ldts { s with kernel := next } := by
  apply hok.follows (step_memoryOk hok.memory hkeeps.2 hstep)
  intro pid layout hlayout
  cases action with
  | execute current info file vfs =>
      simp only [EchidnaOS.step, Option.ite_none_right_eq_some, Option.some.injEq] at hstep
      obtain ⟨-, rfl⟩ := hstep
      exact follows_of_adds (generalExecute_layout s.kernel current info file vfs) hlayout
  | executeBlock current cpu info file vfs =>
      simp only [EchidnaOS.step, Option.ite_none_right_eq_some, Option.some.injEq] at hstep
      obtain ⟨-, rfl⟩ := hstep
      exact follows_of_adds (generalExecuteBlock_layout s.kernel current cpu info file vfs) hlayout
  | fork current cpu forks =>
      simp only [EchidnaOS.step, Option.ite_none_right_eq_some, Option.some.injEq] at hstep
      obtain ⟨hactive, rfl⟩ := hstep
      obtain ⟨address, task, hslot, -⟩ := isActive_slot hactive
      have hldt := hkeeps.1 address task hslot
      have hadds := taskFork_layout hslot cpu forks
      have hentries : task.ldtEntries = 0 := hok.empty current task.layout (layout_eq hslot) hldt
      rw [hldt, hentries] at hadds
      exact follows_of_adds hadds hlayout
  | resizeHeap current heapSize =>
      simp only [EchidnaOS.step, Option.ite_none_right_eq_some, Option.some.injEq] at hstep
      obtain ⟨hactive, rfl⟩ := hstep
      obtain ⟨address, task, hslot, -⟩ := isActive_slot hactive
      exact resizeHeap_follows hok.memory (hok.memory.ne_zero hactive) hslot
        (hkeeps.2 address task hslot) (hkeeps.1 address task hslot) hlayout
  | execve current argv envp file load =>
      simp only [EchidnaOS.step, Option.ite_none_right_eq_some, Option.some.injEq] at hstep
      obtain ⟨hactive, rfl⟩ := hstep
      obtain ⟨address, task, hslot, -⟩ := isActive_slot hactive
      rcases execve_layout hslot argv envp file load with hsame | ⟨⟨program, rfl⟩, base, hmoved⟩
      · exact follows_of_same hsame hlayout
      · have hnone : task.ldtEntries = 0 := hkeeps.1 address task hslot
        have hfollows : Follows s.kernel.layout current
            ⟨base, task.pages, task.ldt, task.ldtEntries⟩ :=
          Or.inr ⟨task.layout, layout_eq hslot, rfl, rfl, Or.inl hnone⟩
        exact follows_of_update hfollows hmoved hlayout
  | quit current value =>
      simp only [EchidnaOS.step, Option.ite_none_right_eq_some] at hstep
      rw [taskQuit_layout hstep.2] at hlayout
      by_cases he : pid = current
      · subst he
        simp at hlayout
      · rw [Function.update_of_ne he] at hlayout
        exact .refl hlayout
  | switch current cpu =>
      simp only [EchidnaOS.step, Option.ite_none_right_eq_some, Option.some.injEq] at hstep
      obtain ⟨-, rfl⟩ := hstep
      exact follows_of_same (taskSwitch_layout s.kernel current cpu) hlayout
  | kernel reqs =>
      simp only [EchidnaOS.step, Option.some.injEq] at hstep
      subst hstep
      exact follows_of_same (requests_layout s.kernel reqs) hlayout

theorem setSegment_base (entry : DtEntry) {base : Nat} (hbase : base < 2 ^ 32) (pageCount : Nat) :
    (setSegment entry base pageCount).base = base := by
  simp only [setSegment, DtEntry.base]
  omega

theorem addEntry_same (table : Nat → DtEntry) {entryCount : Nat} (hcount : entryCount < 2 ^ 16)
    (base pageCount : Nat) (code : Bool) :
    addEntry table entryCount base pageCount code entryCount =
      setAttributes (setSegment (table entryCount) base pageCount) code := by
  simp only [addEntry, Nat.mod_eq_of_lt hcount, Function.update_self]

theorem addEntry_other (table : Nat → DtEntry) {entryCount index : Nat}
    (hcount : entryCount < 2 ^ 16) (hindex : index ≠ entryCount) (base pageCount : Nat)
    (code : Bool) : addEntry table entryCount base pageCount code index = table index := by
  simp only [addEntry, Nat.mod_eq_of_lt hcount, Function.update_of_ne hindex]

theorem addEntry_base (table : Nat → DtEntry) {entryCount base : Nat}
    (hcount : entryCount < 2 ^ 16) (hbase : base < 2 ^ 32) (pageCount : Nat) (code : Bool) :
    (addEntry table entryCount base pageCount code entryCount).base = base := by
  rw [addEntry_same table hcount]
  exact setSegment_base (table entryCount) hbase pageCount

theorem ldtSize_pages {entryCount : Nat} (hroom : entryCount < ENTRIES_PER_PAGE) :
    divRoundup (ldtSize entryCount) PAGE_SIZE = 1 := by
  simp only [divRoundup, ldtSize, SIZEOF_DT_ENTRY, ENTRIES_PER_PAGE, PAGE_SIZE] at *
  omega

-- The array of the caller gets one more entry, inside its block; it is the caller's old one
-- or one that no task had.
theorem LdtOk.extend {array : Nat → Nat → DtEntry} {ldt : Nat} {ldts' : Nat → Prop}
    (hok : LdtOk ldts s) (hslot : s.kernel.taskTable current = .task address task)
    (hmemory : MemoryOk ldts' next)
    (hlayout : next.layout = Function.update s.kernel.layout current
      (some ⟨task.base, task.pages, ldt, task.ldtEntries + 1⟩))
    (hnew : ldts' ldt) (hmore : ∀ ptr, ldts ptr → ldts' ptr) (hldt : ldt ≠ 0)
    (hwhere : ldt = task.ldt ∨ ¬ldts ldt)
    (hothers : ∀ ptr, ptr ≠ ldt → array ptr = s.array ptr)
    (hkept : ∀ index, index < task.ldtEntries → array ldt index = s.array task.ldt index)
    (hadded : Contains task.layout (array ldt task.ldtEntries).base) :
    LdtOk ldts' { kernel := next, array := array } := by
  have hmine := layout_eq hslot
  have hapart : ∀ pid layout, pid ≠ current → s.kernel.layout pid = some layout →
      layout.ldt ≠ ldt := by
    intro pid layout hne hother he
    rcases hwhere with hsame | hfresh
    · refine hok.apart pid current layout task.layout hne.symm hother hmine ?_ (he.trans hsame)
      rw [he]
      exact hldt
    · refine hfresh (he ▸ hok.arrays pid layout hother ?_)
      rw [he]
      exact hldt
  have hcases : ∀ pid layout, next.layout pid = some layout →
      (pid = current ∧ layout = ⟨task.base, task.pages, ldt, task.ldtEntries + 1⟩) ∨
      (pid ≠ current ∧ s.kernel.layout pid = some layout) := by
    intro pid layout hnext
    rw [hlayout] at hnext
    by_cases he : pid = current
    · subst he
      rw [Function.update_self, Option.some.injEq] at hnext
      exact Or.inl ⟨rfl, hnext.symm⟩
    · rw [Function.update_of_ne he] at hnext
      exact Or.inr ⟨he, hnext⟩
  constructor
  · exact hmemory
  · intro pid layout hnext hne
    rcases hcases pid layout hnext with ⟨-, rfl⟩ | ⟨-, hold⟩
    · exact hnew
    · exact hmore _ (hok.arrays pid layout hold hne)
  · intro pid layout hnext hzero
    rcases hcases pid layout hnext with ⟨-, rfl⟩ | ⟨-, hold⟩
    · exact absurd hzero hldt
    · exact hok.empty pid layout hold hzero
  · intro pid layout index hnext hindex
    rcases hcases pid layout hnext with ⟨-, rfl⟩ | ⟨hne, hold⟩
    · by_cases hlast : index = task.ldtEntries
      · rw [hlast]
        exact hadded
      · have hlt : index < task.ldtEntries := by
          dsimp only at hindex
          omega
        show Contains _ (array ldt index).base
        rw [hkept index hlt]
        exact hok.inside current task.layout index hmine hlt
    · dsimp only
      rw [hothers layout.ldt (hapart pid layout hne hold)]
      exact hok.inside pid layout index hold hindex
  · intro pid other layout layout' hne hnext hnext' hzero
    rcases hcases pid layout hnext with ⟨rfl, rfl⟩ | ⟨hpid, hold⟩
    · rcases hcases other layout' hnext' with ⟨rfl, -⟩ | ⟨hother, hold'⟩
      · exact absurd rfl hne
      · exact (hapart other layout' hother hold').symm
    · rcases hcases other layout' hnext' with ⟨rfl, rfl⟩ | ⟨-, hold'⟩
      · exact hapart pid layout hpid hold
      · exact hok.apart pid other layout layout' hne hold hold' hzero

theorem LdtOk.newSegment (hok : LdtOk ldts s) {base pageCount : UInt32} {code : Bool}
    (hactive : s.kernel.isActive current = true)
    (hkeeps : KeepsDescriptors s (.newSegment current base pageCount code)) :
    ∃ ldts', LdtOk ldts' (syscallNewSegment s current base pageCount code).2 := by
  obtain ⟨address, task, hslot, -⟩ := isActive_slot hactive
  have hpid := hok.memory.ne_zero hactive
  unfold syscallNewSegment
  rw [hslot]
  dsimp only
  by_cases hfits : requestFits task base.toNat pageCount.toNat = true
  · rw [if_pos hfits]
    obtain ⟨hpages, hend, hroom⟩ := hkeeps address task hslot hfits
    have hone := ldtSize_pages hroom
    have hcount : task.ldtEntries < 2 ^ 16 := hroom.trans (by decide)
    obtain ⟨owner, howned⟩ := hok.memory.owned
    have hblock := howned.block_lt hpid hslot
    have hsegment : base.toNat + task.base < 2 ^ 32 := by
      simp only [PAGE_SIZE] at *
      omega
    have hinside : Contains task.layout (base.toNat + task.base) := by
      simp only [Contains, Task.layout, PAGE_SIZE] at *
      omega
    rw [Nat.mod_eq_of_lt hsegment]
    have hkernel := hok.memory
    by_cases hnull : task.ldt = 0
    · -- the first descriptor of the task, in a new array
      have hentries : task.ldtEntries = 0 := hok.empty current task.layout (layout_eq hslot) hnull
      have hkalloc : krealloc s.kernel.heap task.ldt (ldtSize task.ldtEntries) =
          kalloc s.kernel.heap (ldtSize task.ldtEntries) := by
        rw [krealloc, if_pos hnull]
      rw [hkalloc]
      rcases howned.newArray hone with ⟨hzero, hnext⟩ | ⟨hne, hfresh, owner', hnext⟩
      · rw [if_pos hzero]
        have hmemory : MemoryOk ldts { s.kernel with
            heap := (kalloc s.kernel.heap (ldtSize task.ldtEntries)).2 } :=
          ⟨hkernel.kernelTask, owner, hnext⟩
        exact ⟨ldts, hok.follows hmemory fun _ _ hlayout => .refl hlayout⟩
      · rw [if_neg hne]
        generalize kalloc s.kernel.heap (ldtSize task.ldtEntries) = block at *
        refine ⟨_, hok.extend hslot (hkernel.setTask hpid hnext hslot fun htask =>
          htask.congr rfl rfl rfl rfl rfl) (setTask_layout _ _ _ _) (Or.inr rfl)
          (fun _ => Or.inl) hne (Or.inr hfresh) ?_ ?_ ?_⟩
        · intro ptr hptr
          rw [Function.update_of_ne hptr, moveArray, hnull, if_neg hne, Function.update_of_ne hptr]
        · intro index hindex
          omega
        · rw [Function.update_self, addEntry_base _ hcount hsegment]
          exact hinside
    · have hldt : ldts task.ldt := hok.arrays current task.layout (layout_eq hslot) hnull
      obtain ⟨hinPlace, owner', hnext⟩ := howned.growArray hldt hone
      rw [hinPlace, if_neg hnull]
      generalize krealloc s.kernel.heap task.ldt (ldtSize task.ldtEntries) = block at *
      refine ⟨ldts, hok.extend hslot (hkernel.setTask hpid hnext hslot fun htask =>
        htask.congr rfl rfl rfl rfl rfl) (setTask_layout _ _ _ _) hldt (fun _ => id) hnull
        (Or.inl rfl) ?_ ?_ ?_⟩
      · intro ptr hptr
        rw [Function.update_of_ne hptr, moveArray, if_pos rfl]
      · intro index hindex
        rw [Function.update_self, addEntry_other _ hcount (by omega), moveArray, if_pos rfl]
      · rw [Function.update_self, addEntry_base _ hcount hsegment]
        exact hinside
  · rw [if_neg hfits]
    exact ⟨ldts, hok⟩

theorem LdtOk.boot {heap : Heap} {others : Nat → Nat}
    (hboot : taskInit heap others = some s.kernel)
    (hmemory : MemoryOk (fun _ => False) s.kernel) : LdtOk (fun _ => False) s := by
  have honly : ∀ pid layout, s.kernel.layout pid = some layout →
      layout.ldt = 0 ∧ layout.ldtEntries = 0 := by
    intro pid layout hlayout
    obtain ⟨address, task, hslot, rfl⟩ := layout_some hlayout
    obtain ⟨first, kernel, htable, -, -, -, hldt, hentries⟩ := taskInit_table hboot
    rw [htable] at hslot
    by_cases he : pid = 0
    · subst he
      rw [Function.update_self] at hslot
      cases hslot
      exact ⟨hldt, hentries⟩
    · rw [Function.update_of_ne he] at hslot
      cases hslot
  constructor
  · exact hmemory
  · exact fun pid layout hlayout hne => absurd (honly pid layout hlayout).1 hne
  · exact fun pid layout hlayout _ => (honly pid layout hlayout).2
  · intro pid layout index hlayout hindex
    have hnone := (honly pid layout hlayout).2
    omega
  · exact fun pid _ layout _ _ hlayout _ hne => absurd (honly pid layout hlayout).1 hne

theorem LdtOk.step {call : Call} (hok : LdtOk ldts s) (hkeeps : KeepsMemory s call)
    (hstep : Segment.step s call = some after) : ∃ ldts', LdtOk ldts' after := by
  cases call with
  | other action =>
      obtain ⟨next, hnext, rfl⟩ := Option.map_eq_some_iff.mp hstep
      exact ⟨ldts, hok.other hkeeps hnext⟩
  | newSegment current base pageCount code =>
      simp only [Segment.step, Option.ite_none_right_eq_some, Option.some.injEq] at hstep
      obtain ⟨hactive, rfl⟩ := hstep
      exact hok.newSegment hactive hkeeps.1

-- From boot on, the descriptors of a task stay inside its block, in an array of its own, as
-- long as no fork copies them and no resize or execve takes the block from under them.
theorem descriptors_inside_from_boot {heap : Heap} {others : Nat → Nat} {final : State}
    {calls : List Call} (hheap : HeapOk heap fun ptr => ptr ≠ 0 ∧ ∃ name, others name = ptr)
    (hdistinct : ∀ first second, others first = others second → others first ≠ 0 →
      first = second)
    (hboot : taskInit heap others = some s.kernel)
    (hguard : Guarded step KeepsMemory s calls) (hrun : run step s calls = some final) :
    DescriptorsInside final := by
  have hstart : ∃ ldts, LdtOk ldts s :=
    ⟨_, LdtOk.boot hboot (taskInit_memoryOk hheap hdistinct hboot)⟩
  have hkeep : ∀ state call next, (∃ ldts, LdtOk ldts state) → KeepsMemory state call →
      step state call = some next → ∃ ldts, LdtOk ldts next := by
    rintro state call next ⟨ldts, hok⟩ hkeeps hstep
    exact hok.step hkeeps hstep
  obtain ⟨ldts, hok⟩ := run_invariant hkeep hstart hguard hrun
  exact hok.descriptorsInside

def bootState (calls : List Call) : Option State :=
  (taskInit emptyHeap fun _ => 0).bind fun k => run step ⟨k, fun _ _ => {}⟩ calls

-- A shell is launched and gets a segment over the first page of its block.
def firstSegment : List Call := [.other (plainLaunch 0), .newSegment 1 0 1 true]

theorem first_segment_inside : ∃ final, bootState firstSegment = some final ∧
    (final.kernel.layout 1).map (·.ldtEntries) = some 1 ∧ DescriptorsInside final := by
  have hentries : (bootState firstSegment).map
      (fun s => (s.kernel.layout 1).map (·.ldtEntries)) = some (some 1) := by
    decide +kernel
  obtain ⟨final, hfinal, hentries⟩ := Option.map_eq_some_iff.mp hentries
  obtain ⟨k, hboot, hrun⟩ := Option.bind_eq_some_iff.mp hfinal
  have hguard : Guarded step KeepsMemory ⟨k, fun _ _ => {}⟩ firstSegment := by
    have hsize : programPages 0 < 2 ^ 20 := by decide
    refine ⟨⟨trivial, hsize⟩, fun next hnext => ⟨⟨?_, trivial⟩, fun _ _ => trivial⟩⟩
    have hlaunched : (bootState [.other (plainLaunch 0)]).map (fun s =>
        (s.kernel.layout 1).map fun layout => (layout.pages, layout.ldtEntries)) =
        some (some (32, 0)) := by
      decide +kernel
    rw [bootState, hboot, Option.bind_some, run, hnext] at hlaunched
    intro address task hslot _
    have hlayout : (next.kernel.layout 1).map (fun layout => (layout.pages, layout.ldtEntries)) =
        some (32, 0) := Option.some.inj hlaunched
    rw [layout_eq hslot] at hlayout
    simp only [Task.layout, Option.map_some, Option.some.injEq, Prod.mk.injEq] at hlayout
    obtain ⟨hpages, hnone⟩ := hlayout
    rw [hpages, hnone]
    decide
  refine ⟨final, hfinal, hentries, descriptors_inside_from_boot (s := ⟨k, fun _ _ => {}⟩)
    (emptyHeap_ok ?_) (fun _ _ _ hne => absurd rfl hne) hboot hguard hrun⟩
  rintro ptr ⟨hne, name, rfl⟩
  exact hne rfl

-- The shell then forks: both tasks have the array, and the segment of the child is in the
-- block of the shell.
theorem fork_shares_descriptors : ∃ before final, bootState firstSegment = some before ∧
    (before.kernel.layout 1).any (fun layout => 0 + 1 * PAGE_SIZE ≤ layout.pages * PAGE_SIZE) = true ∧
    step before (.other (.fork 1 {} fun _ => {})) = some final ∧ ¬DescriptorsInside final := by
  have hrun : (bootState firstSegment).bind (fun before =>
      (step before (.other (.fork 1 {} fun _ => {}))).map fun final =>
        ((before.kernel.layout 1).any fun layout => 0 + 1 * PAGE_SIZE ≤ layout.pages * PAGE_SIZE,
          (final.kernel.layout 1).any fun first => (final.kernel.layout 2).any fun second =>
            first.ldt ≠ 0 ∧ first.ldt = second.ldt)) = some (true, true) := by
    decide +kernel
  obtain ⟨before, hbefore, hstate⟩ := Option.bind_eq_some_iff.mp hrun
  obtain ⟨final, hfinal, hstate⟩ := Option.map_eq_some_iff.mp hstate
  rw [Prod.mk.injEq] at hstate
  refine ⟨before, final, hbefore, hstate.1, hfinal, ?_⟩
  intro hinside
  obtain ⟨first, hfirst, hshared⟩ := (Option.any_eq_true _ _).mp hstate.2
  obtain ⟨second, hsecond, hshared⟩ := (Option.any_eq_true _ _).mp hshared
  obtain ⟨hne, heq⟩ := of_decide_eq_true hshared
  obtain ⟨address, task, hslot, rfl⟩ := layout_some hfirst
  obtain ⟨address', task', hslot', rfl⟩ := layout_some hsecond
  exact (hinside 1 address task hslot).2 2 address' task' (by decide) hslot' hne heq

end EchidnaOS.Segment
