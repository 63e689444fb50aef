import EchidnaOS.Segment.Encoding

namespace EchidnaOS.Segment

open EchidnaOS.Lib EchidnaOS.Lib.Run EchidnaOS.Klib

-- The kernel with the descriptors that the calls of one task have created, by their index.
structure Watched where
  state : State
  created : List (Nat × DtEntry) := []

def created (current : Nat) (s : State) : Call → List (Nat × DtEntry)
  | .newSegment pid base pageCount code =>
      match s.kernel.taskTable current with
      | .task _ task =>
          if pid = current then
            [(task.ldtEntries, descriptorOf s current base pageCount code task)]
          else []
      | _ => []
  | .other _ => []

def watch (current : Nat) (w : Watched) (call : Call) : Option Watched :=
  (step w.state call).map fun next => ⟨next, w.created ++ created current w.state call⟩

-- The block behind the ldt pointer holds the entries, and each is as its call left it.
def LdtHolds (current : Nat) (w : Watched) : Prop :=
  ∀ address task, w.state.kernel.taskTable current = .task address task →
    task.ldtEntries * SIZEOF_DT_ENTRY ≤
        (w.state.kernel.heap.metadata task.ldt).pages * PAGE_SIZE ∧
      ∀ made ∈ w.created, w.state.array task.ldt made.1 = made.2

-- What the rest of the kernel leaves alone: the array of the task and what the heap says of it.
def Untouched (current : Nat) (s next : State) : Prop :=
  ∀ address task, s.kernel.taskTable current = .task address task →
    ∃ address' task', next.kernel.taskTable current = .task address' task' ∧
      task'.ldt = task.ldt ∧ task'.ldtEntries = task.ldtEntries ∧
      next.kernel.heap.metadata task.ldt = s.kernel.heap.metadata task.ldt ∧
      ∀ index, index < task.ldtEntries → next.array task.ldt index = s.array task.ldt index

-- The calls of the task succeed, and the other steps leave its array alone.
def Granted (current : Nat) (w : Watched) : Call → Prop
  | .newSegment pid base pageCount code =>
      if pid = current then
        w.state.kernel.isActive current = true ∧
          ∃ address task, Succeeds w.state current base.toNat pageCount.toNat address task
      else ∃ next, step w.state (.newSegment pid base pageCount code) = some next ∧
        Untouched current w.state next
  | .other action => ∃ next, step w.state (.other action) = some next ∧
      Untouched current w.state next

def isCallOf (current : Nat) : Call → Bool
  | .newSegment pid _ _ _ => pid = current
  | .other _ => false

-- A task has no array, as every new one, or an array of one page.
def OnePage (s : State) (task : Task) : Prop :=
  task.ldt = 0 ∧ task.ldtEntries = 0 ∨
    task.ldt ≠ 0 ∧ (s.kernel.heap.metadata task.ldt).pages = 1 ∧
      divRoundup (s.kernel.heap.metadata task.ldt).size PAGE_SIZE = 1

-- The invariant: one page, whatever the count of the entries.
def Counted (current count : Nat) (w : Watched) : Prop :=
  ∃ address task, w.state.kernel.taskTable current = .task address task ∧
    task.ldtEntries = count ∧ OnePage w.state task ∧
    ∀ made ∈ w.created, made.1 < count ∧ w.state.array task.ldt made.1 = made.2

variable {s next : State} {w after : Watched} {current count address : Nat} {task : Task}
  {base pageCount : UInt32}

theorem OnePage.pages_le (hpage : OnePage s task) (hentries : 0 < task.ldtEntries) :
    (s.kernel.heap.metadata task.ldt).pages = 1 := by
  rcases hpage with ⟨-, hnone⟩ | ⟨-, hone, -⟩
  · omega
  · exact hone

theorem Counted.ldtHolds_iff (hcounted : Counted current count w) :
    LdtHolds current w ↔ count ≤ ENTRIES_PER_PAGE := by
  obtain ⟨address, task, hslot, rfl, hpage, hmade⟩ := hcounted
  constructor
  · intro hholds
    have hroom := (hholds address task hslot).1
    by_contra hmany
    rw [hpage.pages_le (by omega)] at hroom
    simp only [SIZEOF_DT_ENTRY, PAGE_SIZE, ENTRIES_PER_PAGE] at hroom hmany
    omega
  · intro hfew address' task' hslot'
    rw [hslot] at hslot'
    cases hslot'
    refine ⟨?_, fun made hmem => (hmade made hmem).2⟩
    by_cases hnone : task.ldtEntries = 0
    · simp [hnone]
    · rw [hpage.pages_le (by omega)]
      simp only [SIZEOF_DT_ENTRY, PAGE_SIZE, ENTRIES_PER_PAGE] at hfew ⊢
      omega

-- The size that is asked for is the count plus eight bytes, so it stays in one page.
theorem ldtSize_onePage (hfew : count ≤ ENTRIES_PER_PAGE) :
    divRoundup (ldtSize count) PAGE_SIZE = 1 := by
  simp only [divRoundup, ldtSize, SIZEOF_DT_ENTRY, ENTRIES_PER_PAGE, PAGE_SIZE] at *
  omega

theorem kalloc_metadata {heap : Heap} {size : Nat} (hnew : (kalloc heap size).1 ≠ 0) :
    (kalloc heap size).2.metadata (kalloc heap size).1 =
      ⟨divRoundup size PAGE_SIZE, size⟩ := by
  rcases halloc : pmmAllocz heap (divRoundup size PAGE_SIZE + 1) with ⟨_ | ptr, next⟩
  · simp [kalloc, halloc] at hnew
  · simp [kalloc, halloc]

theorem krealloc_inPlace {heap : Heap} {ptr size : Nat} (hptr : ptr ≠ 0)
    (hsame : divRoundup (heap.metadata ptr).size PAGE_SIZE = divRoundup size PAGE_SIZE) :
    krealloc heap ptr size = (ptr, { heap with
      metadata := Function.update heap.metadata ptr { heap.metadata ptr with size := size } }) := by
  rw [krealloc, if_neg hptr, if_pos hsame]

-- krealloc gives the array its first page, or leaves it where it is.
theorem roomFor_onePage (hpage : OnePage s task) (hfew : task.ldtEntries ≤ ENTRIES_PER_PAGE)
    (hroom : (roomFor s task).1 ≠ 0) :
    ((roomFor s task).2.metadata (roomFor s task).1).pages = 1 ∧
      divRoundup ((roomFor s task).2.metadata (roomFor s task).1).size PAGE_SIZE = 1 ∧
      ∀ index, index < task.ldtEntries → oldTable s task index = s.array task.ldt index := by
  have hone := ldtSize_onePage hfew
  rcases hpage with ⟨hnull, hnone⟩ | ⟨hldt, hpages, hsize⟩
  · have hnew : roomFor s task = kalloc s.kernel.heap (ldtSize task.ldtEntries) := by
      rw [roomFor, krealloc, if_pos hnull]
    rw [hnew] at hroom ⊢
    rw [kalloc_metadata hroom]
    exact ⟨hone, hone, fun index hindex => by omega⟩
  · have hsame : roomFor s task = (task.ldt, _) := krealloc_inPlace hldt (hsize.trans hone.symm)
    simp only [oldTable, hsame, Function.update_self, moveArray, if_true]
    exact ⟨hpages, hone, fun _ _ => trivial⟩

-- What a call of the task itself does to the invariant.
theorem Counted.newSegment (hcounted : Counted current count w) (code : Bool)
    (hfew : count ≤ ENTRIES_PER_PAGE)
    (h : Succeeds w.state current base.toNat pageCount.toNat address task) :
    Counted current (count + 1)
      ⟨(syscallNewSegment w.state current base pageCount code).2,
        w.created ++ created current w.state (.newSegment current base pageCount code)⟩ := by
  obtain ⟨address', task', hslot, hentries, hpage, hmade⟩ := hcounted
  rw [h.slot] at hslot
  cases hslot
  subst hentries
  have hcount : task.ldtEntries < 2 ^ 16 := by
    simp only [ENTRIES_PER_PAGE] at hfew
    omega
  obtain ⟨hpages, hsize, hold⟩ := roomFor_onePage hpage (by omega) h.room
  have htable : ∀ index, (syscallNewSegment w.state current base pageCount code).2.array
      (roomFor w.state task).1 index = addEntry (oldTable w.state task) task.ldtEntries
        ((base.toNat + task.base) % 2 ^ 32) pageCount.toNat code index := by
    intro index
    rw [syscallNewSegment_eq h]
    simp only [Function.update_self]
  refine ⟨address,
    { task with ldt := (roomFor w.state task).1, ldtEntries := task.ldtEntries + 1 },
    ?_, rfl, ?_, ?_⟩
  · rw [syscallNewSegment_eq h]
    simp only [Kernel.setTask, Function.update_self]
  · refine .inr ⟨h.room, ?_⟩
    rw [syscallNewSegment_eq h]
    exact ⟨hpages, hsize⟩
  · simp only [created, h.slot, if_true, List.mem_append, List.mem_singleton]
    rintro made (hmem | rfl)
    · obtain ⟨hlt, hkept⟩ := hmade made hmem
      refine ⟨by omega, ?_⟩
      rw [htable, addEntry_other _ hcount (by omega), hold _ (by omega), hkept]
    · exact ⟨by simp only; omega, rfl⟩

theorem Counted.untouched (hcounted : Counted current count w)
    (huntouched : Untouched current w.state next) :
    Counted current count ⟨next, w.created⟩ := by
  obtain ⟨address, task, hslot, rfl, hpage, hmade⟩ := hcounted
  obtain ⟨address', task', hslot', hldt, hentries, hmetadata, harray⟩ :=
    huntouched address task hslot
  refine ⟨address', task', hslot', hentries, ?_, ?_⟩
  · simpa only [OnePage, hldt, hentries, hmetadata] using hpage
  · intro made hmem
    obtain ⟨hlt, hkept⟩ := hmade made hmem
    exact ⟨hlt, by rw [hldt, harray _ hlt, hkept]⟩

theorem created_none {call : Call} (hcall : isCallOf current call = false) :
    created current s call = [] := by
  cases call with
  | other action => rfl
  | newSegment pid base pageCount code =>
      have hpid : pid ≠ current := by simpa [isCallOf] using hcall
      simp only [created, hpid, if_false]
      split <;> rfl

-- One step: a call of the task adds an entry, and nothing else does.
theorem Counted.step {call : Call} (hcounted : Counted current count w)
    (hfew : count ≤ ENTRIES_PER_PAGE) (hgranted : Granted current w call) :
    ∃ next, watch current w call = some next ∧
      Counted current (count + if isCallOf current call then 1 else 0) next := by
  cases hcall : isCallOf current call with
  | true =>
      cases call with
      | other action => simp [isCallOf] at hcall
      | newSegment pid base pageCount code =>
          have hpid : pid = current := by simpa [isCallOf] using hcall
          subst hpid
          simp only [Granted, if_true] at hgranted
          obtain ⟨hactive, address, task, hsucceeds⟩ := hgranted
          refine ⟨_, ?_, hcounted.newSegment code hfew hsucceeds⟩
          simp only [watch, Segment.step, hactive, if_true, Option.map_some]
  | false =>
      obtain ⟨next, hnext, huntouched⟩ :
          ∃ next, Segment.step w.state call = some next ∧ Untouched current w.state next := by
        cases call with
        | other action => exact hgranted
        | newSegment pid base pageCount code =>
            have hpid : pid ≠ current := by simpa [isCallOf] using hcall
            simpa only [Granted, hpid, if_false] using hgranted
      refine ⟨⟨next, w.created⟩, ?_, hcounted.untouched huntouched⟩
      simp only [watch, hnext, created_none hcall, Option.map_some, List.append_nil]

-- A run of any length, by induction on the calls: one page is enough for so many of them.
theorem Counted.throughout_iff {calls : List Call} (hcounted : Counted current count w)
    (hgranted : Guarded (watch current) (Granted current) w calls) :
    Throughout (watch current) (LdtHolds current) w calls ↔
      count + calls.countP (isCallOf current) ≤ ENTRIES_PER_PAGE := by
  induction calls generalizing count w with
  | nil => simpa [Throughout] using hcounted.ldtHolds_iff
  | cons call rest ih =>
      rw [Throughout, hcounted.ldtHolds_iff, List.countP_cons]
      by_cases hfew : count ≤ ENTRIES_PER_PAGE
      · obtain ⟨next, hnext, hcounted'⟩ := hcounted.step hfew hgranted.1
        have hrest := ih hcounted' (hgranted.2 next hnext)
        have honly : (∀ other, watch current w call = some other →
            Throughout (watch current) (LdtHolds current) other rest) ↔
              Throughout (watch current) (LdtHolds current) next rest :=
          ⟨fun h => h next hnext, fun h other hother => by
            rw [hnext] at hother
            cases hother
            exact h⟩
        rw [honly, hrest]
        omega
      · exact ⟨fun h => absurd h.1 hfew, fun h => absurd h (by omega)⟩

-- The block behind the ldt pointer is large enough in every state exactly when the calls fit one
-- page: krealloc is asked for the entry count plus eight bytes and never leaves that page.
theorem ldt_holds_iff (s : State) (current address : Nat) (task : Task) (calls : List Call)
    (hslot : s.kernel.taskTable current = .task address task) (hpage : OnePage s task)
    (hgranted : Guarded (watch current) (Granted current) ⟨s, []⟩ calls) :
    Throughout (watch current) (LdtHolds current) ⟨s, []⟩ calls ↔
      task.ldtEntries + calls.countP (isCallOf current) ≤ ENTRIES_PER_PAGE := by
  have hcounted : Counted current task.ldtEntries ⟨s, []⟩ :=
    ⟨address, task, hslot, rfl, hpage, fun _ hmem => absurd hmem List.not_mem_nil⟩
  exact hcounted.throughout_iff hgranted

-- A request that the task can make again and again.
structure Repeats (s : State) (current : Nat) (base pageCount : UInt32) (address : Nat)
    (task : Task) : Prop where
  succeeds : Succeeds s current base.toNat pageCount.toNat address task
  active : s.kernel.isActive current = true
  page : OnePage s task

-- After it the array is in place, so the next one has room.
theorem Repeats.again (h : Repeats s current base pageCount address task)
    (hfew : task.ldtEntries + 1 ≤ ENTRIES_PER_PAGE) (code : Bool) :
    Repeats (syscallNewSegment s current base pageCount code).2 current base pageCount address
      { task with ldt := (roomFor s task).1, ldtEntries := task.ldtEntries + 1 } := by
  obtain ⟨hpages, hsize, -⟩ := roomFor_onePage h.page (by omega) h.succeeds.room
  rw [syscallNewSegment_eq h.succeeds]
  refine ⟨⟨Function.update_self _ _ _, h.succeeds.fits, ?_⟩, ?_,
    .inr ⟨h.succeeds.room, hpages, hsize⟩⟩
  · have hinPlace : krealloc (roomFor s task).2 (roomFor s task).1
        (ldtSize (task.ldtEntries + 1)) = ((roomFor s task).1, _) :=
      krealloc_inPlace h.succeeds.room (hsize.trans (ldtSize_onePage hfew).symm)
    have hroom : (krealloc (roomFor s task).2 (roomFor s task).1
        (ldtSize (task.ldtEntries + 1))).1 ≠ 0 := by
      rw [hinPlace]
      exact h.succeeds.room
    exact hroom
  · obtain ⟨address', task', hslot, hstatus⟩ := isActive_slot h.active
    rw [h.succeeds.slot] at hslot
    cases hslot
    simp [Kernel.isActive, Kernel.setTask, Slot.status, hstatus]

theorem Repeats.guarded {made : List (Nat × DtEntry)} {n : Nat}
    (h : Repeats s current base pageCount address task)
    (hmany : task.ldtEntries + n ≤ ENTRIES_PER_PAGE + 1) (code : Bool) :
    Guarded (watch current) (Granted current) ⟨s, made⟩
      (List.replicate n (.newSegment current base pageCount code)) := by
  induction n generalizing s task made with
  | zero => trivial
  | succ n ih =>
      refine ⟨?_, fun next hnext => ?_⟩
      · simp only [Granted, if_true]
        exact ⟨h.active, address, task, h.succeeds⟩
      · simp only [watch, Segment.step, h.active, if_true, Option.map_some, Option.some.injEq]
          at hnext
        cases hnext
        by_cases hlast : n = 0
        · rw [hlast]
          trivial
        · exact ih (h.again (by omega) code) (by simp only; omega)

theorem oneTask_repeats : Repeats oneTask 1 0 1 PAGE_SIZE { pages := 33 } :=
  ⟨oneTask_succeeds, rfl, .inl ⟨rfl, rfl⟩⟩

theorem ldt_holds_twoCalls :
    Throughout (watch 1) (LdtHolds 1) ⟨oneTask, []⟩ (List.replicate 2 (.newSegment 1 0 1 true)) :=
  (ldt_holds_iff oneTask 1 PAGE_SIZE { pages := 33 } _ rfl (.inl ⟨rfl, rfl⟩)
    (oneTask_repeats.guarded (by decide) true)).mpr (by decide)

-- The 513th entry is past the only page of the block.
theorem ldt_overflows :
    ¬ Throughout (watch 1) (LdtHolds 1) ⟨oneTask, []⟩
      (List.replicate 513 (.newSegment 1 0 1 true)) := by
  intro h
  have hcounted : Counted 1 0 ⟨oneTask, []⟩ :=
    ⟨PAGE_SIZE, { pages := 33 }, rfl, rfl, .inl ⟨rfl, rfl⟩,
      fun _ hmem => absurd hmem List.not_mem_nil⟩
  have hfew := (hcounted.throughout_iff (oneTask_repeats.guarded (by decide) true)).mp h
  rw [List.countP_replicate] at hfew
  exact absurd hfew (by decide)

end EchidnaOS.Segment
