import EchidnaOS.Devfs.Iowait
import EchidnaOS.Echfs.Handle.Access

namespace EchidnaOS.Devfs

open EchidnaOS.Lib.ByteStore EchidnaOS.Lib.SlotTable EchidnaOS.Lib.Run EchidnaOS.Scheduler

variable {σ : Type*} {io : IoWrapper σ} {wrappers : Nat → IoWrapper σ} {type : IoType} {len : Nat}
  {t result : Transfer (σ × List Access)} {new : List Access}

-- A loop that starts at a position makes the calls in `new`: what they moved is what stands in
-- the buffer from `count` on, which counts it.
structure Moved (type : IoType) (start len : Nat) (t result : Transfer (σ × List Access))
    (new : List Access) : Prop where
  log : result.device.2 = t.device.2 ++ new
  kind : ∀ access ∈ new, access.type = type
  count : result.count = t.count + (movedBytes new).length
  le : (movedBytes new).length ≤ len
  ptr : result.iPtr = toInt (start + (movedBytes new).length : Nat)
  bytes : movedBytes new =
    (List.range (movedBytes new).length).map fun i => result.buffer (t.count + i)
  outside : ∀ i, i < t.count ∨ t.count + (movedBytes new).length ≤ i → result.buffer i = t.buffer i
  written : type = .write → result.buffer = t.buffer

theorem Moved.stop {start : Nat} {access : Access} (hptr : t.iPtr = toInt start)
    (hkind : access.type = type) (hnone : access.moved = none) (device : σ) (stat : Bool) :
    Moved type start len t { t with device := (device, t.device.2 ++ [access]), stat := stat }
      [access] := by
  have hnothing : movedBytes [access] = [] := by simp [movedBytes, hnone]
  constructor
  · rfl
  · simpa using hkind
  · rw [hnothing]
    rfl
  · rw [hnothing]
    exact Nat.zero_le _
  · rw [hnothing]
    exact hptr
  · rw [hnothing]
    rfl
  · exact fun _ _ => rfl
  · exact fun _ => rfl

theorem Moved.nil {start : Nat} (hptr : t.iPtr = toInt start) : Moved type start len t t [] :=
  ⟨(List.append_nil _).symm, nofun, rfl, Nat.zero_le _, hptr, rfl, fun _ _ => rfl, fun _ => rfl⟩

-- A byte that is moved comes before those of the rest of the loop.
theorem Moved.cons {start : Nat} {access : Access} {c : UInt8} {device : σ} {buffer : Store}
    (hkind : access.type = type) (hmoved : access.moved = some c) (hbyte : buffer t.count = c)
    (hbuffer : ∀ i, i ≠ t.count → buffer i = t.buffer i)
    (hwritten : type = .write → buffer = t.buffer)
    (hrest : Moved type (start + 1) len
      { t with
        count := t.count + 1
        iPtr := toInt (start + 1 : Nat)
        buffer := buffer
        device := (device, t.device.2 ++ [access]) } result new) :
    Moved type start (len + 1) t result (access :: new) := by
  have hcons : movedBytes (access :: new) = c :: movedBytes new := by simp [movedBytes, hmoved]
  have hlength : (movedBytes (access :: new)).length = (movedBytes new).length + 1 := by
    rw [hcons, List.length_cons]
  constructor
  · simpa using hrest.log
  · intro other hmem
    rcases List.mem_cons.mp hmem with rfl | hmem
    · exact hkind
    · exact hrest.kind other hmem
  · have hcount := hrest.count
    dsimp only at hcount
    omega
  · rw [hlength]
    exact Nat.succ_le_succ hrest.le
  · rw [hrest.ptr, hlength]
    congr 1
    omega
  · have hhead : result.buffer (t.count + 0) = c := by
      rw [← hbyte]
      exact hrest.outside t.count (Or.inl (Nat.lt_succ_self _))
    have htail := hrest.bytes
    rw [hlength, List.range_succ_eq_map, List.map_cons, List.map_map, hhead, hcons]
    congr 1
    rw [htail]
    simp only [List.length_map, List.length_range]
    apply List.map_congr_left
    intro i _
    simp only [Function.comp_apply, Nat.succ_eq_add_one]
    congr 1
    omega
  · intro i hi
    rw [hlength] at hi
    have hne : i ≠ t.count := by omega
    rw [← hbuffer i hne]
    exact hrest.outside i (by dsimp only; omega)
  · intro hwrite
    rw [hrest.written hwrite]
    exact hwritten hwrite

-- One turn of either loop: the call moves no byte, or the loop goes on as `rest`.
theorem Moved.turn {start : Nat} (access : Access) (device : σ) (rest : Transfer (σ × List Access))
    (hptr : t.iPtr = toInt start) (hkind : access.type = type)
    (hrest : ¬(access.result = FAILURE ∨ access.result = -1) → access.result ≠ IO_NOT_READY →
      ∃ new, Moved type start len t rest new) :
    ∃ new, Moved type start len t
      (if access.result = FAILURE ∨ access.result = -1 then
        { t with device := (device, t.device.2 ++ [access]) }
      else if access.result = IO_NOT_READY then
        { t with device := (device, t.device.2 ++ [access]), stat := true }
      else rest) new := by
  by_cases hfailed : access.result = FAILURE ∨ access.result = -1
  · rw [if_pos hfailed]
    exact ⟨_, .stop hptr hkind (if_pos hfailed) _ _⟩
  rw [if_neg hfailed]
  by_cases hready : access.result = IO_NOT_READY
  · rw [if_pos hready]
    exact ⟨_, .stop hptr hkind ((if_neg hfailed).trans (if_pos hready)) _ _⟩
  rw [if_neg hready]
  exact hrest hfailed hready

theorem ureadLoop_moved (io : IoWrapper σ) (len : Nat) {start : Nat} (hptr : t.iPtr = toInt start) :
    ∃ new, Moved .read start len t (ureadLoop (logged io) len t) new := by
  induction len generalizing start t with
  | zero => exact ⟨[], .nil hptr⟩
  | succ len ih =>
      rw [ureadLoop]
      unfold logged
      generalize io t.device.1 (toU64 t.iPtr) .read 0 = c
      apply Moved.turn ⟨toU64 t.iPtr, .read, 0, c.1⟩ c.2 _ hptr rfl
      intro hfailed hready
      have hmoved : (⟨toU64 t.iPtr, .read, 0, c.1⟩ : Access).moved = some (toChar c.1) := by
        rw [Access.moved, if_neg hfailed, if_neg hready]
      rw [hptr, toInt_succ]
      obtain ⟨new, hnew⟩ := @ih { t with
        count := t.count + 1
        iPtr := toInt (start + 1 : Nat)
        buffer := Function.update t.buffer t.count (toChar c.1)
        device := (c.2, t.device.2 ++ [⟨toU64 (toInt start), .read, 0, c.1⟩]) } (start + 1) (by simp only)
      rw [hptr] at hmoved
      exact ⟨_, .cons rfl hmoved (Function.update_self _ _ _)
        (fun i hne => Function.update_of_ne hne _ _) (fun hwrite => by cases hwrite) hnew⟩

theorem uwriteLoop_moved (io : IoWrapper σ) (len : Nat) {start : Nat} (hptr : t.iPtr = toInt start) :
    ∃ new, Moved .write start len t (uwriteLoop (logged io) len t) new := by
  induction len generalizing start t with
  | zero => exact ⟨[], .nil hptr⟩
  | succ len ih =>
      rw [uwriteLoop]
      unfold logged
      generalize io t.device.1 (toU64 t.iPtr) .write (t.buffer t.count) = c
      apply Moved.turn ⟨toU64 t.iPtr, .write, t.buffer t.count, c.1⟩ c.2 _ hptr rfl
      intro hfailed hready
      have hmoved : (⟨toU64 t.iPtr, .write, t.buffer t.count, c.1⟩ : Access).moved =
          some (t.buffer t.count) := by
        rw [Access.moved, if_neg hfailed, if_neg hready]
      rw [hptr, toInt_succ]
      obtain ⟨new, hnew⟩ := @ih { t with
        count := t.count + 1
        iPtr := toInt (start + 1 : Nat)
        device := (c.2, t.device.2 ++ [⟨toU64 (toInt start), .write, t.buffer t.count, c.1⟩]) }
        (start + 1) (by simp only)
      rw [hptr] at hmoved
      exact ⟨_, .cons rfl hmoved rfl (fun _ _ => rfl) (fun _ => rfl) hnew⟩

theorem devfsTransfer_moved (wrappers : Nat → IoWrapper σ) (type : IoType) (s : IoSystem σ)
    (internal : Int) (buffer : Store) (len : Nat) :
    ∃ new, Moved type (s.handles internal).ptr len
        (Transfer.start (s.handles internal) (s.device, s.log internal) buffer)
        (devfsTransfer wrappers type s internal buffer len).1 new ∧
      (devfsTransfer wrappers type s internal buffer len).2 =
        { s.handles internal with
          ptr := toU64 (devfsTransfer wrappers type s internal buffer len).1.iPtr } := by
  cases type with
  | read =>
      obtain ⟨new, hnew⟩ := @ureadLoop_moved σ
        (Transfer.start (s.handles internal) (s.device, s.log internal) buffer)
        (wrappers (s.handles internal).device) len (s.handles internal).ptr
        (by simp only [Transfer.start])
      exact ⟨new, hnew, rfl⟩
  | write =>
      obtain ⟨new, hnew⟩ := @uwriteLoop_moved σ
        (Transfer.start (s.handles internal) (s.device, s.log internal) buffer)
        (wrappers (s.handles internal).device) len (s.handles internal).ptr
        (by simp only [Transfer.start])
      exact ⟨new, hnew, rfl⟩

variable {s middle next : IoSystem σ} {pid ptr : Nat} {internal : Int} {more : List Access}

-- What has been done of a transfer of a task through a handle: the calls in `new` moved the
-- bytes that stand in its memory from `ptr` on, and the handle is past them.
structure Served (type : IoType) (pid : Nat) (internal : Int) (ptr len : Nat) (s next : IoSystem σ)
    (new : List Access) : Prop where
  log : next.log internal = s.log internal ++ new
  kind : ∀ access ∈ new, access.type = type
  le : (movedBytes new).length ≤ len
  handle : next.handles internal =
    { s.handles internal with ptr := (s.handles internal).ptr + (movedBytes new).length }
  bytes : movedBytes new =
    (List.range (movedBytes new).length).map fun i => next.memory pid (ptr + i)
  outside : ∀ a, a < ptr ∨ ptr + (movedBytes new).length ≤ a → next.memory pid a = s.memory pid a
  written : type = .write → next.memory pid = s.memory pid

-- The next part of a transfer goes on where the last one stopped.
theorem Served.trans {rest : Nat} (hfirst : Served type pid internal ptr len s middle new)
    (hnext : Served type pid internal (ptr + (movedBytes new).length) rest middle next more)
    (hlen : (movedBytes new).length + rest ≤ len) :
    Served type pid internal ptr len s next (new ++ more) := by
  have happend : movedBytes (new ++ more) = movedBytes new ++ movedBytes more :=
    List.filterMap_append
  have hlength : (movedBytes (new ++ more)).length =
      (movedBytes new).length + (movedBytes more).length := by
    rw [happend, List.length_append]
  have hle := hnext.le
  constructor
  · rw [hnext.log, hfirst.log, List.append_assoc]
  · intro access hmem
    rcases List.mem_append.mp hmem with hold | hnew
    · exact hfirst.kind access hold
    · exact hnext.kind access hnew
  · omega
  · rw [hnext.handle, hfirst.handle, hlength, ← Nat.add_assoc]
  · rw [hlength, List.range_add, List.map_append, List.map_map, happend]
    congr 1
    · conv_lhs => rw [hfirst.bytes]
      apply List.map_congr_left
      intro i hi
      have hlt := List.mem_range.mp hi
      exact (hnext.outside _ (Or.inl (by omega))).symm
    · conv_lhs => rw [hnext.bytes]
      apply List.map_congr_left
      intro i _
      simp only [Function.comp_apply, Nat.add_assoc]
  · intro a ha
    rw [hlength] at ha
    rw [hnext.outside a (by omega), hfirst.outside a (by omega)]
  · intro hwrite
    rw [hnext.written hwrite, hfirst.written hwrite]

-- What others do leaves a task, its memory, and a handle alone.
structure Leaves (pid : Nat) (internal : Int) (s next : IoSystem σ) : Prop where
  task : next.tasks pid = s.tasks pid
  memory : next.memory pid = s.memory pid
  handle : next.handles internal = s.handles internal
  log : next.log internal = s.log internal

theorem Served.leave (hserved : Served type pid internal ptr len s middle new)
    (hleaves : Leaves pid internal middle next) : Served type pid internal ptr len s next new := by
  constructor
  · rw [hleaves.log, hserved.log]
  · exact hserved.kind
  · exact hserved.le
  · rw [hleaves.handle, hserved.handle]
  · rw [hleaves.memory]
    exact hserved.bytes
  · rw [hleaves.memory]
    exact hserved.outside
  · rw [hleaves.memory]
    exact hserved.written

@[simp] theorem setStat_log (s : IoSystem σ) (stat : Bool) : (s.setStat type stat).log = s.log := by
  cases type <;> rfl

@[simp] theorem setStat_handles (s : IoSystem σ) (stat : Bool) :
    (s.setStat type stat).handles = s.handles := by
  cases type <;> rfl

@[simp] theorem setStat_memory (s : IoSystem σ) (stat : Bool) :
    (s.setStat type stat).memory = s.memory := by
  cases type <;> rfl

@[simp] theorem setStat_tasks (s : IoSystem σ) (stat : Bool) :
    (s.setStat type stat).tasks = s.tasks := by
  cases type <;> rfl

@[simp] theorem setStat_stat (s : IoSystem σ) (stat : Bool) : (s.setStat type stat).stat type = stat := by
  cases type <;> rfl

variable {handle len' : Int}

theorem chunk_of_le (hlen : len' ≤ Vfs.MAX_SIMULTANOUS_VFS_ACCESS) : Vfs.chunk len' = len'.toNat :=
  if_pos hlen

@[simp] theorem vfsTransfer_tasks (wrappers : Nat → IoWrapper σ) (type : IoType) (pid : Nat)
    (handle : Int) (ptr : Nat) (len : Int) (s : IoSystem σ) :
    (vfsTransfer wrappers type pid handle ptr len s).2.tasks = s.tasks := by
  simp [vfsTransfer]

theorem vfsTransfer_served (hlen : len' ≤ Vfs.MAX_SIMULTANOUS_VFS_ACCESS)
    (hinternal : internalHandle (s.tasks pid) handle = internal)
    (hptr : (s.handles internal).ptr + len'.toNat < 2 ^ 31) :
    ∃ new, Served type pid internal ptr len'.toNat s
        (vfsTransfer wrappers type pid handle ptr len' s).2 new ∧
      (vfsTransfer wrappers type pid handle ptr len' s).1 = (movedBytes new).length := by
  obtain ⟨new, hmoved, hhandle⟩ := devfsTransfer_moved wrappers type s internal
    (fun i => s.memory pid (ptr + i)) len'.toNat
  unfold vfsTransfer
  dsimp only
  rw [hinternal, chunk_of_le hlen]
  generalize devfsTransfer wrappers type s internal (fun i => s.memory pid (ptr + i)) len'.toNat =
    result at hmoved hhandle ⊢
  have hle := hmoved.le
  have hposition : toU64 result.1.iPtr = (s.handles internal).ptr + (movedBytes new).length := by
    rw [hmoved.ptr, Echfs.toInt_small (by omega), toU64]
    omega
  have hcount : result.1.count = (movedBytes new).length := hmoved.count.trans (Nat.zero_add _)
  refine ⟨new, ?_, ?_⟩
  · constructor
    · simpa [Transfer.start] using hmoved.log
    · exact hmoved.kind
    · exact hle
    · simp [hhandle, hposition]
    · conv_lhs => rw [hmoved.bytes]
      apply List.map_congr_left
      intro i _
      simp [overlay, Transfer.start]
    · intro a ha
      simp only [setStat_memory, Function.update_self, overlay]
      split
      · rfl
      · have houtside := hmoved.outside (a - ptr) (Or.inr (by simp only [Transfer.start]; omega))
        rw [houtside]
        simp only [Transfer.start]
        congr 1
        omega
    · intro hwrite
      funext a
      simp only [setStat_memory, Function.update_self, overlay, hmoved.written hwrite, Transfer.start]
      split
      · rfl
      · congr 1
        omega
  · simp [hcount]

-- A transfer of no bytes makes no call, and is not made to wait.
theorem vfsTransfer_stat_pos (hlen : len' ≤ Vfs.MAX_SIMULTANOUS_VFS_ACCESS)
    (hstat : (vfsTransfer wrappers type pid handle ptr len' s).2.stat type = true) : 0 < len' := by
  by_contra hneg
  have hnone : len'.toNat = 0 := by omega
  have hmore : ¬(Vfs.MAX_SIMULTANOUS_VFS_ACCESS : Int) < len' := by omega
  unfold vfsTransfer at hstat
  dsimp only at hstat
  rw [chunk_of_le hlen, hnone, setStat_stat, Bool.or_eq_true, decide_eq_true_eq] at hstat
  rcases hstat with hwaits | hlarge
  · cases type with
    | read => cases hwaits
    | write => cases hwaits
  · exact hmore hlarge

-- The record of a task whose transfer waits with `done` bytes moved.
structure Blocked (type : IoType) (handle : Int) (ptr : Nat) (len : Int) (done : Nat)
    (task : Task) : Prop where
  status : task.status = .iowait
  iowaitType : task.iowaitType = iowaitTypeOf type
  iowaitHandle : task.iowaitHandle = handle
  iowaitPtr : task.iowaitPtr = ptr
  iowaitLen : task.iowaitLen = len
  iowaitDone : task.iowaitDone = done
  positive : 0 < len

-- The transfer of a task from `s` on: what has been moved, and the task waits with that or
-- has it in eax.
structure Progress (type : IoType) (pid : Nat) (handle : Int) (ptr : Nat) (len : Int)
    (s next : IoSystem σ) (new : List Access) : Prop where
  served : Served type pid (internalHandle (s.tasks pid) handle) ptr len.toNat s next new
  descriptors : (next.tasks pid).handlesV2 = (s.tasks pid).handlesV2
  state : Blocked type handle ptr len (movedBytes new).length (next.tasks pid) ∨
    (next.tasks pid).status = .active ∧ (next.tasks pid).cpu.eax = (movedBytes new).length

theorem lowHalf_natCast {count : Nat} (hcount : count < 2 ^ 32) : lowHalf (count : Int) = count := by
  unfold lowHalf
  omega

theorem ioTypeOf_iowaitTypeOf (type : IoType) : ioTypeOf (iowaitTypeOf type) = some type := by
  cases type <;> rfl

theorem one_lt_iowaitTypeOf (type : IoType) : 1 < iowaitTypeOf type := by
  cases type <;> decide

theorem setTask_task (s : IoSystem σ) (pid : Nat) (change : Task → Task) :
    (s.setTask pid change).tasks pid = change (s.tasks pid) := Function.update_self _ _ _

theorem Served.setTask (hserved : Served type pid internal ptr len s next new) (change : Task → Task) :
    Served type pid internal ptr len s (next.setTask pid change) new :=
  ⟨hserved.log, hserved.kind, hserved.le, hserved.handle, hserved.bytes, hserved.outside,
    hserved.written⟩

-- The system call, with interrupts on but no task switch.
theorem transferIsr_progress (hactive : (s.tasks pid).status = .active)
    (hlen : len' ≤ Vfs.MAX_SIMULTANOUS_VFS_ACCESS)
    (hptr : (s.handles (internalHandle (s.tasks pid) handle)).ptr + len'.toNat < 2 ^ 31) :
    ∃ new, Progress type pid handle ptr len' s (transferIsr wrappers type pid handle ptr len' s) new := by
  obtain ⟨new, hserved, hcount⟩ := @vfsTransfer_served σ wrappers type s pid ptr _ handle len' hlen
    rfl hptr
  have hstat := @vfsTransfer_stat_pos σ wrappers type s pid ptr handle len' hlen
  have htasks := vfsTransfer_tasks wrappers type pid handle ptr len' s
  unfold transferIsr
  generalize vfsTransfer wrappers type pid handle ptr len' s = result at hserved hcount hstat htasks ⊢
  have htask : result.2.tasks pid = s.tasks pid := by rw [htasks]
  have hle := hserved.le
  refine ⟨new, ?_⟩
  dsimp only
  split
  · rename_i hwaits
    refine ⟨hserved.setTask _, ?_, Or.inl ?_⟩
    · rw [setTask_task, htask]
      rfl
    · rw [setTask_task, hcount]
      exact ⟨rfl, rfl, rfl, rfl, rfl, rfl, hstat hwaits⟩
  · refine ⟨hserved.setTask _, ?_, Or.inr ⟨?_, ?_⟩⟩
    · rw [setTask_task, htask]
      rfl
    · rw [setTask_task, htask]
      exact hactive
    · rw [setTask_task, hcount]
      exact lowHalf_natCast (by omega)

theorem internalHandle_congr {task task' : Task} (hhandles : task'.handlesV2 = task.handlesV2)
    (handle : Int) : internalHandle task' handle = internalHandle task handle := by
  rw [internalHandle, internalHandle, hhandles]

theorem retryIo_handlesV2 (result : Int) (task : Task) :
    (retryIo result task).handlesV2 = task.handlesV2 := by
  unfold retryIo
  split <;> rfl

theorem completeIo_handlesV2 (result : Int) (task : Task) :
    (completeIo result task).handlesV2 = task.handlesV2 := by
  unfold completeIo
  split <;> rfl

-- iowait types 0 and 1 are those of one byte of a driver.
theorem Blocked.transfers {task : Task} {done : Nat} (hblocked : Blocked type handle ptr len' done task) :
    ¬task.iowaitType ≤ 1 := by
  rw [hblocked.iowaitType]
  exact Nat.not_le.mpr (one_lt_iowaitTypeOf type)

-- The sums that a retry leaves, in `int`.
theorem Blocked.total {task : Task} {done count : Nat} (hblocked : Blocked type handle ptr len' done task)
    (hsum : done + count < 2 ^ 31) :
    toInt (task.iowaitDone + (count : Int)) = (done + count : Nat) := by
  rw [hblocked.iowaitDone, ← Nat.cast_add, Echfs.toInt_small hsum]

theorem Blocked.retry {task : Task} {done count : Nat} (hblocked : Blocked type handle ptr len' done task)
    (hsum : done + count < 2 ^ 31) :
    Blocked type handle ptr len' (done + count) (retryIo count task) := by
  unfold retryIo
  rw [if_neg hblocked.transfers, hblocked.total hsum]
  exact ⟨hblocked.status, hblocked.iowaitType, hblocked.iowaitHandle, hblocked.iowaitPtr,
    hblocked.iowaitLen, rfl, hblocked.positive⟩

theorem Blocked.complete {task : Task} {done count : Nat}
    (hblocked : Blocked type handle ptr len' done task) (hsum : done + count < 2 ^ 31) :
    (completeIo count task).status = .active ∧ (completeIo count task).cpu.eax = done + count := by
  unfold completeIo
  rw [if_neg hblocked.transfers, hblocked.total hsum]
  exact ⟨rfl, lowHalf_natCast (by omega)⟩

-- A visit of the scheduler resumes the transfer behind the bytes that have been moved.
theorem Progress.retry (hprogress : Progress type pid handle ptr len' s middle new)
    (hblocked : Blocked type handle ptr len' (movedBytes new).length (middle.tasks pid))
    (hlen : len' ≤ Vfs.MAX_SIMULTANOUS_VFS_ACCESS)
    (hptr : (s.handles (internalHandle (s.tasks pid) handle)).ptr + len'.toNat < 2 ^ 31) :
    ∃ more, Progress type pid handle ptr len' s (retryTransfer wrappers type pid middle) more := by
  have hserved := hprogress.served
  have hle := hserved.le
  have hpositive := hblocked.positive
  have hinternal : internalHandle (middle.tasks pid) handle = internalHandle (s.tasks pid) handle :=
    internalHandle_congr hprogress.descriptors handle
  have hstart : (ptr + ((movedBytes new).length : Int)).toNat = ptr + (movedBytes new).length := by
    omega
  have hrest : toInt (len' - (movedBytes new).length) = len' - (movedBytes new).length := by
    have hnat : len' - (movedBytes new).length = (len'.toNat - (movedBytes new).length : Nat) := by
      omega
    rw [hnat, Echfs.toInt_small (by omega)]
  have hbehind : (middle.handles (internalHandle (s.tasks pid) handle)).ptr +
      (len' - (movedBytes new).length).toNat < 2 ^ 31 := by
    rw [hserved.handle]
    dsimp only
    omega
  obtain ⟨more, hmore, hcount⟩ := @vfsTransfer_served σ wrappers type middle pid
    (ptr + (movedBytes new).length) _ handle (len' - (movedBytes new).length) (by omega) hinternal hbehind
  have htasks := vfsTransfer_tasks wrappers type pid handle (ptr + (movedBytes new).length)
    (len' - (movedBytes new).length) middle
  have htotal := hserved.trans hmore (by omega)
  have htotalLe := htotal.le
  have happend : (movedBytes (new ++ more)).length =
      (movedBytes new).length + (movedBytes more).length := by
    rw [movedBytes, List.filterMap_append, List.length_append, ← movedBytes, ← movedBytes]
  have hsum : (movedBytes new).length + (movedBytes more).length < 2 ^ 31 := by omega
  unfold retryTransfer
  dsimp only
  rw [hblocked.iowaitHandle, hblocked.iowaitPtr, hblocked.iowaitLen, hblocked.iowaitDone, hstart, hrest]
  generalize vfsTransfer wrappers type pid handle (ptr + (movedBytes new).length)
    (len' - (movedBytes new).length) middle = result at htotal hcount htasks ⊢
  have htask : result.2.tasks pid = middle.tasks pid := by rw [htasks]
  refine ⟨new ++ more, ?_⟩
  split
  · refine ⟨htotal.setTask _, ?_, Or.inl ?_⟩
    · rw [setTask_task, retryIo_handlesV2, htask]
      exact hprogress.descriptors
    · rw [setTask_task, htask, hcount, happend]
      exact hblocked.retry hsum
  · have hcomplete := hblocked.complete hsum
    refine ⟨htotal.setTask _, ?_, Or.inr ?_⟩
    · rw [setTask_task, completeIo_handlesV2, htask]
      exact hprogress.descriptors
    · rw [setTask_task, htask, hcount, happend]
      exact hcomplete

-- What is done between the system call and the end of a transfer: visits of the task, work of
-- other tasks on other handles, and anything that leaves the task and its handle alone.
def LeavesTransfer (pid : Nat) (internal : Int) (s : IoSystem σ) : IoCall σ → Prop
  | .transfer _ other handle _ _ => other ≠ pid ∧ internalHandle (s.tasks other) handle ≠ internal
  | .retry other => other = pid ∨ internalHandle (s.tasks other) (s.tasks other).iowaitHandle ≠ internal
  | .other next => Leaves pid internal s next

theorem vfsTransfer_leaves {other : Nat} (hpid : other ≠ pid)
    (hinternal : internalHandle (s.tasks other) handle ≠ internal) :
    Leaves pid internal s (vfsTransfer wrappers type other handle ptr len' s).2 := by
  constructor
  · rw [vfsTransfer_tasks]
  · simp [vfsTransfer, Function.update_of_ne hpid.symm]
  · simp [vfsTransfer, Function.update_of_ne hinternal.symm]
  · simp [vfsTransfer, Function.update_of_ne hinternal.symm]

theorem Leaves.setTask {other : Nat} (hleaves : Leaves pid internal s next) (hpid : other ≠ pid)
    (change : Task → Task) : Leaves pid internal s (next.setTask other change) :=
  ⟨(Function.update_of_ne hpid.symm _ _).trans hleaves.task, hleaves.memory, hleaves.handle,
    hleaves.log⟩

theorem Progress.leave (hprogress : Progress type pid handle ptr len' s middle new)
    (hleaves : Leaves pid (internalHandle (s.tasks pid) handle) middle next) :
    Progress type pid handle ptr len' s next new := by
  refine ⟨hprogress.served.leave hleaves, ?_, ?_⟩
  · rw [hleaves.task]
    exact hprogress.descriptors
  · rw [hleaves.task]
    exact hprogress.state

theorem Progress.step {call : IoCall σ} (hprogress : Progress type pid handle ptr len' s middle new)
    (hlen : len' ≤ Vfs.MAX_SIMULTANOUS_VFS_ACCESS)
    (hptr : (s.handles (internalHandle (s.tasks pid) handle)).ptr + len'.toNat < 2 ^ 31)
    (hguard : LeavesTransfer pid (internalHandle (s.tasks pid) handle) middle call)
    (hstep : ioStep wrappers middle call = some next) :
    ∃ more, Progress type pid handle ptr len' s next more := by
  cases call with
  | other after =>
      cases hstep
      exact ⟨new, hprogress.leave hguard⟩
  | transfer otherType other otherHandle otherPtr otherLen =>
      simp only [ioStep, Option.ite_none_right_eq_some, Option.some.injEq] at hstep
      obtain ⟨-, rfl⟩ := hstep
      refine ⟨new, hprogress.leave ?_⟩
      have hleaves := @vfsTransfer_leaves σ wrappers otherType middle pid otherPtr _ otherHandle
        otherLen other hguard.1 hguard.2
      unfold transferIsr
      dsimp only
      split
      · exact hleaves.setTask hguard.1 _
      · exact hleaves.setTask hguard.1 _
  | retry other =>
      simp only [ioStep, Option.ite_none_right_eq_some] at hstep
      obtain ⟨hwaits, hretry⟩ := hstep
      obtain ⟨otherType, htype, rfl⟩ := Option.map_eq_some_iff.mp hretry
      by_cases hpid : other = pid
      · subst hpid
        rcases hprogress.state with hblocked | ⟨hactive, -⟩
        · rw [hblocked.iowaitType, ioTypeOf_iowaitTypeOf, Option.some.injEq] at htype
          subst htype
          exact hprogress.retry hblocked hlen hptr
        · rw [hactive] at hwaits
          cases hwaits
      · have hinternal := hguard.resolve_left hpid
        refine ⟨new, hprogress.leave ?_⟩
        unfold retryTransfer
        dsimp only
        split
        · exact (vfsTransfer_leaves hpid hinternal).setTask hpid _
        · exact (vfsTransfer_leaves hpid hinternal).setTask hpid _

-- However often it is retried, with others at work in between: a transfer that completes with
-- count `n` made calls that moved the `n` bytes at `ptr`, in order and each once, and the handle
-- is `n` further.
theorem blocked_transfer_moves_every_byte (wrappers : Nat → IoWrapper σ) (type : IoType) (pid : Nat)
    (handle : Int) (ptr : Nat) (len : Int) {s first final : IoSystem σ} {events : List (IoCall σ)}
    (hlen : len ≤ Vfs.MAX_SIMULTANOUS_VFS_ACCESS)
    (hptr : (s.handles (internalHandle (s.tasks pid) handle)).ptr + len.toNat < 2 ^ 31)
    (hcall : ioStep wrappers s (.transfer type pid handle ptr len) = some first)
    (hguard : Guarded (ioStep wrappers) (LeavesTransfer pid (internalHandle (s.tasks pid) handle))
      first events)
    (hrun : run (ioStep wrappers) first events = some final)
    (hcomplete : (final.tasks pid).status = .active) :
    ∃ new, (final.tasks pid).cpu.eax = (movedBytes new).length ∧
      Served type pid (internalHandle (s.tasks pid) handle) ptr len.toNat s final new := by
  simp only [ioStep, Option.ite_none_right_eq_some, Option.some.injEq] at hcall
  obtain ⟨hactive, rfl⟩ := hcall
  have hkeep : ∀ middle call next, (∃ new, Progress type pid handle ptr len s middle new) →
      LeavesTransfer pid (internalHandle (s.tasks pid) handle) middle call →
      ioStep wrappers middle call = some next →
      ∃ new, Progress type pid handle ptr len s next new := by
    rintro middle call next ⟨new, hprogress⟩ hothers hstep
    exact hprogress.step hlen hptr hothers hstep
  have hfirst := @transferIsr_progress σ wrappers type s pid ptr handle len hactive hlen hptr
  obtain ⟨new, hprogress⟩ := run_invariant hkeep hfirst hguard hrun
  rcases hprogress.state with hblocked | ⟨-, heax⟩
  · rw [hblocked.status] at hcomplete
    cases hcomplete
  · exact ⟨new, heax, hprogress.served⟩

-- A device that is ready every other time, and two tasks with a handle of it each.
def slowDevice (_ : Nat) : IoWrapper Nat := fun calls loc type payload =>
  if calls % 2 = 0 then (IO_NOT_READY, calls + 1)
  else
    match type with
    | .read => (97 + loc, calls + 1)
    | .write => (payload.toNat, calls + 1)

def slowSystem : IoSystem Nat where
  device := 0
  handles := fun _ => { ptr := 5 }
  log := fun _ => []
  tasks := fun pid => { handlesV2 := [{ internalHandle := (pid : Int) }] }
  memory := fun _ _ => 0
  readStat := false
  writeStat := false

theorem blocked_transfer_slow :
    ∃ final new, run (ioStep slowDevice) slowSystem
        [.transfer .read 1 0 8 2, .retry 1, .transfer .write 2 0 0 1, .retry 1, .retry 1] = some final ∧
      (final.tasks 1).cpu.eax = (movedBytes new).length ∧ Served .read 1 1 8 2 slowSystem final new := by
  have hguard : Guarded (ioStep slowDevice) (LeavesTransfer 1 1)
      (transferIsr slowDevice .read 1 0 8 2 slowSystem)
      [.retry 1, .transfer .write 2 0 0 1, .retry 1, .retry 1] := by
    refine .cons (Or.inl rfl) rfl (.cons ⟨by decide, by decide⟩ rfl ?_)
    exact .cons (Or.inl rfl) rfl (.cons (Or.inl rfl) rfl trivial)
  obtain ⟨new, heax, hserved⟩ := blocked_transfer_moves_every_byte (s := slowSystem) slowDevice
    .read 1 0 8 2 (by decide) (by decide) rfl hguard rfl rfl
  exact ⟨_, new, rfl, heax, hserved⟩

end EchidnaOS.Devfs
