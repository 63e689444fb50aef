import EchidnaOS.Devfs.Iowait.Theorems
import EchidnaOS.Echfs.Handle.Device
import EchidnaOS.Echfs.Handle.ReadBack

namespace EchidnaOS.Vfs

open EchidnaOS.Lib.SlotTable EchidnaOS.Lib.ByteStore EchidnaOS.Lib.Run EchidnaOS.Devfs EchidnaOS.Echfs
  EchidnaOS.Scheduler

def State.changeTask (s : State) (pid : Nat) (change : Task → Task) : State :=
  match s.kernel.taskTable pid with
  | .task address task => { s with kernel := s.kernel.setTask pid address (change task) }
  | _ => s

-- read_isr: a task whose transfer has to go on waits with iowait type 2.
def readIsr (s : State) (pid : Nat) (handle : Int) (ptr : Nat) (len : Int) (answer : Answer) :
    Option State :=
  (vfsUread s pid handle ptr len answer).map fun result =>
    result.2.2.changeTask pid
      (if result.2.1 then awaitIo handle ptr len 2 result.1 else (·.withEax (lowHalf result.1)))

-- What the scheduler does when it gets to a task that waits with iowait type 2.
def retryRead (pid : Nat) (s : State) (answer : Answer) : Option State :=
  match s.kernel.taskTable pid with
  | .task _ task =>
      if task.status = .iowait ∧ task.iowaitType = 2 then
        (vfsUread s pid task.iowaitHandle (task.iowaitPtr + task.iowaitDone).toNat
          (toInt (task.iowaitLen - task.iowaitDone)) answer).map fun result =>
            result.2.2.changeTask pid (if result.2.1 then retryIo result.1 else completeIo result.1)
      else none
  | _ => none

-- The task runs on with the number of the bytes in eax, and has them at `ptr`.
structure Delivered (final : State) (pid ptr : Nat) (bytes : List UInt8) : Prop where
  task : ∃ address task, final.kernel.taskTable pid = .task address task ∧ task.status = .active ∧
    task.cpu.eax = bytes.length
  buffer : loadBytes final.kernel.heap.mem (final.userStart pid ptr) bytes.length = bytes

-- The system call, and then as many visits of the scheduler as it takes. `answers` is what devices
-- would say.
def Completes (s : State) (pid : Nat) (handle : Int) (ptr : Nat) (len : Int) (bytes : List UInt8) : Prop :=
  ∃ answer answers final, (readIsr s pid handle ptr len answer).bind
    (run (retryRead pid) · answers) = some final ∧ Delivered final pid ptr bytes

-- A running task with a descriptor of a file, which is open for `h` on a volume of `m`. Its buffer
-- is taken to lie in its block.
structure ReadsFile (s : State) (pid : Nat) (handle : Int) (m : Mount) (h : OpenFile) (chain : List Nat)
    (p e : Nat) : Prop where
  task : ∃ address task, s.kernel.taskTable pid = .task address task ∧ task.status = .active
  mount : ∃ volume device, s.mountpoint (s.descriptor pid handle).mountpoint = some (.echfs volume device)
  opened : s.openFile (s.descriptor pid handle).internalHandle = some h
  cursor : CursorOk m h.dev h.file chain
  ptr : h.ptr = p
  finish : h.finish = e
  inside : e ≤ h.file.size

variable {s next : State} {pid ptr p e done : Nat} {handle len : Int} {m : Mount} {h : OpenFile}
  {chain : List Nat} {answer : Answer}

theorem storeBytes_outside {mem : Store} {start address : Nat} {bytes : List UInt8}
    (hout : ∀ offset, offset < bytes.length → address ≠ (start + offset) % 2 ^ 32) :
    storeBytes mem start bytes address = mem address := by
  induction bytes generalizing mem start with
  | nil => rfl
  | cons byte rest ih =>
      rw [storeBytes, ih]
      · exact Function.update_of_ne (by simpa using hout 0 (by simp)) _ _
      · intro offset hoffset
        have hne := hout (offset + 1) (by simpa using hoffset)
        rwa [show start + 1 + offset = start + (offset + 1) by ring]

theorem storeBytes_inside {mem : Store} {start offset : Nat} {bytes : List UInt8}
    (hoffset : offset < bytes.length) (hlength : bytes.length ≤ 2 ^ 32) :
    storeBytes mem start bytes ((start + offset) % 2 ^ 32) = bytes[offset] := by
  induction bytes generalizing mem start offset with
  | nil => simp at hoffset
  | cons byte rest ih =>
      rw [List.length_cons] at hlength
      rw [storeBytes]
      cases offset with
      | zero =>
          rw [storeBytes_outside]
          · simp
          · intro offset hlt
            omega
      | succ offset =>
          rw [show start + (offset + 1) = start + 1 + offset by ring]
          exact ih (by simpa using hoffset) (by omega)

-- A buffer that is filled in pieces.
theorem loadBytes_storeBytes {mem : Store} {start count : Nat} {bytes : List UInt8}
    (hlength : count + bytes.length ≤ 2 ^ 32) :
    loadBytes (storeBytes mem (start + count) bytes) start (count + bytes.length) =
      loadBytes mem start count ++ bytes := by
  apply List.ext_getElem
  · simp [loadBytes]
  · intro index hleft hright
    have hindex : index < count + bytes.length := by simpa [loadBytes] using hleft
    rw [List.getElem_append]
    by_cases hold : index < count
    · rw [dif_pos (by simpa [loadBytes] using hold)]
      simp only [loadBytes, List.getElem_map, List.getElem_range]
      apply storeBytes_outside
      intro offset hoffset
      omega
    · rw [dif_neg (by simpa [loadBytes] using hold)]
      simp only [loadBytes, List.getElem_map, List.getElem_range, List.length_map, List.length_range]
      have hplace : start + index = start + count + (index - count) := by omega
      rw [hplace]
      exact storeBytes_inside (by omega) (by omega)

-- A read through a handle of echfs, and the file that the handle is open for afterwards.
theorem echfsUread_opened {internal : Int} (hopen : s.openFile internal = some h) (count : Nat) :
    ∃ later, Vfs.echfsUread s internal count = some ((Echfs.echfsUread h count).1, later) ∧
      later.openFile internal = some (Echfs.echfsUread h count).2 ∧
      later.kernel = s.kernel ∧ later.mountpoint = s.mountpoint ∧ later.stray = s.stray := by
  have hstill := echfsUread_still h count
  obtain ⟨entry, hentry, hfound⟩ := Option.bind_eq_some_iff.mp hopen
  obtain ⟨device, hdevice, hh⟩ := Option.map_eq_some_iff.mp hfound
  refine ⟨s.putFile internal entry device (Echfs.echfsUread h count).2, ?_, ?_, rfl, rfl, rfl⟩
  · rw [Vfs.echfsUread, State.transfer, hentry, Option.bind_some, hdevice, Option.bind_some, hopen,
      Option.bind_some, Option.map_some]
  · obtain ⟨descriptor, hdescriptor⟩ : ∃ descriptor, s.descriptor 0 entry.devHandle = descriptor := ⟨_, rfl⟩
    unfold State.deviceOf at hdevice
    rw [hdescriptor] at hdevice
    dsimp only at hdevice
    split at hdevice
    · rename_i hmount
      obtain ⟨handle, hhandle, rfl⟩ := Option.map_eq_some_iff.mp hdevice
      have hsame : (Echfs.echfsUread h count).2.dev.handle.device = handle.device := by
        have hdev := congrArg DevfsHandle.device hstill
        rw [← hh] at hdev ⊢
        exact hdev
      have hkept : ∀ number, (s.putFile internal entry (descriptor.internalHandle, handle)
          (Echfs.echfsUread h count).2).descriptor 0 number = s.descriptor 0 number := fun _ => rfl
      unfold State.openFile State.deviceOf
      simp only [hkept]
      simp only [State.putFile, entryAt_setAt_self hentry, Option.bind_some, hdescriptor, hmount,
        entryAt_setAt_self hhandle, Option.map_some, hsame, Function.update_self]
      rw [← hh]
      rfl
    · cases hdevice

-- An open file at a position, with the contents that another one has.
structure FileAt (m : Mount) (chain : List Nat) (h after : OpenFile) (p e : Nat) : Prop where
  cursor : CursorOk m after.dev after.file chain
  size : after.file.size = h.file.size
  ptr : after.ptr = p
  finish : after.finish = e
  contents : ∀ pos, pos < h.file.size →
    contents after.dev.disk after.file pos = contents h.dev.disk h.file pos

-- echfs_uread on an open file.
theorem FileAt.read {after : OpenFile} (hat : FileAt m chain h after p e) (hinside : e ≤ h.file.size)
    (len : Nat) :
    (Echfs.echfsUread after len).1 = fileBytes h.dev.disk h.file p (min len (e - p)) ∧
      FileAt m chain h (Echfs.echfsUread after len).2 (p + min len (e - p)) e := by
  have hspec : ReadSpec m e len p after.dev after.file chain (ureadBytes e len after.dev after.file p) :=
    ureadBytes_spec hat.cursor (by rw [hat.size]; omega) len p
  have hcount : min len ((e : Int) - p).toNat = min len (e - p) := by omega
  unfold Echfs.echfsUread
  rw [hat.ptr, hat.finish]
  generalize ureadBytes e len after.dev after.file p = result at hspec
  have hbytes := hspec.bytes
  have hcurLoc := hspec.curLoc
  rw [hcount] at hbytes hcurLoc
  have hcontents := hspec.contents
  rw [hat.size] at hcontents
  refine ⟨?_, hspec.cursor, ?_, hcurLoc.trans (Nat.cast_add _ _).symm, rfl, ?_⟩
  · rw [hbytes]
    apply fileBytes_congr
    intro pos _ hhigh
    exact hat.contents pos (by omega)
  · rw [CachedFile.size, hspec.pathResult]
    exact hat.size
  · intro pos hpos
    rw [hcontents pos hpos, hat.contents pos hpos]

-- What a read keeps of the descriptors, and the file and the buffer after `done` bytes.
structure ReadAt (s next : State) (pid : Nat) (handle : Int) (ptr : Nat) (m : Mount) (h : OpenFile)
    (chain : List Nat) (p e done : Nat) : Prop where
  table : next.table = s.table
  mountpoint : next.mountpoint = s.mountpoint
  stray : next.stray = s.stray
  start : next.userStart pid ptr = s.userStart pid ptr
  le : done ≤ e - p
  opened : ∃ after, next.openFile (s.descriptor pid handle).internalHandle = some after ∧
    FileAt m chain h after (p + done) e
  buffer : loadBytes next.kernel.heap.mem (s.userStart pid ptr) done = fileBytes h.dev.disk h.file p done

-- The open files depend on the descriptors, and on nothing else of the kernel.
theorem kernel_openFile (s : State) {k : Kernel}
    (htable : ∀ pid, Slot.handlesV2 (k.taskTable pid) = Slot.handlesV2 (s.kernel.taskTable pid)) :
    ({ s with kernel := k } : State).table = s.table ∧
      ({ s with kernel := k } : State).openFile = s.openFile := by
  have hsame : ({ s with kernel := k } : State).table = s.table := funext htable
  refine ⟨hsame, ?_⟩
  have hdescriptor : ({ s with kernel := k } : State).descriptor = s.descriptor := by
    funext pid number
    rw [State.descriptor, hsame]
    rfl
  funext internal
  unfold State.openFile State.deviceOf
  simp only [hdescriptor]

theorem ReadsFile.start (hreads : ReadsFile s pid handle m h chain p e) (ptr : Nat) :
    ReadAt s s pid handle ptr m h chain p e 0 where
  table := rfl
  mountpoint := rfl
  stray := rfl
  start := rfl
  le := Nat.zero_le _
  opened := ⟨h, hreads.opened, hreads.cursor, rfl, hreads.ptr, hreads.finish, fun _ _ => rfl⟩
  buffer := rfl

theorem fileBytes_add (disk : Store) (file : CachedFile) (start first second : Nat) :
    fileBytes disk file start (first + second) =
      fileBytes disk file start first ++ fileBytes disk file (start + first) second := by
  rw [fileBytes, fileBytes, fileBytes, ← List.map_append, List.range'_append_1]

theorem fileBytes_length (disk : Store) (file : CachedFile) (start count : Nat) :
    (fileBytes disk file start count).length = count := by
  simp [fileBytes]

-- A call for `rest` bytes more.
theorem ReadAt.call (hat : ReadAt s next pid handle ptr m h chain p e done)
    (hreads : ReadsFile s pid handle m h chain p e) (rest : Int) (answer : Answer) :
    ∃ later, vfsUread next pid handle (ptr + done) rest answer =
        some (((min (chunk rest) (e - (p + done)) : Nat) : Int),
          decide ((MAX_SIMULTANOUS_VFS_ACCESS : Int) < rest), later) ∧
      ReadAt s later pid handle ptr m h chain p e (done + min (chunk rest) (e - (p + done))) ∧
      later.kernel.taskTable = next.kernel.taskTable := by
  obtain ⟨after, hopened, hfile⟩ := hat.opened
  obtain ⟨volume, device, hmount⟩ := hreads.mount
  have hdescriptor : next.descriptor pid handle = s.descriptor pid handle := by
    rw [State.descriptor, hat.table, hat.stray]
    rfl
  have hsmall := hreads.cursor.size_lt
  have hinside := hreads.inside
  have hle := hat.le
  obtain ⟨hbytes, hread⟩ := hfile.read hinside (chunk rest)
  obtain ⟨later, hlater, hlaterOpened, hkernel, hlaterMount, hstray⟩ :=
    echfsUread_opened hopened (chunk rest)
  generalize hcount : min (chunk rest) (e - (p + done)) = count at *
  have hstart : later.userStart pid (ptr + done) = s.userStart pid ptr + done := by
    rw [← hat.start, State.userStart, State.userStart, hkernel]
    omega
  obtain ⟨htable, hopenFile⟩ := @kernel_openFile later { later.kernel with
    heap.mem := storeBytes later.kernel.heap.mem (later.userStart pid (ptr + done))
      (Echfs.echfsUread after (chunk rest)).1 } fun _ => rfl
  refine ⟨later.storeUser pid (ptr + done) (Echfs.echfsUread after (chunk rest)).1, ?_, ?_, ?_⟩
  · unfold vfsUread
    dsimp only
    rw [hdescriptor, hat.mountpoint, hmount]
    dsimp only
    rw [hlater, Option.map_some, hbytes, fileBytes_length]
  · constructor
    · refine htable.trans (Eq.trans ?_ hat.table)
      funext other
      rw [State.table, State.table, hkernel]
    · exact hlaterMount.trans hat.mountpoint
    · exact hstray.trans hat.stray
    · show Slot.base (later.kernel.taskTable pid) + ptr = _
      rw [hkernel]
      exact hat.start
    · omega
    · refine ⟨_, (congrFun hopenFile _).trans hlaterOpened, ?_⟩
      rw [← Nat.add_assoc]
      exact hread
    · show loadBytes (storeBytes later.kernel.heap.mem (later.userStart pid (ptr + done)) _) _ _ = _
      have hlength := fileBytes_length h.dev.disk h.file (p + done) count
      rw [hstart, hbytes, fileBytes_add, ← hat.buffer, hkernel]
      have hload := @loadBytes_storeBytes next.kernel.heap.mem (s.userStart pid ptr) done
        (fileBytes h.dev.disk h.file (p + done) count) (by omega)
      rwa [hlength] at hload
  · show later.kernel.taskTable = _
    rw [hkernel]

theorem changeTask_eq {address : Nat} {task : Task} (hslot : s.kernel.taskTable pid = .task address task)
    (change : Task → Task) :
    s.changeTask pid change = { s with kernel := s.kernel.setTask pid address (change task) } := by
  rw [State.changeTask, hslot]

theorem changeTask_slot {address : Nat} {task : Task} (hslot : s.kernel.taskTable pid = .task address task)
    (change : Task → Task) :
    (s.changeTask pid change).kernel.taskTable pid = .task address (change task) := by
  rw [changeTask_eq hslot]
  exact setTask_same _ _ _ _

-- The state of a wait is no part of what a read works on.
theorem ReadAt.changeTask (hat : ReadAt s next pid handle ptr m h chain p e done) {address : Nat}
    {task : Task} (hslot : next.kernel.taskTable pid = .task address task) {change : Task → Task}
    (hhandles : (change task).handlesV2 = task.handlesV2) (hbase : (change task).base = task.base) :
    ReadAt s (next.changeTask pid change) pid handle ptr m h chain p e done := by
  obtain ⟨after, hopened, hfile⟩ := hat.opened
  have hkept : ∀ other, Slot.handlesV2 ((next.kernel.setTask pid address (change task)).taskTable other) =
      Slot.handlesV2 (next.kernel.taskTable other) := by
    intro other
    by_cases heq : other = pid
    · rw [heq, setTask_same, hslot]
      exact hhandles
    · rw [setTask_other heq]
  obtain ⟨htable, hopenFile⟩ := kernel_openFile next hkept
  rw [changeTask_eq hslot]
  refine ⟨htable.trans hat.table, hat.mountpoint, hat.stray, ?_, hat.le,
    ⟨after, (congrFun hopenFile _).trans hopened, hfile⟩, hat.buffer⟩
  have hstart := hat.start
  rw [State.userStart, hslot] at hstart
  rw [State.userStart, setTask_same, ← hstart]
  exact congrArg (· + ptr) hbase

theorem ReadAt.delivered (hat : ReadAt s next pid handle ptr m h chain p e done) {address : Nat}
    {task : Task} (hslot : next.kernel.taskTable pid = .task address task) (hactive : task.status = .active)
    (heax : task.cpu.eax = done) : Delivered next pid ptr (fileBytes h.dev.disk h.file p done) := by
  refine ⟨⟨address, task, hslot, hactive, by rw [heax, fileBytes_length]⟩, ?_⟩
  rw [fileBytes_length, hat.start]
  exact hat.buffer

-- Between two visits of the scheduler.
structure Waiting (s next : State) (pid : Nat) (handle : Int) (ptr : Nat) (len : Int) (m : Mount)
    (h : OpenFile) (chain : List Nat) (p e done : Nat) : Prop where
  read : ReadAt s next pid handle ptr m h chain p e done
  task : ∃ address task, next.kernel.taskTable pid = .task address task ∧
    Blocked .read handle ptr len done task
  le : (done : Int) ≤ len

theorem chunk_eq (hlen : len ≤ MAX_SIMULTANOUS_VFS_ACCESS) : chunk len = len.toNat := if_pos hlen

theorem chunk_large (hlen : (MAX_SIMULTANOUS_VFS_ACCESS : Int) < len) :
    chunk len = MAX_SIMULTANOUS_VFS_ACCESS := if_neg (by omega)

-- The system call: it returns, or it leaves the task waiting.
theorem ReadsFile.isr (hreads : ReadsFile s pid handle m h chain p e) (hlen : 0 ≤ len) (ptr : Nat)
    (answer : Answer) : ∃ next, readIsr s pid handle ptr len answer = some next ∧
      (len ≤ MAX_SIMULTANOUS_VFS_ACCESS →
        Delivered next pid ptr (fileBytes h.dev.disk h.file p (min len.toNat (e - p)))) ∧
      ((MAX_SIMULTANOUS_VFS_ACCESS : Int) < len → Waiting s next pid handle ptr len m h chain p e
        (min MAX_SIMULTANOUS_VFS_ACCESS (e - p))) := by
  have hsmall := hreads.cursor.size_lt
  have hinside := hreads.inside
  obtain ⟨address, task, hslot, hactive⟩ := hreads.task
  obtain ⟨later, hcall, hread, htable⟩ := (hreads.start ptr).call hreads len answer
  rw [← congrFun htable] at hslot
  rw [Nat.add_zero, Nat.add_zero] at hcall
  rw [Nat.add_zero, Nat.zero_add] at hread
  refine ⟨_, by rw [readIsr, hcall, Option.map_some], ?_, ?_⟩
  · intro hshort
    have hfew : min len.toNat (e - p) < 2 ^ 32 := by omega
    rw [if_neg (by simpa using hshort), chunk_eq hshort]
    rw [chunk_eq hshort] at hread
    refine (hread.changeTask hslot rfl rfl).delivered (changeTask_slot hslot _) hactive ?_
    exact lowHalf_natCast hfew
  · intro hlong
    rw [if_pos (by simpa using hlong), chunk_large hlong]
    rw [chunk_large hlong] at hread
    refine ⟨hread.changeTask hslot rfl rfl, ⟨address, _, changeTask_slot hslot _, ?_⟩, by omega⟩
    exact ⟨rfl, rfl, rfl, rfl, rfl, rfl, by omega⟩

-- A visit of the scheduler: the task runs on, or it goes on waiting.
theorem Waiting.retry (hwait : Waiting s next pid handle ptr len m h chain p e done)
    (hreads : ReadsFile s pid handle m h chain p e) (hmax : len < 2 ^ 31) (answer : Answer) :
    ∃ later, retryRead pid next answer = some later ∧
      (len - done ≤ MAX_SIMULTANOUS_VFS_ACCESS →
        Delivered later pid ptr (fileBytes h.dev.disk h.file p (min len.toNat (e - p)))) ∧
      ((MAX_SIMULTANOUS_VFS_ACCESS : Int) < len - done → Waiting s later pid handle ptr len m h chain p e
        (done + min MAX_SIMULTANOUS_VFS_ACCESS (e - (p + done)))) := by
  have hsmall := hreads.cursor.size_lt
  have hinside := hreads.inside
  have hdone := hwait.read.le
  have hle := hwait.le
  obtain ⟨address, task, hslot, hblocked⟩ := hwait.task
  have hrest : toInt (task.iowaitLen - task.iowaitDone) = len - done := by
    have hnat : len - done = ((len - done).toNat : Nat) := by omega
    rw [hblocked.iowaitLen, hblocked.iowaitDone, hnat]
    exact toInt_small (by omega)
  have hptr : (task.iowaitPtr + task.iowaitDone).toNat = ptr + done := by
    rw [hblocked.iowaitPtr, hblocked.iowaitDone]
    omega
  obtain ⟨later, hcall, hread, htable⟩ := hwait.read.call hreads (len - done) answer
  have hvisit : retryRead pid next answer = some (later.changeTask pid
      (if decide ((MAX_SIMULTANOUS_VFS_ACCESS : Int) < len - done) = true
        then retryIo (min (chunk (len - done)) (e - (p + done)) : Nat)
        else completeIo (min (chunk (len - done)) (e - (p + done)) : Nat))) := by
    rw [retryRead, hslot]
    dsimp only
    rw [if_pos ⟨hblocked.status, hblocked.iowaitType⟩, hrest, hptr, hblocked.iowaitHandle, hcall,
      Option.map_some]
  rw [← congrFun htable] at hslot
  refine ⟨_, hvisit, ?_, ?_⟩
  · intro hshort
    rw [if_neg (by simpa using hshort)]
    rw [chunk_eq hshort] at hread ⊢
    have hfew : done + min (len - done).toNat (e - (p + done)) < 2 ^ 31 := by omega
    obtain ⟨hactive, heax⟩ := hblocked.complete hfew
    have hcount : done + min (len - done).toNat (e - (p + done)) = min len.toNat (e - p) := by omega
    rw [hcount] at hread heax
    refine (hread.changeTask hslot (completeIo_handlesV2 _ _) ?_).delivered (changeTask_slot hslot _)
      hactive heax
    unfold completeIo
    split <;> rfl
  · intro hlong
    rw [if_pos (by simpa using hlong)]
    rw [chunk_large hlong] at hread ⊢
    refine ⟨hread.changeTask hslot (retryIo_handlesV2 _ _) ?_, ⟨address, _, changeTask_slot hslot _, ?_⟩, ?_⟩
    · unfold retryIo
      split <;> rfl
    · exact hblocked.retry (by omega)
    · omega

-- Each visit moves bytes as long as the file has some left for the buffer.
theorem Waiting.completes (hwait : Waiting s next pid handle ptr len m h chain p e done)
    (hreads : ReadsFile s pid handle m h chain p e) (hmax : len < 2 ^ 31)
    (hroom : len ≤ MAX_SIMULTANOUS_VFS_ACCESS + (e - p : Nat)) :
    ∃ answers final, run (retryRead pid) next answers = some final ∧
      Delivered final pid ptr (fileBytes h.dev.disk h.file p (min len.toNat (e - p))) := by
  generalize hrest : len.toNat - done = rest
  induction rest using Nat.strong_induction_on generalizing next done with
  | h rest ih =>
      obtain ⟨later, hvisit, hlast, hagain⟩ := hwait.retry hreads hmax ⟨0, false⟩
      by_cases hlong : (MAX_SIMULTANOUS_VFS_ACCESS : Int) < len - done
      · have hlater := hagain hlong
        have hmoved : 0 < min MAX_SIMULTANOUS_VFS_ACCESS (e - (p + done)) := by
          simp only [MAX_SIMULTANOUS_VFS_ACCESS] at *
          omega
        obtain ⟨answers, final, hrun, hdelivered⟩ := ih _ (by omega) hlater rfl
        exact ⟨⟨0, false⟩ :: answers, final, by rw [run, hvisit, Option.bind_some, hrun], hdelivered⟩
      · exact ⟨[⟨0, false⟩], later, by rw [run, hvisit, Option.bind_some, run], hlast (by omega)⟩

-- No visit ends the wait when the buffer is more than one chunk larger than what is left of the file.
theorem Waiting.stays (hwait : Waiting s next pid handle ptr len m h chain p e done)
    (hreads : ReadsFile s pid handle m h chain p e) (hmax : len < 2 ^ 31)
    (hlarge : (MAX_SIMULTANOUS_VFS_ACCESS : Int) + (e - p : Nat) < len) {answers : List Answer}
    {final : State} (hrun : run (retryRead pid) next answers = some final) :
    ∃ total, Waiting s final pid handle ptr len m h chain p e total := by
  have hstep : ∀ state answer later,
      (∃ total, Waiting s state pid handle ptr len m h chain p e total) →
      retryRead pid state answer = some later →
      ∃ total, Waiting s later pid handle ptr len m h chain p e total := by
    rintro state answer later ⟨total, hstate⟩ hvisit
    obtain ⟨after, hafter, -, hagain⟩ := hstate.retry hreads hmax answer
    cases hvisit.symm.trans hafter
    have hle := hstate.read.le
    exact ⟨_, hagain (by omega)⟩
  exact run_always hstep ⟨done, hwait⟩ hrun

theorem ReadsFile.never_completes (hreads : ReadsFile s pid handle m h chain p e) (hlen : 0 ≤ len)
    (hmax : len < 2 ^ 31) (hlarge : (MAX_SIMULTANOUS_VFS_ACCESS : Int) + (e - p : Nat) < len) (ptr : Nat)
    (bytes : List UInt8) : ¬ Completes s pid handle ptr len bytes := by
  rintro ⟨answer, answers, final, hruns, hdelivered⟩
  obtain ⟨next, hisr, hruns⟩ := Option.bind_eq_some_iff.mp hruns
  obtain ⟨first, hfirst, -, hwaits⟩ := hreads.isr hlen ptr answer
  cases hisr.symm.trans hfirst
  obtain ⟨total, hwait⟩ := (hwaits (by omega)).stays hreads hmax hlarge hruns
  obtain ⟨address, task, hslot, hblocked⟩ := hwait.task
  obtain ⟨address', task', hslot', hactive, -⟩ := hdelivered.task
  rw [hslot] at hslot'
  cases hslot'
  have hstatus := hblocked.status
  rw [hactive] at hstatus
  cases hstatus

-- A blocking read of a file comes to its end exactly when its buffer is at most one chunk larger
-- than what is left of the file. It has the bytes from the position on then, and their number.
theorem blocking_read_completes_iff (hreads : ReadsFile s pid handle m h chain p e) (hlen : 0 ≤ len)
    (hmax : len < 2 ^ 31) (ptr : Nat) :
    Completes s pid handle ptr len (fileBytes h.dev.disk h.file p (min len.toNat (e - p))) ↔
      len ≤ MAX_SIMULTANOUS_VFS_ACCESS + (e - p : Nat) := by
  constructor
  · intro hcompletes
    by_contra hlarge
    exact hreads.never_completes hlen hmax (by omega) ptr _ hcompletes
  · intro hroom
    obtain ⟨next, hisr, hreturns, hwaits⟩ := hreads.isr hlen ptr ⟨0, false⟩
    by_cases hlong : (MAX_SIMULTANOUS_VFS_ACCESS : Int) < len
    · obtain ⟨answers, final, hrun, hdelivered⟩ := (hwaits hlong).completes hreads hmax hroom
      exact ⟨⟨0, false⟩, answers, final, by rw [hisr, Option.bind_some, hrun], hdelivered⟩
    · exact ⟨⟨0, false⟩, [], next, by rw [hisr, Option.bind_some, run], hreturns (by omega)⟩

-- Task 1 has a descriptor of the file that is open for `h`, on the volume of the first device.
def readerState (h : OpenFile) : State where
  kernel :=
    { heap := emptyHeap
      taskTable := fun pid =>
        if pid = 0 then .task 0x10000 { status := .res, handlesV2 := [{}] }
        else if pid = 1 then .task 0x20000 { base := 0x30000, handlesV2 := [{ mountpoint := 1 }] } else .null
      others := fun _ => 0 }
  mountpoint index := if index = 0 then some .devfs else if index = 1 then some (.echfs smallMount 0) else none
  devMountpoint := 0
  devices := [{ name := [104], size := storedSize }]
  disks _ := h.dev.disk
  devfsHandles := [h.dev.handle]
  echfsHandles := [{ path := pathA, flags := h.flags, ptr := h.ptr, begin := h.begin, finish := h.finish
                     mount := smallMount }]
  record _ := h.file

-- The file /a of three bytes.
theorem stored_reads : ∃ h chain, openFile { disk := storedDisk } smallMount pathA O_RDWR storedSize = some h ∧
    ReadsFile (readerState h) 1 0 smallMount h chain 0 3 := by
  obtain ⟨h, hopen, -, hptr, -, hfinish⟩ := storedDisk_opens O_RDWR (by decide)
  have hhandle := storedDisk_existing.opened (Nat.le_refl _) (by decide) hopen
  obtain ⟨chain, hcursor⟩ := hhandle.cursor
  have hinside := hhandle.finish_le
  exact ⟨h, chain, hopen, ⟨_, _, rfl, rfl⟩, ⟨_, _, rfl⟩, rfl, hcursor, hptr, hfinish, by omega⟩

theorem blocking_read_at_end : ∃ h chain,
    openFile { disk := storedDisk } smallMount pathA O_RDWR storedSize = some h ∧
      ReadsFile (readerState h) 1 0 smallMount h chain 0 3 ∧
      Completes (readerState h) 1 0 0x8000 4099 (fileBytes h.dev.disk h.file 0 3) := by
  obtain ⟨h, chain, hopen, hreads⟩ := stored_reads
  exact ⟨h, chain, hopen, hreads,
    (blocking_read_completes_iff hreads (by decide) (by decide) 0x8000).mpr (by decide)⟩

-- One byte more, and the task waits for ever.
theorem blocking_read_hangs : ∃ h chain,
    openFile { disk := storedDisk } smallMount pathA O_RDWR storedSize = some h ∧
      ReadsFile (readerState h) 1 0 smallMount h chain 0 3 ∧
      ¬ Completes (readerState h) 1 0 0x8000 4100 (fileBytes h.dev.disk h.file 0 3) := by
  obtain ⟨h, chain, hopen, hreads⟩ := stored_reads
  exact ⟨h, chain, hopen, hreads, hreads.never_completes (by decide) (by decide) (by decide) 0x8000 _⟩

end EchidnaOS.Vfs
