import EchidnaOS.Vfs.Isolation

namespace EchidnaOS.Vfs

open EchidnaOS.Lib.SlotTable EchidnaOS.Lib.Reference EchidnaOS.Lib.Run EchidnaOS.Klib EchidnaOS.Devfs
open EchidnaOS.Echfs

-- The handles behind the open descriptors of a task: those that it reads and writes through.
def State.holds (s : State) (pid : Nat) (node : Node) : Prop :=
  ∃ number, s.refers (.descriptor pid number) ≠ none ∧ node ∈ s.reaches true (s.descriptor pid number)

-- What a closed descriptor still leads to is free, or belongs to the task by another descriptor.
def FreeOrOwn (s : State) (action : Action) : Prop :=
  ∀ number bytes, action.call.through = some (number, bytes) →
    s.refers (.descriptor action.pid number) = none →
      ∀ node ∈ s.reaches bytes (s.descriptor action.pid number),
        s.refers node = none ∨ s.holds action.pid node

-- `cached_file` of a handle is a slot of `cached_files`. The krealloc for the next file that is not
-- cached moves the array, and the address that the handle keeps is then one of freed memory, where
-- the handles of other tasks may lie; here it leads to a record of its own.
def ThroughTable (s : State) (action : Action) : Prop :=
  ∀ number m device entry, action.call.through = some (number, true) →
    s.mountpoint (s.descriptor action.pid number).mountpoint = some (.echfs m device) →
    entryAt s.echfsHandles (s.descriptor action.pid number).internalHandle = some entry →
      s.cachedFiles ≠ 0 ∧
        ∃ index, index < s.cachedFilesPtr ∧ entry.cachedFile = slotAddress s.cachedFiles index

-- An open that neither takes a file out of `cached_files`, which frees the array, nor gets no room
-- for another one.
def KeepsTable (s : State) (action : Action) : Prop :=
  ∀ mountpoint path flags m device, action.call = .openPath mountpoint path flags →
    s.mountpoint mountpoint = some (.echfs m device) →
      match s.findCached path with
      | some _ => flags &&& O_TRUNC ≠ 0 →
          ∀ found, s.findOrCreate m device path flags ≠ some (some found)
      | none => (krealloc s.kernel.heap s.cachedFiles
          (SIZEOF_CACHED_FILE * (s.cachedFilesPtr + 1) % 2 ^ 32)).1 ≠ 0

-- The bytes that are read go into the block of the caller: the pointer is not checked.
def StoresInside (s : State) (action : Action) : Prop :=
  ∀ handle ptr len answer, action.call = .uread handle ptr len answer →
    ∀ address task, s.kernel.taskTable action.pid = .task address task →
      ptr + chunk len ≤ task.pages * PAGE_SIZE

-- A call that uses what is its task's own, and writes nowhere else.
structure UsesOwn (s : State) (action : Action) : Prop where
  handles : FreeOrOwn s action
  through : ThroughTable s action
  table : KeepsTable s action
  memory : StoresInside s action

variable {s next : State} {pid other : Nat} {number : Int} {node : Node}

-- The way from an open descriptor to a handle that it holds: one step, or three for the device
-- behind a handle of echfs.
theorem Attached.held (hattached : Attached s) (hopen : s.refers (.descriptor pid number) ≠ none)
    (hnode : node ∈ s.reaches true (s.descriptor pid number)) :
    s.refers (.descriptor pid number) = some (some node) ∨
      ∃ handle device, s.refers (.descriptor pid number) = some (some (.echfs handle)) ∧
        s.refers (.echfs handle) = some (some (.descriptor 0 device)) ∧
        s.refers (.descriptor 0 device) = some (some node) := by
  have hrefers := descriptor_of_open hopen
  rw [State.internal] at hrefers
  unfold State.reaches at hnode
  cases hmount : s.mountpoint (s.descriptor pid number).mountpoint with
  | none =>
      rw [hmount] at hnode
      cases hnode
  | some there =>
      rw [hmount] at hnode hrefers
      cases there with
      | devfs =>
          left
          rw [List.mem_singleton.mp hnode]
          exact hrefers
      | echfs m volume =>
          rcases List.mem_cons.mp hnode with rfl | hdevice
          · exact Or.inl hrefers
          · rw [if_pos rfl, Option.mem_toList] at hdevice
            obtain ⟨device, hfound, rfl⟩ := Option.map_eq_some_iff.mp hdevice
            obtain ⟨entry, hentry, hdeviceOf⟩ := Option.bind_eq_some_iff.mp hfound
            right
            -- the handle is in use, so its device is an open descriptor of the kernel
            obtain ⟨target, htarget⟩ := Option.ne_none_iff_exists'.mp
              (hattached.chained.exclusive.present _ _ hrefers)
            obtain ⟨used, hused, hkernel⟩ := Option.map_eq_some_iff.mp htarget
            obtain ⟨hat, -⟩ := inUse_eq_some.mp hused
            obtain rfl : used = entry := Option.some.inj (hat.symm.trans hentry)
            rw [← hkernel] at htarget
            obtain ⟨handle, hdev⟩ := hattached.chained.devices _ _ htarget
            refine ⟨_, used.devHandle, hrefers, htarget, ?_⟩
            have hopen : s.refers (.descriptor 0 used.devHandle) ≠ none := by simp [hdev]
            have hinternal := descriptor_of_open hopen
            rw [hinternal, State.internal]
            unfold State.deviceOf at hdeviceOf
            dsimp only at hdeviceOf
            split at hdeviceOf
            · rename_i hdevfs
              obtain ⟨found, -, rfl⟩ := Option.map_eq_some_iff.mp hdeviceOf
              rw [hdevfs]
              rfl
            · cases hdeviceOf

-- The two guards on concrete runs of calls on devices.
def closesOpen (s : State) (action : Action) : Bool :=
  match action.call with
  | .close handle => (s.refers (.descriptor action.pid handle)).isSome
  | _ => true

def Mountpoint.isDevfs : Mountpoint → Bool
  | .devfs => true
  | .echfs _ _ => false

def storesInside (s : State) (action : Action) : Bool :=
  match action.call, s.kernel.taskTable action.pid with
  | .uread _ ptr len _, .task _ task => ptr + chunk len ≤ task.pages * PAGE_SIZE
  | _, _ => true

def onDevice (s : State) (action : Action) : Bool :=
  match action.call with
  | .openPath mountpoint _ _ => (s.mountpoint mountpoint).all Mountpoint.isDevfs
  | _ => action.call.through.all fun through =>
      (s.refers (.descriptor action.pid through.1)).isSome &&
        (s.mountpoint (s.descriptor action.pid through.1).mountpoint).all Mountpoint.isDevfs

theorem ClosesOpen.of_bool {action : Action} (hopen : closesOpen s action = true) : ClosesOpen s action := by
  intro handle hclose hnone
  rw [closesOpen, hclose] at hopen
  simp [hnone] at hopen

theorem StoresInside.of_bool {action : Action} (hstores : storesInside s action = true) :
    StoresInside s action := by
  intro handle ptr len answer hcall address task hslot
  rw [storesInside, hcall, hslot] at hstores
  exact of_decide_eq_true hstores

-- Behind a descriptor that is open and leads to a device there is no cached file.
theorem UsesOwn.of_bool {action : Action}
    (hown : (onDevice s action && storesInside s action) = true) : UsesOwn s action := by
  obtain ⟨hdevice, hstores⟩ := Bool.and_eq_true_iff.mp hown
  have hthrough : ∀ number bytes, action.call.through = some (number, bytes) →
      s.refers (.descriptor action.pid number) ≠ none ∧
        ∀ m device, s.mountpoint (s.descriptor action.pid number).mountpoint ≠ some (.echfs m device) := by
    intro number bytes hthrough
    have hboth : ((s.refers (.descriptor action.pid number)).isSome &&
        (s.mountpoint (s.descriptor action.pid number).mountpoint).all Mountpoint.isDevfs) = true := by
      unfold onDevice at hdevice
      split at hdevice
      · rename_i hcall
        rw [hcall] at hthrough
        cases hthrough
      · rw [hthrough] at hdevice
        exact hdevice
    obtain ⟨hopen, hdevfs⟩ := Bool.and_eq_true_iff.mp hboth
    refine ⟨Option.isSome_iff_ne_none.mp hopen, ?_⟩
    intro m device hmount
    rw [hmount] at hdevfs
    cases hdevfs
  constructor
  · intro number bytes hcall hnone
    exact absurd hnone (hthrough number bytes hcall).1
  · intro number m device entry hcall hmount
    exact absurd hmount ((hthrough number true hcall).2 m device)
  · intro mountpoint path flags m device hcall hmount
    rw [onDevice, hcall] at hdevice
    dsimp only at hdevice
    rw [hmount] at hdevice
    cases hdevice
  · exact .of_bool hstores

end EchidnaOS.Vfs
