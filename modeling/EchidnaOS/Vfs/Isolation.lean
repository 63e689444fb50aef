import EchidnaOS.Vfs.Attached

namespace EchidnaOS.Vfs

open EchidnaOS.Lib.SlotTable EchidnaOS.Lib.Run EchidnaOS.Devfs EchidnaOS.Echfs

variable {s next : State} {pid : Nat} {number : Int} {node : Node}

-- The descriptor number that a call other than open and close goes through, and whether the
-- call moves bytes.
def Call.through : Call → Option (Int × Bool)
  | .uread handle _ _ _ => some (handle, true)
  | .uwrite handle _ _ _ => some (handle, true)
  | .seek handle _ _ => some (handle, false)
  | .openPath _ _ _ => none
  | .close _ => none

-- The handles such a call works on, whether they are in use or not.
def State.reaches (s : State) (bytes : Bool) (descriptor : FileHandleV2) : List Node :=
  match s.mountpoint descriptor.mountpoint with
  | none => []
  | some .devfs => [.devfs descriptor.internalHandle]
  | some (.echfs _ _) =>
      let device := (entryAt s.echfsHandles descriptor.internalHandle).bind s.deviceOf
      .echfs descriptor.internalHandle ::
        if bytes then (device.map fun device => Node.devfs device.1).toList else []

def SameHandle (s next : State) : Node → Prop
  | .descriptor _ _ => True
  | .devfs handle => entryAt next.devfsHandles handle = entryAt s.devfsHandles handle
  | .echfs handle => entryAt next.echfsHandles handle = entryAt s.echfsHandles handle

-- The handles among `nodes` may move, and all stay in use or free.
structure Moves (s next : State) (nodes : List Node) : Prop where
  same : SameNodes s next
  others : ∀ node, node ∉ nodes → SameHandle s next node

theorem Moves.refl (s : State) (nodes : List Node) : Moves s s nodes := by
  refine ⟨⟨.refl s, rfl⟩, ?_⟩
  intro node _
  cases node <;> trivial

theorem still_free {old new : DevfsHandle} (hstill : new.still = old.still) : new.free = old.free := by
  have hfree := congrArg DevfsHandle.free hstill
  exact hfree

-- The handle of a device gets another position.
theorem moveDevice {handle : Int} {old new : DevfsHandle}
    (hentry : entryAt s.devfsHandles handle = some old) (hstill : new.still = old.still)
    (hsystem : SameSystem s next) (htable : next.table = s.table)
    (hdevfs : next.devfsHandles = setAt s.devfsHandles handle new)
    (hechfs : next.echfsHandles = s.echfsHandles) : Moves s next [.devfs handle] := by
  have hmap : ∀ other, (inUse (·.free) (setAt s.devfsHandles handle new) other).map
      (fun _ => (none : Option Node)) = _ :=
    inUse_setAt_map _ hentry (still_free hstill) rfl
  refine ⟨⟨hsystem, ?_⟩, ?_⟩
  · funext node
    cases node with
    | descriptor pid number =>
        rw [State.refers, State.refers, htable, internal_congr hsystem.mountpoint]
    | echfs number => rw [State.refers, State.refers, hechfs]
    | devfs number =>
        rw [State.refers, State.refers, hdevfs]
        exact hmap number
  · intro node hout
    cases node with
    | descriptor pid number => trivial
    | echfs number =>
        show entryAt next.echfsHandles number = _
        rw [hechfs]
    | devfs number =>
        show entryAt next.devfsHandles number = _
        rw [hdevfs]
        exact entryAt_setAt_ne (by simpa using hout) new

theorem moveFile {handle : Int} {old new : EchfsHandle}
    (hentry : entryAt s.echfsHandles handle = some old) (hfree : new.free = old.free)
    (hdevice : new.devHandle = old.devHandle) (hsystem : SameSystem s next)
    (htable : next.table = s.table) (hdevfs : next.devfsHandles = s.devfsHandles)
    (hechfs : next.echfsHandles = setAt s.echfsHandles handle new) : Moves s next [.echfs handle] := by
  have hmap : ∀ other, (inUse (·.free) (setAt s.echfsHandles handle new) other).map
      (fun entry : EchfsHandle => some (Node.descriptor 0 entry.devHandle)) = _ :=
    inUse_setAt_map _ hentry hfree (by rw [hdevice])
  refine ⟨⟨hsystem, ?_⟩, ?_⟩
  · funext node
    cases node with
    | descriptor pid number =>
        rw [State.refers, State.refers, htable, internal_congr hsystem.mountpoint]
    | devfs number => rw [State.refers, State.refers, hdevfs]
    | echfs number =>
        rw [State.refers, State.refers, hechfs]
        exact hmap number
  · intro node hout
    cases node with
    | descriptor pid number => trivial
    | devfs number =>
        show entryAt next.devfsHandles number = _
        rw [hdevfs]
    | echfs number =>
        show entryAt next.echfsHandles number = _
        rw [hechfs]
        exact entryAt_setAt_ne (by simpa using hout) new

theorem Moves.trans {middle : State} {first second : List Node} (hfirst : Moves s middle first)
    (hsecond : Moves middle next second) : Moves s next (first ++ second) := by
  refine ⟨hfirst.same.trans hsecond.same, ?_⟩
  intro node hout
  rw [List.mem_append, not_or] at hout
  have hleft := hfirst.others node hout.1
  have hright := hsecond.others node hout.2
  cases node with
  | descriptor pid number => trivial
  | devfs number => exact Eq.trans hright hleft
  | echfs number => exact Eq.trans hright hleft

theorem Quiet.moves (hquiet : Quiet s next) (nodes : List Node) : Moves s next nodes := by
  refine ⟨hquiet.nodes, ?_⟩
  intro node _
  cases node with
  | descriptor pid number => trivial
  | devfs number =>
      show entryAt next.devfsHandles number = _
      rw [hquiet.devfsHandles]
  | echfs number =>
      show entryAt next.echfsHandles number = _
      rw [hquiet.echfsHandles]

theorem deviceOf_entry {entry : EchfsHandle} {device : Int × DevfsHandle}
    (hdevice : s.deviceOf entry = some device) : entryAt s.devfsHandles device.1 = some device.2 := by
  unfold State.deviceOf at hdevice
  dsimp only at hdevice
  split at hdevice
  · obtain ⟨handle, hhandle, rfl⟩ := Option.map_eq_some_iff.mp hdevice
    exact hhandle
  · cases hdevice

-- A transfer through a handle of echfs moves that handle and the one of its device.
theorem transfer_moves {α : Type} {handle : Int} {call : Mount → OpenFile → Option (α × OpenFile)}
    (hcall : ∀ m h result, call m h = some result → result.2.dev.handle.still = h.dev.handle.still)
    {result : α × State} (hresult : s.transfer handle call = some result) :
    Moves s result.2 (.echfs handle ::
      (((entryAt s.echfsHandles handle).bind s.deviceOf).map fun device => Node.devfs device.1).toList) := by
  obtain ⟨entry, hentry, hrest⟩ := Option.bind_eq_some_iff.mp hresult
  obtain ⟨device, hdevice, hrest⟩ := Option.bind_eq_some_iff.mp hrest
  obtain ⟨h, hopen, hrest⟩ := Option.bind_eq_some_iff.mp hrest
  obtain ⟨moved, hmoved, rfl⟩ := Option.map_eq_some_iff.mp hrest
  have hstill : moved.2.dev.handle.still = device.2.still := by
    rw [hcall _ _ _ hmoved]
    rw [State.openFile, hentry, Option.bind_some, hdevice, Option.map_some] at hopen
    cases hopen
    rfl
  rw [hentry, Option.bind_some, hdevice]
  have hfile : Moves s { s with
      echfsHandles := setAt s.echfsHandles handle { entry with ptr := moved.2.ptr } } [.echfs handle] :=
    moveFile hentry (show ({ entry with ptr := moved.2.ptr } : EchfsHandle).free = entry.free from rfl)
      rfl ⟨fun _ => rfl, rfl, rfl⟩ rfl rfl rfl
  exact hfile.trans
    (moveDevice (deviceOf_entry hdevice) hstill ⟨fun _ => rfl, rfl, rfl⟩ rfl rfl rfl)

theorem storeUser_quiet (s : State) (pid ptr : Nat) (bytes : List UInt8) :
    Quiet s (s.storeUser pid ptr bytes) :=
  ⟨rfl, rfl, rfl, rfl, rfl⟩

theorem Moves.quiet {middle : State} {nodes : List Node} (hmoves : Moves s middle nodes)
    (hquiet : Quiet middle next) : Moves s next nodes := by
  have hboth := hmoves.trans (hquiet.moves [])
  rw [List.append_nil] at hboth
  exact hboth

theorem vfsUread_moves {ptr : Nat} {len : Int} {answer : Answer} {result : Int × Bool × State}
    (hresult : vfsUread s pid number ptr len answer = some result) :
    Moves s result.2.2 (s.reaches true (s.descriptor pid number)) := by
  unfold vfsUread at hresult
  unfold State.reaches
  dsimp only at hresult ⊢
  cases hmount : s.mountpoint (s.descriptor pid number).mountpoint with
  | none =>
      rw [hmount] at hresult
      cases hresult
  | some there =>
      rw [hmount] at hresult
      cases there with
      | devfs =>
          obtain ⟨entry, hentry, rfl⟩ := Option.map_eq_some_iff.mp hresult
          refine Moves.quiet ?_ (storeUser_quiet _ _ _ _)
          exact moveDevice hentry (DevfsHandle.still_advance _ _) ⟨fun _ => rfl, rfl, rfl⟩ rfl rfl rfl
      | echfs m device =>
          obtain ⟨read, hread, rfl⟩ := Option.map_eq_some_iff.mp hresult
          refine Moves.quiet ?_ (storeUser_quiet _ _ _ _)
          refine transfer_moves ?_ hread
          intro m h result hcall
          cases hcall
          exact echfsUread_still h _

theorem echfsUwrite_moves {handle : Int} {data : List UInt8} {result : Nat × State}
    (hresult : echfsUwrite s handle data = some result) :
    Moves s result.2 (.echfs handle ::
      (((entryAt s.echfsHandles handle).bind s.deviceOf).map fun device => Node.devfs device.1).toList) := by
  unfold echfsUwrite at hresult
  refine transfer_moves ?_ hresult
  intro m h result hcall
  exact echfsUwrite_still hcall

theorem vfsUwrite_moves {ptr : Nat} {len : Int} {answer : Answer} {result : Int × Bool × State}
    (hresult : vfsUwrite s pid number ptr len answer = some result) :
    Moves s result.2.2 (s.reaches true (s.descriptor pid number)) := by
  unfold vfsUwrite at hresult
  unfold State.reaches
  dsimp only at hresult ⊢
  cases hmount : s.mountpoint (s.descriptor pid number).mountpoint with
  | none =>
      rw [hmount] at hresult
      cases hresult
  | some there =>
      rw [hmount] at hresult
      cases there with
      | devfs =>
          obtain ⟨entry, hentry, rfl⟩ := Option.map_eq_some_iff.mp hresult
          exact moveDevice hentry (DevfsHandle.still_advance _ _) ⟨fun _ => rfl, rfl, rfl⟩ rfl rfl rfl
      | echfs m device =>
          obtain ⟨written, hwritten, rfl⟩ := Option.map_eq_some_iff.mp hresult
          exact echfsUwrite_moves hwritten

theorem EchfsHandle.seek_kept (entry : EchfsHandle) (offset : Int) (type : Whence) :
    (entry.seek offset type).2.free = entry.free ∧
      (entry.seek offset type).2.devHandle = entry.devHandle := by
  have hseek : ∀ target, (entry.seekTo target).2.free = entry.free ∧
      (entry.seekTo target).2.devHandle = entry.devHandle := by
    intro target
    unfold EchfsHandle.seekTo
    split <;> exact ⟨rfl, rfl⟩
  unfold EchfsHandle.seek
  split
  · exact ⟨rfl, rfl⟩
  · cases type <;> first | exact hseek _ | exact ⟨rfl, rfl⟩

theorem vfsSeek_moves {offset : Int} {type : Whence} {result : Int × State}
    (hresult : vfsSeek s pid number offset type = some result) :
    Moves s result.2 (s.reaches false (s.descriptor pid number)) := by
  unfold vfsSeek at hresult
  unfold State.reaches
  dsimp only at hresult ⊢
  cases hmount : s.mountpoint (s.descriptor pid number).mountpoint with
  | none =>
      rw [hmount] at hresult
      cases hresult
  | some there =>
      rw [hmount] at hresult
      cases there with
      | devfs =>
          dsimp only at hresult
          split at hresult
          · cases hresult
            exact .refl s _
          · rename_i entry hentry
            cases hresult
            exact moveDevice hentry (devfsSeek_still _ _ _) ⟨fun _ => rfl, rfl, rfl⟩ rfl rfl rfl
      | echfs m device =>
          cases hresult
          unfold echfsSeek
          split
          · exact .refl s _
          · rename_i entry hentry
            obtain ⟨hfree, hdevice⟩ := EchfsHandle.seek_kept entry offset type
            exact moveFile hentry hfree hdevice ⟨fun _ => rfl, rfl, rfl⟩ rfl rfl rfl

-- A task closes what it has open.
def ClosesOpen (s : State) (action : Action) : Prop :=
  ∀ handle, action.call = .close handle → s.refers (.descriptor action.pid handle) ≠ none

-- A read, a write or a seek moves at most the handles that its descriptor leads to, and no handle
-- comes into use or becomes free.
theorem step_moves {action : Action} {bytes : Bool}
    (hthrough : action.call.through = some (number, bytes)) (hstep : step s action = some next) :
    Moves s next (s.reaches bytes (s.descriptor action.pid number)) := by
  unfold step at hstep
  split at hstep
  · cases hcall : action.call with
    | openPath mountpoint path flags =>
        rw [hcall] at hthrough
        cases hthrough
    | close handle =>
        rw [hcall] at hthrough
        cases hthrough
    | uread handle ptr len answer =>
        rw [hcall] at hthrough hstep
        cases hthrough
        obtain ⟨result, hresult, rfl⟩ := Option.map_eq_some_iff.mp hstep
        exact vfsUread_moves hresult
    | uwrite handle ptr len answer =>
        rw [hcall] at hthrough hstep
        cases hthrough
        obtain ⟨result, hresult, rfl⟩ := Option.map_eq_some_iff.mp hstep
        exact vfsUwrite_moves hresult
    | seek handle offset type =>
        rw [hcall] at hthrough hstep
        cases hthrough
        obtain ⟨result, hresult, rfl⟩ := Option.map_eq_some_iff.mp hstep
        exact vfsSeek_moves hresult
  · cases hstep

-- Whichever task makes the next call, no two open descriptors come to share a handle.
theorem Attached.kept {action : Action} (hattached : Attached s) (hcloses : ClosesOpen s action)
    (hstep : step s action = some next) : Attached next := by
  obtain ⟨hactive, hmade⟩ := Option.ite_none_right_eq_some.mp hstep
  obtain ⟨hpid, hstatus⟩ := isActive_user hattached hactive
  cases hcall : action.call with
  | openPath mountpoint path flags =>
      rw [hcall] at hmade
      obtain ⟨result, hresult, rfl⟩ := Option.map_eq_some_iff.mp hmade
      exact hattached.vfsOpen hstatus hresult
  | close handle =>
      rw [hcall] at hmade
      obtain ⟨result, hresult, rfl⟩ := Option.map_eq_some_iff.mp hmade
      exact hattached.vfsClose hpid (hcloses handle hcall) hresult
  | uread handle ptr len answer | uwrite handle ptr len answer | seek handle offset type =>
      have hmoves := step_moves (congrArg Call.through hcall) hstep
      exact hmoves.same.attached hattached

theorem Attached.throughout {actions : List Action} (hattached : Attached s)
    (hcloses : Guarded step ClosesOpen s actions) : Throughout step Attached s actions :=
  hcloses.throughout (fun _ _ _ hattached hcloses hstep => hattached.kept hcloses hstep) hattached

end EchidnaOS.Vfs
