import EchidnaOS.Vfs.Calls
import EchidnaOS.Echfs.Directory.Ids
import EchidnaOS.Lib.Run

namespace EchidnaOS.Vfs

open EchidnaOS.Lib.SlotTable EchidnaOS.Lib.Run EchidnaOS.Devfs EchidnaOS.Echfs

variable {s next : State} {pid : Nat} {handle : Int}

-- The number is out of range, or its slot is free.
def NotOpen (s : State) (pid : Nat) (handle : Int) : Prop :=
  handle < 0 ∨ (s.table pid).length ≤ handle ∨
    (entryAt (s.table pid) handle).any (·.free) = true

instance decidableNotOpen (s : State) (pid : Nat) (handle : Int) : Decidable (NotOpen s pid handle) :=
  inferInstanceAs (Decidable (handle < 0 ∨ (s.table pid).length ≤ handle ∨
    (entryAt (s.table pid) handle).any (·.free) = true))

structure SameHandles (s next : State) : Prop where
  tables : next.table = s.table
  devfsHandles : next.devfsHandles = s.devfsHandles
  echfsHandles : next.echfsHandles = s.echfsHandles

-- The record names a file system, and an internal handle that is not in use there.
def closedThere (s : State) (descriptor : FileHandleV2) : Bool :=
  match s.mountpoint descriptor.mountpoint with
  | none => false
  | some .devfs => (entryAt s.devfsHandles descriptor.internalHandle).all (·.free)
  | some (.echfs _ _) => (entryAt s.echfsHandles descriptor.internalHandle).all (·.free)

theorem NotOpen.finishClose (hnot : NotOpen s pid handle) (ret : Int) :
    finishClose s pid handle ret = (-1, s) := by
  unfold Vfs.finishClose
  by_cases hret : ret = -1
  · rw [if_pos hret]
  · rw [if_neg hret]
    rcases hnot with hneg | hend | hslot
    · rw [entryAt, if_pos hneg]
    · rw [entryAt, if_neg (by omega), List.getElem?_eq_none (by omega)]
    · obtain ⟨entry, hentry, hfree⟩ := (Option.any_eq_true _ _).mp hslot
      rw [hentry]
      dsimp only
      rw [if_pos hfree]

theorem NotOpen.congr (hnot : NotOpen s pid handle) (htable : next.table pid = s.table pid) :
    NotOpen next pid handle := by
  unfold NotOpen
  rw [htable]
  exact hnot

-- Closing a handle of devfs: an entry that is in use is marked free.
theorem devfsClose_closed (hclosed : (entryAt s.devfsHandles handle).all (·.free) = true) :
    devfsClose s handle = (-1, s) := by
  unfold devfsClose
  cases hentry : entryAt s.devfsHandles handle with
  | none => rfl
  | some entry =>
      rw [hentry, Option.all_some] at hclosed
      dsimp only
      rw [if_pos hclosed]

theorem devfsClose_live {entry : DevfsHandle} (hentry : entryAt s.devfsHandles handle = some entry)
    (hlive : entry.free = false) : devfsClose s handle =
      (0, { s with devfsHandles := setAt s.devfsHandles handle { entry with free := true } }) := by
  unfold devfsClose
  rw [hentry]
  dsimp only
  rw [if_neg (by rw [hlive]; exact Bool.false_ne_true)]

theorem echfsClose_closed (hclosed : (entryAt s.echfsHandles handle).all (·.free) = true) :
    echfsClose s handle = some (-1, s) := by
  unfold echfsClose
  cases hentry : entryAt s.echfsHandles handle with
  | none => rfl
  | some entry =>
      rw [hentry, Option.all_some] at hclosed
      dsimp only
      rw [if_pos hclosed]

theorem echfsClose_live {entry : EchfsHandle} (hentry : entryAt s.echfsHandles handle = some entry)
    (hlive : entry.free = false) : echfsClose s handle =
      (vfsKclose s entry.devHandle).map fun closed =>
        (0, { closed.2 with
          echfsHandles := setAt closed.2.echfsHandles handle { entry with free := true } }) := by
  unfold echfsClose
  rw [hentry]
  dsimp only
  rw [if_neg (by rw [hlive]; exact Bool.false_ne_true)]

theorem setTable_echfsHandles (s : State) (pid : Nat) (table : List FileHandleV2) :
    (s.setTable pid table).echfsHandles = s.echfsHandles := by
  unfold State.setTable
  split <;> rfl

theorem finishClose_echfsHandles (s : State) (pid : Nat) (handle ret : Int) :
    (finishClose s pid handle ret).2.echfsHandles = s.echfsHandles := by
  unfold finishClose
  split
  · rfl
  · split
    · rfl
    · split
      · rfl
      · exact setTable_echfsHandles _ _ _

theorem vfsKclose_echfsHandles {closed : Int × State} (hclosed : vfsKclose s handle = some closed) :
    closed.2.echfsHandles = s.echfsHandles := by
  unfold vfsKclose at hclosed
  split at hclosed
  · cases hclosed
    rw [finishClose_echfsHandles]
    unfold devfsClose
    split
    · rfl
    · split <;> rfl
  · cases hclosed

-- A state in which a live handle of devfs or echfs was marked free is another one.
theorem marked_ne {α : Type} {table : List α} {old new : α} (free : α → Bool)
    (hentry : entryAt table handle = some old) (hold : free old = false) (hnew : free new = true) :
    setAt table handle new ≠ table := by
  intro hsame
  have hself := entryAt_setAt_self hentry new
  rw [hsame, hentry] at hself
  rw [Option.some.inj hself, hnew] at hold
  cases hold

-- Closing a descriptor that is not open is refused, and changes nothing, exactly when what
-- stands in its slot names a handle that is closed in its file system as well.
theorem close_not_open_iff (hnot : NotOpen s pid handle) :
    (∃ next, vfsClose s pid handle = some (-1, next) ∧ SameHandles s next) ↔
      closedThere s (s.descriptor pid handle) = true := by
  unfold vfsClose State.internalClose closedThere
  cases hmount : s.mountpoint (s.descriptor pid handle).mountpoint with
  | none => simp
  | some mountpoint =>
      cases mountpoint with
      | devfs =>
          dsimp only
          constructor
          · rintro ⟨next, hclose, hsame⟩
            rw [Option.all_eq_true]
            intro entry hentry
            by_contra hlive
            rw [Bool.not_eq_true] at hlive
            rw [devfsClose_live hentry hlive, Option.map_some] at hclose
            dsimp only at hclose
            rw [NotOpen.finishClose (hnot.congr (by rfl))] at hclose
            cases hclose
            exact marked_ne (·.free) hentry hlive (by rfl) hsame.devfsHandles
          · intro hclosed
            rw [devfsClose_closed hclosed, Option.map_some, hnot.finishClose]
            exact ⟨s, rfl, rfl, rfl, rfl⟩
      | echfs m device =>
          dsimp only
          constructor
          · rintro ⟨next, hclose, hsame⟩
            rw [Option.all_eq_true]
            intro entry hentry
            by_contra hlive
            rw [Bool.not_eq_true] at hlive
            rw [echfsClose_live hentry hlive, Option.map_map] at hclose
            obtain ⟨closed, hclosed, heq⟩ := Option.map_eq_some_iff.mp hclose
            have hafter := congrArg (fun result => result.2.echfsHandles) heq
            dsimp only [Function.comp] at hafter
            rw [finishClose_echfsHandles, vfsKclose_echfsHandles hclosed, hsame.echfsHandles] at hafter
            exact marked_ne (·.free) hentry hlive (by rfl) hafter
          · intro hclosed
            rw [echfsClose_closed hclosed, Option.map_some, hnot.finishClose]
            exact ⟨s, rfl, rfl, rfl, rfl⟩

-- Two tasks beside the kernel's own, and one device that devfs shows as /a.
def twoTasks : State where
  kernel :=
    { heap := emptyHeap
      taskTable := fun pid => if pid = 0 then .task 0x10000 { status := .res }
        else if pid ≤ 2 then .task (0x10000 * (pid + 1)) {} else .null
      others := fun _ => 0 }
  mountpoint index := if index = 0 then some .devfs else none
  devMountpoint := 0
  devices := [{ name := [97], size := 16 }]
  disks _ _ := 0
  record _ := zeroRecord

def openA (pid : Nat) : Action := ⟨pid, .openPath 0 (rootPath 97 a_ne_nul) O_RDWR⟩

-- Task 1 opens /a and closes it; in between the two closes, task 2 may open it.
def closedOnce : Option State := run step twoTasks [openA 1, ⟨1, .close 0⟩]

def reopened : Option State := run step twoTasks [openA 1, ⟨1, .close 0⟩, openA 2]

theorem second_close_is_refused : ∃ s, closedOnce = some s ∧ NotOpen s 1 0 ∧
    ∃ next, vfsClose s 1 0 = some (-1, next) ∧ SameHandles s next := by
  have hrun : closedOnce.any (fun s => NotOpen s 1 0 ∧ closedThere s (s.descriptor 1 0) = true) = true := by
    decide +kernel
  obtain ⟨s, hs, hstate⟩ := (Option.any_eq_true _ _).mp hrun
  obtain ⟨hnot, hclosed⟩ := of_decide_eq_true hstate
  exact ⟨s, hs, hnot, (close_not_open_iff hnot).mpr hclosed⟩

-- The second close of task 1 returns -1, but it closes the handle task 2 has just got.
theorem second_close_takes_handle : ∃ s next, reopened = some s ∧ NotOpen s 1 0 ∧
    vfsClose s 1 0 = some (-1, next) ∧ (s.table 2).map (·.free) = [false] ∧
    s.devfsHandles.map (·.free) = [false] ∧ next.devfsHandles.map (·.free) = [true] ∧
    ¬∃ after, vfsClose s 1 0 = some (-1, after) ∧ SameHandles s after := by
  have hrun : reopened.any (fun s => NotOpen s 1 0 ∧ (s.table 2).map (·.free) = [false] ∧
      s.devfsHandles.map (·.free) = [false] ∧ (vfsClose s 1 0).any (fun closed => closed.1 = -1 ∧
        closed.2.devfsHandles.map (·.free) = [true]) = true) = true := by decide +kernel
  obtain ⟨s, hs, hstate⟩ := (Option.any_eq_true _ _).mp hrun
  obtain ⟨hnot, htable, hlive, hclose⟩ := of_decide_eq_true hstate
  obtain ⟨⟨ret, next⟩, hclosed, hresult⟩ := (Option.any_eq_true _ _).mp hclose
  obtain ⟨hret, hfreed⟩ := of_decide_eq_true hresult
  have hreturns : vfsClose s 1 0 = some (-1, next) := by
    rw [hclosed, show ret = -1 from hret]
  refine ⟨s, next, hs, hnot, hreturns, htable, hlive, hfreed, ?_⟩
  rintro ⟨after, hafter, hsame⟩
  have heq : next = after := (Prod.mk.inj (Option.some.inj (hreturns.symm.trans hafter))).2
  have hhandles := hsame.devfsHandles
  rw [← heq] at hhandles
  rw [show next.devfsHandles = s.devfsHandles from hhandles, hlive] at hfreed
  exact absurd hfreed (by decide)

end EchidnaOS.Vfs
