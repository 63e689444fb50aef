import EchidnaOS.Task.Memory.Calls
import EchidnaOS.Task.Wait

namespace EchidnaOS

open EchidnaOS.Lib EchidnaOS.Lib.Run EchidnaOS.Klib

variable {k next final : Kernel} {ldts : Nat → Prop}

theorem MemoryOk.kernelEntry (hok : MemoryOk ldts k) :
    ∃ address task, k.taskTable 0 = .task address task := by
  obtain ⟨address, task, hslot, -⟩ := hok.kernelTask
  exact ⟨address, task, hslot⟩

-- The kernel task is never scheduled and never waits for a child.
theorem step_kernelTask (hok : MemoryOk ldts k) {action : Action} (hstep : step k action = some next) :
    ∃ address task, next.taskTable 0 = .task address task ∧ task.status = .res := by
  obtain ⟨address, task, hslot, hstatus⟩ := hok.kernelTask
  rcases step_cases hstep with ⟨pid, value, -, hactive, hquit⟩ | ⟨actor, hactive, hcalled⟩ |
    ⟨actor, info, file, vfs, -, -, rfl⟩ | heq
  · obtain ⟨_, quitting, parentAddress, parent, -, hparent, htable⟩ := taskQuit_table hquit
    refine ⟨address, task, ?_, hstatus⟩
    rw [htable, Function.update_of_ne (hok.ne_zero hactive).symm]
    by_cases hzero : quitting.parent = 0
    · rw [hzero, hslot] at hparent
      obtain ⟨rfl, rfl⟩ := Slot.task.inj hparent
      rw [wakeParent, if_neg (by simp [hstatus]), hslot]
    · rw [(wakeParent_only value hparent).others 0 (Ne.symm hzero), hslot]
  · exact ⟨address, task, hcalled.others 0 address task (hok.ne_zero hactive).symm hslot, hstatus⟩
  · have hspawn := generalExecute_spawned k actor info file vfs
    generalize generalExecute k actor info file vfs = result at hspawn ⊢
    rcases result with ⟨_ | child, next⟩
    · exact ⟨address, task, (hspawn 0 address task).mpr hslot, hstatus⟩
    · obtain ⟨-, hfree, hothers, -⟩ := hspawn
      have hchild := taskCreate_child_ne_zero ⟨address, task, hslot⟩ hfree
      exact ⟨address, task, (hothers 0 hchild.symm).trans hslot, hstatus⟩
  · exact ⟨address, task, by rw [heq, hslot], hstatus⟩

theorem step_memoryOk {action : Action} (hok : MemoryOk ldts k) (hguard : KeepsSegments k action)
    (hstep : step k action = some next) : MemoryOk ldts next := by
  refine ⟨step_kernelTask hok hstep, ?_⟩
  obtain ⟨owner, howned⟩ := hok.owned
  have hkernel := hok.kernelEntry
  cases action with
  | execute pid info file vfs =>
      simp only [step, Option.ite_none_right_eq_some, Option.some.injEq] at hstep
      obtain ⟨-, rfl⟩ := hstep
      refine howned.generalExecute hkernel pid info file vfs ?_
      rintro program rfl
      exact hguard
  | executeBlock pid cpu info file vfs =>
      simp only [step, Option.ite_none_right_eq_some, Option.some.injEq] at hstep
      obtain ⟨-, rfl⟩ := hstep
      refine howned.generalExecuteBlock hkernel pid cpu info file vfs ?_
      rintro program rfl
      exact hguard
  | fork pid cpu forks =>
      simp only [step, Option.ite_none_right_eq_some, Option.some.injEq] at hstep
      obtain ⟨hactive, rfl⟩ := hstep
      exact howned.taskFork hkernel (hok.ne_zero hactive) cpu forks
  | resizeHeap pid heapSize =>
      simp only [step, Option.ite_none_right_eq_some, Option.some.injEq] at hstep
      obtain ⟨hactive, rfl⟩ := hstep
      exact howned.resizeHeap (hok.ne_zero hactive) heapSize hguard
  | execve pid argv envp file load =>
      simp only [step, Option.ite_none_right_eq_some, Option.some.injEq] at hstep
      obtain ⟨hactive, rfl⟩ := hstep
      refine howned.execve (hok.ne_zero hactive) argv envp file load ?_ ?_
      · rintro program rfl
        exact hguard.1
      · rintro program rfl
        exact hguard.2
  | quit pid value =>
      simp only [step, Option.ite_none_right_eq_some] at hstep
      obtain ⟨hactive, hquit⟩ := hstep
      exact howned.taskQuit (hok.ne_zero hactive) hquit
  | switch pid cpu =>
      simp only [step, Option.ite_none_right_eq_some, Option.some.injEq] at hstep
      obtain ⟨-, rfl⟩ := hstep
      unfold taskSwitch
      split
      · rename_i address task hslot
        exact ⟨owner, howned.setTask
          ((howned.tasks pid address task hslot).congr rfl rfl rfl rfl rfl)⟩
      · exact ⟨owner, howned⟩
  | kernel reqs =>
      simp only [step, Option.some.injEq] at hstep
      subst hstep
      obtain ⟨owner', howned', -⟩ := howned.requests reqs
      exact ⟨owner', howned'⟩

-- Before task_init the only objects are those of the rest of the kernel.
theorem owned_before_init {heap : Heap} {others : Nat → Nat}
    (hheap : HeapOk heap fun ptr => ptr ≠ 0 ∧ ∃ name, others name = ptr)
    (hdistinct : ∀ first second, others first = others second → others first ≠ 0 →
      first = second) :
    ∃ owner, Owned (fun _ => False) ⟨heap, fun _ => .null, others⟩ owner := by
  classical
  let owner : Nat → Option Owner := fun ptr =>
    if h : ptr ≠ 0 ∧ ∃ name, others name = ptr then some (.other h.2.choose) else none
  refine ⟨owner, ?_, ?_, ?_, nofun⟩
  · refine HeapOk.congr hheap ?_
    intro ptr hptr
    by_contra hnone
    simp [owner, hnone] at hptr
  · intro name hname
    have hlive : others name ≠ 0 ∧ ∃ other, others other = others name := ⟨hname, name, rfl⟩
    have hchosen := hlive.2.choose_spec
    have hsame := hdistinct _ _ hchosen.symm hname
    simp only [owner, dif_pos hlive]
    rw [← hsame]
  · intro pid address task hslot
    cases hslot

theorem taskInit_memoryOk {heap : Heap} {others : Nat → Nat}
    (hheap : HeapOk heap fun ptr => ptr ≠ 0 ∧ ∃ name, others name = ptr)
    (hdistinct : ∀ first second, others first = others second → others first ≠ 0 →
      first = second)
    (hinit : taskInit heap others = some k) : MemoryOk (fun _ => False) k := by
  obtain ⟨owner, howned⟩ := owned_before_init hheap hdistinct
  obtain ⟨owner₁, howned₁, hheld₁, -⟩ := howned.hold (Held.nil owner) (KRNL_MAX_TASKS * 4)
  obtain ⟨owner₂, howned₂, hheld₂, -, hsize⟩ := howned₁.hold hheld₁ SIZEOF_TASK
  unfold taskInit at hinit
  dsimp only at hinit howned₂ hheld₂ hsize
  generalize kalloc heap (KRNL_MAX_TASKS * 4) = table at *
  generalize kalloc table.2 SIZEOF_TASK = entry at *
  split at hinit
  · cases hinit
  split at hinit
  · cases hinit
  · rename_i hentry
    cases hinit
    refine ⟨⟨entry.1, { status := .res, pwd := [47], name := [107, 101, 114, 110, 101, 108] },
      by simp, rfl⟩, ?_⟩
    have hgiven := howned₂.given hheld₂.head (.entry 0)
    refine ⟨_, hgiven.setTask ⟨give_self hentry, ?_, ?_, ?_, ?_, hsize hentry⟩⟩
    · exact fun h => absurd rfl h
    · exact fun h => absurd rfl h
    · exact fun h => absurd rfl h
    · exact fun h => absurd rfl h

-- From boot on, whatever tasks and the rest of the kernel do, a task owns the memory its
-- segments expose as long as no launch or resize leaves 32-bit arithmetic and no execve
-- replaces an image by a smaller one.
theorem segments_owned_from_boot {heap : Heap} {others : Nat → Nat} {actions : List Action}
    (hheap : HeapOk heap fun ptr => ptr ≠ 0 ∧ ∃ name, others name = ptr)
    (hdistinct : ∀ first second, others first = others second → others first ≠ 0 →
      first = second)
    (hinit : taskInit heap others = some k) (hguard : Guarded step KeepsSegments k actions)
    (hrun : run step k actions = some final) : SegmentsOwned final := by
  have hboot := taskInit_memoryOk hheap hdistinct hinit
  have hfinal := run_invariant (fun _ _ _ hok => step_memoryOk hok) hboot hguard hrun
  exact hfinal.segmentsOwned

theorem emptyHeap_ok {live : Nat → Prop} (hnone : ∀ ptr, ¬live ptr) : HeapOk emptyHeap live where
  zero_used := rfl
  last_le := Nat.zero_le _
  limit_lt := by decide
  aligned ptr h := absurd h (hnone ptr)
  start_pos ptr h := absurd h (hnone ptr)
  end_le ptr h := absurd h (hnone ptr)
  used ptr h := absurd h (hnone ptr)
  pages_eq ptr h := absurd h (hnone ptr)
  disjoint ptr _ h := absurd h (hnone ptr)

theorem bootRun_split {actions : List Action} (hrun : bootRun actions = some final) :
    ∃ k, taskInit emptyHeap (fun _ => 0) = some k ∧ run step k actions = some final :=
  Option.bind_eq_some_iff.mp hrun

theorem shells_own_their_segments : ∃ final,
    bootRun [plainLaunch 0, plainLaunch 1, .fork 1 {} fun _ => {}, .quit 2 0] = some final ∧
      SegmentsOwned final := by
  have hsome : (bootRun [plainLaunch 0, plainLaunch 1, .fork 1 {} fun _ => {}, .quit 2 0]).isSome =
      true := by
    decide +kernel
  obtain ⟨final, hfinal⟩ := Option.isSome_iff_exists.mp hsome
  obtain ⟨k, hinit, hrun⟩ := bootRun_split hfinal
  refine ⟨final, hfinal, segments_owned_from_boot (emptyHeap_ok ?_) ?_ hinit ?_ hrun⟩
  · rintro ptr ⟨hne, name, rfl⟩
    exact hne rfl
  · exact fun _ _ _ hne => absurd rfl hne
  · have hpages : programPages 0 < 2 ^ 20 := by decide
    exact ⟨hpages, fun _ _ => ⟨hpages, fun _ _ => ⟨trivial, fun _ _ => ⟨trivial, fun _ _ => trivial⟩⟩⟩⟩

-- A program of ten pages is replaced by an empty one: the block shrinks from 42 to 32
-- pages and the segment still exposes 42.
def shrinkingRun : List Action :=
  [.execute 0 plainInfo (some ⟨10 * PAGE_SIZE, fun _ => 0⟩) {},
    .execve 1 [] [] (some emptyProgram) []]

-- The bytes that the segment of a task exposes and the size of its block.
def segmentAndBlock (pid : Nat) (k : Kernel) : Option (Nat × Nat) :=
  match k.taskTable pid with
  | .task _ task => some (task.pages * PAGE_SIZE, (k.heap.metadata task.base).size)
  | _ => none

theorem execve_exposes_foreign_memory :
    ∃ final, bootRun shrinkingRun = some final ∧ ¬SegmentsOwned final := by
  have hsome : (bootRun shrinkingRun).isSome = true := by decide +kernel
  obtain ⟨final, hfinal⟩ := Option.isSome_iff_exists.mp hsome
  refine ⟨final, hfinal, ?_⟩
  intro howned
  have hsizes : (bootRun shrinkingRun).bind (segmentAndBlock 1) =
      some (42 * PAGE_SIZE, 32 * PAGE_SIZE) := by
    decide +kernel
  rw [hfinal, Option.bind_some, segmentAndBlock] at hsizes
  cases hslot : final.taskTable 1 with
  | task address task =>
      simp only [hslot, Option.some.injEq, Prod.mk.injEq] at hsizes
      have hle := (howned 1 address task Nat.one_ne_zero hslot).1
      rw [hsizes.1, hsizes.2] at hle
      exact absurd hle (by decide)
  | null => simp [hslot] at hsizes
  | empty => simp [hslot] at hsizes

end EchidnaOS
