import EchidnaOS.Task.Memory.Theorems

namespace EchidnaOS

open EchidnaOS.Klib

variable {k : Kernel} {ldts : Nat → Prop} {current address : Nat} {task : Task}

-- The objects that the kernel keeps a pointer to, the block of one task apart.
inductive Holds (k : Kernel) (current : Nat) : Nat → Prop where
  | other (name : Nat) : Holds k current (k.others name)
  | entry {pid address : Nat} {task : Task} (slot : k.taskTable pid = .task address task) :
      Holds k current address
  | handles {pid address : Nat} {task : Task} (slot : k.taskTable pid = .task address task) :
      Holds k current task.fileHandles
  | handlesV2 {pid address : Nat} {task : Task} (slot : k.taskTable pid = .task address task) :
      Holds k current task.fileHandlesV2
  | image {pid address : Nat} {task : Task} (slot : k.taskTable pid = .task address task)
      (kernelTask : pid ≠ 0) (another : pid ≠ current) : Holds k current task.base

theorem Owned.holds {owner : Nat → Option Owner} {ptr : Nat} (howned : Owned ldts k owner)
    (hholds : Holds k current ptr) (hptr : ptr ≠ 0) :
    ∃ tag, owner ptr = some tag ∧ tag ≠ .image current := by
  cases hholds with
  | other name => exact ⟨_, howned.others name hptr, by simp⟩
  | entry hslot => exact ⟨_, (howned.tasks _ _ _ hslot).entry, by simp⟩
  | handles hslot => exact ⟨_, (howned.tasks _ _ _ hslot).handles hptr, by simp⟩
  | handlesV2 hslot => exact ⟨_, (howned.tasks _ _ _ hslot).handlesV2 hptr, by simp⟩
  | image hslot hpid hne =>
      refine ⟨_, (howned.tasks _ _ _ hslot).image hpid, ?_⟩
      intro he
      cases he
      exact hne rfl

-- The bytes of an image are in pages of its own.
theorem Owned.imagePages {owner : Nat → Option Owner} {linear : Nat} (howned : Owned ldts k owner)
    (hpid : current ≠ 0) (hslot : k.taskTable current = .task address task)
    (hlow : task.base ≤ linear) (hhigh : linear < task.base + task.pages * PAGE_SIZE) :
    pageStart task.base ≤ linear / PAGE_SIZE ∧ linear / PAGE_SIZE < k.heap.pageEnd task.base := by
  have hheap : HeapOk k.heap fun ptr => owner ptr ≠ none := howned.tagged
  have hblock : owner task.base ≠ none := by
    rw [(howned.tasks current address task hslot).image hpid]
    exact Option.some_ne_none _
  have hsized := (howned.tasks current address task hslot).sized hpid
  have haligned := hheap.aligned task.base hblock
  have hpages := hheap.pages_eq task.base hblock
  have hbytes := hsized.pages_le
  have hmod := hsized.size_mod
  have hlt := hsized.size_lt
  simp only [pageStart, Heap.pageEnd, divRoundup, PAGE_SIZE] at *
  omega

-- Another object has pages of its own, with the one of its metadata.
theorem Owned.apart {owner : Nat → Option Owner} {ptr linear : Nat} (howned : Owned ldts k owner)
    (hpid : current ≠ 0) (hslot : k.taskTable current = .task address task)
    (hlow : task.base ≤ linear) (hhigh : linear < task.base + task.pages * PAGE_SIZE)
    (hholds : Holds k current ptr) (hptr : ptr ≠ 0) :
    linear / PAGE_SIZE < pageStart ptr ∨ k.heap.pageEnd ptr ≤ linear / PAGE_SIZE := by
  obtain ⟨tag, htag, hother⟩ := Owned.holds howned hholds hptr
  obtain ⟨hstart, hend⟩ := Owned.imagePages howned hpid hslot hlow hhigh
  have himage := (howned.tasks current address task hslot).image hpid
  have hheap : HeapOk k.heap fun ptr => owner ptr ≠ none := howned.tagged
  have hlive : owner ptr ≠ none := by
    rw [htag]
    exact Option.some_ne_none tag
  have hblock : owner task.base ≠ none := by
    rw [himage]
    exact Option.some_ne_none _
  have hne : ptr ≠ task.base := by
    rintro rfl
    rw [himage, Option.some.injEq] at htag
    exact hother htag.symm
  rcases hheap.disjoint ptr task.base hlive hblock hne with hbefore | hbehind
  · exact Or.inr (hbefore.trans hstart)
  · exact Or.inl (hend.trans_le hbehind)

end EchidnaOS
