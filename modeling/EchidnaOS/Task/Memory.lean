import EchidnaOS.Klib.Heap.Owner
import EchidnaOS.Task.Step

namespace EchidnaOS

open EchidnaOS.Klib

-- The block behind `base` has the bytes the segment exposes, its pages are reserved, and
-- no other task has any of them. The kernel task has no block.
def SegmentsOwned (k : Kernel) : Prop :=
  ∀ pid address task, pid ≠ 0 → k.taskTable pid = .task address task →
    task.pages * PAGE_SIZE ≤ (k.heap.metadata task.base).size ∧
    (∀ page, task.base ≤ page * PAGE_SIZE →
      page * PAGE_SIZE < task.base + (k.heap.metadata task.base).size →
        k.heap.pmm.bitmap page = true) ∧
    ∀ other address' task', other ≠ 0 → other ≠ pid → k.taskTable other = .task address' task' →
      task.base + (k.heap.metadata task.base).size ≤ task'.base ∨
      task'.base + (k.heap.metadata task'.base).size ≤ task.base

-- The image fits 32-bit arithmetic when a task is launched or resized, and an execve
-- finds room for an image no smaller than the pages the task had before.
def KeepsSegments (k : Kernel) : Action → Prop
  | .execute _ _ (some file) _ => programPages file.size < 2 ^ 20
  | .executeBlock _ _ _ (some file) _ => programPages file.size < 2 ^ 20
  | .resizeHeap pid heapSize => ∀ address task, k.taskTable pid = .task address task →
      task.heapBase + heapPages heapSize * PAGE_SIZE < 2 ^ 32
  | .execve pid argv envp (some file) _ =>
      (kalloc (execveTemporaries k.heap argv envp).2
        (programPages file.size * PAGE_SIZE % 2 ^ 32)).1 ≠ 0 ∧
      ∀ address task, k.taskTable pid = .task address task →
        task.pages ≤ programPages file.size % 2 ^ 20
  | _ => True

-- Who holds the pointer to an object: an entry of the task table, a field of a task,
-- the rest of the kernel, or only a local variable. An array of descriptors is known by its
-- address.
inductive Owner where
  | entry (pid : Nat)
  | image (pid : Nat)
  | handles (pid : Nat)
  | handlesV2 (pid : Nat)
  | ldt (ptr : Nat)
  | other (name : Nat)
  | loose
  deriving DecidableEq

def Owner.pid : Owner → Option Nat
  | .entry pid => some pid
  | .image pid => some pid
  | .handles pid => some pid
  | .handlesV2 pid => some pid
  | _ => none

-- The objects that only calls about tasks touch.
def Owner.inTable : Owner → Bool
  | .other _ => false
  | .loose => false
  | _ => true

def Owner.named : Owner → Bool
  | .other _ => true
  | _ => false

structure ImageSized (heap : Heap) (task : Task) : Prop where
  pages_le : task.pages * PAGE_SIZE ≤ (heap.metadata task.base).size
  size_mod : (heap.metadata task.base).size % PAGE_SIZE = 0
  size_lt : (heap.metadata task.base).size < 2 ^ 32
  heapBase_mod : task.heapBase % PAGE_SIZE = 0

structure TaskOwned (heap : Heap) (owner : Nat → Option Owner) (pid address : Nat)
    (task : Task) : Prop where
  entry : owner address = some (.entry pid)
  handles : task.fileHandles ≠ 0 → owner task.fileHandles = some (.handles pid)
  handlesV2 : task.fileHandlesV2 ≠ 0 → owner task.fileHandlesV2 = some (.handlesV2 pid)
  image : pid ≠ 0 → owner task.base = some (.image pid)
  sized : pid ≠ 0 → ImageSized heap task
  record : (heap.metadata address).size = SIZEOF_TASK

-- Every pointer the kernel keeps is the pointer to a live object of its own. `ldts` are
-- arrays of descriptors, which have one page each.
structure Owned (ldts : Nat → Prop) (k : Kernel) (owner : Nat → Option Owner) : Prop where
  tagged : Tagged k.heap owner
  others : ∀ name, k.others name ≠ 0 → owner (k.others name) = some (.other name)
  tasks : ∀ pid address task, k.taskTable pid = .task address task →
    TaskOwned k.heap owner pid address task
  arrays : ∀ ptr, ldts ptr → owner ptr = some (.ldt ptr) ∧
    divRoundup (k.heap.metadata ptr).size PAGE_SIZE = 1

structure MemoryOk (ldts : Nat → Prop) (k : Kernel) : Prop where
  kernelTask : ∃ address task, k.taskTable 0 = .task address task ∧ task.status = .res
  owned : ∃ owner, Owned ldts k owner

-- A pointer in a local variable is stored where the tag says.
def give (owner : Nat → Option Owner) (ptr : Nat) (tag : Owner) : Nat → Option Owner :=
  if ptr = 0 then owner else Function.update owner ptr (some tag)

-- Pointers in local variables: the ones that are not NULL are loose and distinct.
structure Held (owner : Nat → Option Owner) (ptrs : List Nat) : Prop where
  loose : ∀ ptr ∈ ptrs, ptr ≠ 0 → owner ptr = some .loose
  nodup : (ptrs.filter (· ≠ 0)).Nodup

end EchidnaOS
