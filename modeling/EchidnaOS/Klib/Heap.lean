import EchidnaOS.Klib.Pmm
import EchidnaOS.Lib.ByteStore

namespace EchidnaOS.Klib

open EchidnaOS.Lib

-- The page in front of every object of the kernel heap.
structure AllocMetadata where
  pages : Nat
  size : Nat

-- The page allocator, the metadata page of each object by the pointer that was
-- handed out, and the physical memory.
structure Heap where
  pmm : Pmm
  metadata : Nat → AllocMetadata
  mem : ByteStore.Store

-- DIV_ROUNDUP in the 32-bit arithmetic of `size_t`.
def divRoundup (a b : Nat) : Nat := (a + (b - 1)) % 2 ^ 32 / b

def pmmAllocz (heap : Heap) (count : Nat) : Nat × Heap :=
  match pmmAlloc heap.pmm count with
  | (0, pmm) => (0, { heap with pmm := pmm })
  | (ptr, pmm) =>
      (ptr, { heap with
        pmm := pmm
        mem := ByteStore.write heap.mem ptr (List.replicate (count * PAGE_SIZE) 0) })

def kalloc (heap : Heap) (size : Nat) : Nat × Heap :=
  match pmmAllocz heap (divRoundup size PAGE_SIZE + 1) with
  | (0, heap) => (0, heap)
  | (ptr, heap) =>
      (ptr + PAGE_SIZE, { heap with
        metadata := Function.update heap.metadata (ptr + PAGE_SIZE)
          ⟨divRoundup size PAGE_SIZE, size⟩ })

-- The metadata page is found by 32-bit pointer arithmetic, so `kfree(NULL)` goes
-- to the last page of the address space.
def metadataPtr (ptr : Nat) : Nat := (ptr + (2 ^ 32 - PAGE_SIZE)) % 2 ^ 32

def kfree (heap : Heap) (ptr : Nat) : Heap :=
  { heap with pmm := pmmFree heap.pmm (metadataPtr ptr) ((heap.metadata ptr).pages + 1) }

def krealloc (heap : Heap) (ptr newSize : Nat) : Nat × Heap :=
  if ptr = 0 then kalloc heap newSize
  else if divRoundup (heap.metadata ptr).size PAGE_SIZE = divRoundup newSize PAGE_SIZE then
    (ptr, { heap with
      metadata := Function.update heap.metadata ptr
        { heap.metadata ptr with size := newSize } })
  else if (kalloc heap newSize).1 = 0 then (0, (kalloc heap newSize).2)
  else
    let next := (kalloc heap newSize).2
    ((kalloc heap newSize).1, kfree { next with
      mem := ByteStore.write next.mem (kalloc heap newSize).1
        (ByteStore.read next.mem ptr (min (next.metadata ptr).size newSize)) } ptr)

-- The pages of an object run from its metadata page up to `pageEnd`.
def pageStart (ptr : Nat) : Nat := ptr / PAGE_SIZE - 1

def Heap.pageEnd (heap : Heap) (ptr : Nat) : Nat := ptr / PAGE_SIZE + (heap.metadata ptr).pages

-- What kalloc, krealloc and kfree keep for the set of live objects.
structure HeapOk (heap : Heap) (live : Nat → Prop) : Prop where
  zero_used : heap.pmm.bitmap 0 = true
  last_le : heap.pmm.lastUsedIndex ≤ heap.pmm.pageLimit
  limit_lt : heap.pmm.pageLimit < 2 ^ 20
  aligned : ∀ ptr, live ptr → ptr % PAGE_SIZE = 0
  start_pos : ∀ ptr, live ptr → 1 ≤ pageStart ptr
  end_le : ∀ ptr, live ptr → heap.pageEnd ptr ≤ heap.pmm.pageLimit
  used : ∀ ptr, live ptr → ∀ i, pageStart ptr ≤ i → i < heap.pageEnd ptr →
    heap.pmm.bitmap i = true
  pages_eq : ∀ ptr, live ptr →
    (heap.metadata ptr).pages = divRoundup (heap.metadata ptr).size PAGE_SIZE
  disjoint : ∀ first second, live first → live second → first ≠ second →
    heap.pageEnd first ≤ pageStart second ∨ heap.pageEnd second ≤ pageStart first

theorem HeapOk.ne_zero {heap : Heap} {live : Nat → Prop} (hok : HeapOk heap live) {ptr : Nat}
    (hlive : live ptr) : ptr ≠ 0 := by
  rintro rfl
  have := hok.start_pos 0 hlive
  simp [pageStart] at this

theorem HeapOk.congr {heap : Heap} {live other : Nat → Prop} (hok : HeapOk heap live)
    (heq : ∀ ptr, other ptr → live ptr) : HeapOk heap other where
  zero_used := hok.zero_used
  last_le := hok.last_le
  limit_lt := hok.limit_lt
  aligned ptr h := hok.aligned ptr (heq ptr h)
  start_pos ptr h := hok.start_pos ptr (heq ptr h)
  end_le ptr h := hok.end_le ptr (heq ptr h)
  used ptr h := hok.used ptr (heq ptr h)
  pages_eq ptr h := hok.pages_eq ptr (heq ptr h)
  disjoint first second h h' := hok.disjoint first second (heq first h) (heq second h')

-- A heap with the same bits whose metadata records the same page counts.
theorem HeapOk.of_same {heap other : Heap} {live : Nat → Prop} (hok : HeapOk heap live)
    (hbitmap : other.pmm.bitmap = heap.pmm.bitmap)
    (hhigh : other.pmm.highestPage = heap.pmm.highestPage)
    (hlast : other.pmm.lastUsedIndex ≤ heap.pmm.pageLimit)
    (hpages : ∀ ptr, (other.metadata ptr).pages = (heap.metadata ptr).pages)
    (hsize : ∀ ptr, live ptr → (heap.metadata ptr).pages =
      divRoundup (other.metadata ptr).size PAGE_SIZE) : HeapOk other live where
  zero_used := by rw [hbitmap]; exact hok.zero_used
  last_le := by simpa only [Pmm.pageLimit, hhigh] using hlast
  limit_lt := by simpa only [Pmm.pageLimit, hhigh] using hok.limit_lt
  aligned := hok.aligned
  start_pos := hok.start_pos
  end_le ptr h := by
    simpa only [Heap.pageEnd, hpages, Pmm.pageLimit, hhigh] using hok.end_le ptr h
  used ptr h i hlow hend := by
    rw [hbitmap]
    exact hok.used ptr h i hlow (by simpa only [Heap.pageEnd, hpages] using hend)
  pages_eq ptr h := by rw [hpages, hsize ptr h]
  disjoint first second h h' hne := by
    simpa only [Heap.pageEnd, hpages] using hok.disjoint first second h h' hne

end EchidnaOS.Klib
