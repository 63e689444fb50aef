import EchidnaOS.Klib.Heap.Theorems

namespace EchidnaOS.Klib

open EchidnaOS.Lib

variable {before heap : Heap} {live : Nat → Prop} {ptr size : Nat}

def Heap.pageOf (heap : Heap) (ptr index : Nat) : Prop := pageStart ptr ≤ index ∧ index < heap.pageEnd ptr

-- A heap in which nothing but the objects in `live` was taken since `before`.
structure Borrowed (before heap : Heap) (live : Nat → Prop) : Prop where
  ok : HeapOk heap live
  inside : ∀ ptr, live ptr → ∀ index, heap.pageOf ptr index → before.pmm.bitmap index = false
  outside : ∀ index, (∀ ptr, live ptr → ¬heap.pageOf ptr index) →
    heap.pmm.bitmap index = before.pmm.bitmap index

theorem Borrowed.start (hok : HeapOk heap live) (hnone : ∀ ptr, ¬live ptr) : Borrowed heap heap live where
  ok := hok
  inside ptr hptr := absurd hptr (hnone ptr)
  outside _ _ := rfl

theorem Borrowed.restored (hborrowed : Borrowed before heap live) (hnone : ∀ ptr, ¬live ptr) :
    heap.pmm.bitmap = before.pmm.bitmap :=
  funext fun index => hborrowed.outside index fun ptr hptr => absurd hptr (hnone ptr)

theorem Borrowed.setMem (hborrowed : Borrowed before heap live) (contents : ByteStore.Store) :
    Borrowed before { heap with mem := contents } live where
  ok := hborrowed.ok.of_same rfl rfl hborrowed.ok.last_le (fun _ => rfl) hborrowed.ok.pages_eq
  inside := hborrowed.inside
  outside := hborrowed.outside

theorem kalloc_null_bitmap (hok : HeapOk heap live) (hnull : (kalloc heap size).1 = 0) :
    (kalloc heap size).2.pmm.bitmap = heap.pmm.bitmap := by
  obtain ⟨-, -, ⟨-, hbitmap, -⟩ | ⟨page, -, hptr, -⟩⟩ := kalloc_taken hok size
  · exact hbitmap
  · rw [hptr] at hnull
    simp [PAGE_SIZE] at hnull

theorem Borrowed.refused (hborrowed : Borrowed before heap live) (hnull : (kalloc heap size).1 = 0) :
    Borrowed before (kalloc heap size).2 live := by
  rcases kalloc_ok hborrowed.ok size with ⟨-, hok, hmeta⟩ | ⟨hne, -⟩
  · have hpage : ∀ ptr index, (kalloc heap size).2.pageOf ptr index ↔ heap.pageOf ptr index := by
      intro ptr index
      simp only [Heap.pageOf, Heap.pageEnd, hmeta]
    refine ⟨hok, ?_, ?_⟩
    · intro ptr hptr index hindex
      exact hborrowed.inside ptr hptr index ((hpage ptr index).mp hindex)
    · intro index hout
      rw [kalloc_null_bitmap hborrowed.ok hnull]
      exact hborrowed.outside index fun ptr hptr hin => hout ptr hptr ((hpage ptr index).mpr hin)
  · exact absurd hnull hne

theorem Borrowed.fresh (hborrowed : Borrowed before heap live) (hsome : (kalloc heap size).1 ≠ 0) :
    ¬live (kalloc heap size).1 := by
  rcases kalloc_ok hborrowed.ok size with ⟨hnull, -⟩ | ⟨-, hnew, -⟩
  · exact absurd hnull hsome
  · exact hnew

theorem Borrowed.alloc (hborrowed : Borrowed before heap live) (hsome : (kalloc heap size).1 ≠ 0) :
    Borrowed before (kalloc heap size).2 (fun ptr => live ptr ∨ ptr = (kalloc heap size).1) := by
  rcases kalloc_ok hborrowed.ok size with ⟨hnull, -⟩ | ⟨-, hnew, hok, hmeta⟩
  · exact absurd hnull hsome
  obtain ⟨-, -, ⟨hnull, -⟩ | ⟨page, hpage, hptr, -, hfree, hbitmap, -⟩⟩ := kalloc_taken hborrowed.ok size
  · exact absurd hnull hsome
  have hold : ∀ ptr index, live ptr → ((kalloc heap size).2.pageOf ptr index ↔ heap.pageOf ptr index) := by
    intro ptr index hptr'
    have hne : ptr ≠ (kalloc heap size).1 := fun heq => hnew (heq ▸ hptr')
    simp only [Heap.pageOf, Heap.pageEnd, hmeta, Function.update_of_ne hne]
  have hrun : ∀ index, (kalloc heap size).2.pageOf (kalloc heap size).1 index ↔
      page ≤ index ∧ index < page + (divRoundup size PAGE_SIZE + 1) := by
    intro index
    have hdiv : (kalloc heap size).1 / PAGE_SIZE = page + 1 := by
      rw [hptr]
      exact Nat.mul_div_cancel _ (by decide)
    simp only [Heap.pageOf, Heap.pageEnd, pageStart, hmeta, Function.update_self, hdiv]
    omega
  refine ⟨hok, ?_, ?_⟩
  · rintro ptr (hlive | rfl) index hindex
    · exact hborrowed.inside ptr hlive index ((hold ptr index hlive).mp hindex)
    · obtain ⟨hlow, hhigh⟩ := (hrun index).mp hindex
      -- a page of an object that is live already is not free
      rw [← hborrowed.outside index, hfree index hlow hhigh]
      intro ptr hlive hin
      have hused := hborrowed.ok.used ptr hlive index hin.1 hin.2
      simp [hfree index hlow hhigh] at hused
  · intro index hout
    have hbeside := (hrun index).not.mp (hout _ (Or.inr rfl))
    rw [hbitmap, mark_outside _ _ _ _ _ (by omega)]
    exact hborrowed.outside index fun ptr hlive hin =>
      hout ptr (Or.inl hlive) ((hold ptr index hlive).mpr hin)

theorem Borrowed.free (hborrowed : Borrowed before heap live) (hptr : live ptr) :
    Borrowed before (kfree heap ptr) (fun other => live other ∧ other ≠ ptr) := by
  have hpage : ∀ other index, (kfree heap ptr).pageOf other index ↔ heap.pageOf other index := by
    intro other index
    simp only [Heap.pageOf, kfree_pageEnd]
  refine ⟨kfree_ok hborrowed.ok ptr hptr, ?_, ?_⟩
  · rintro other ⟨hlive, -⟩ index hindex
    exact hborrowed.inside other hlive index ((hpage other index).mp hindex)
  · intro index hout
    rw [kfree_bits hborrowed.ok hptr]
    by_cases hin : heap.pageOf ptr index
    · rw [mark_inside _ _ _ _ _ hin.1 hin.2, hborrowed.inside ptr hptr index hin]
    · rw [mark_outside _ _ _ _ _ (by simp only [Heap.pageOf] at hin; omega)]
      refine hborrowed.outside index fun other hlive hother => ?_
      by_cases heq : other = ptr
      · exact hin (heq ▸ hother)
      · exact hout other ⟨hlive, heq⟩ ((hpage other index).mpr hother)

end EchidnaOS.Klib
