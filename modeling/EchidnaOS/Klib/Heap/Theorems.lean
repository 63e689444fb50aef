import EchidnaOS.Klib.Heap

namespace EchidnaOS.Klib

open EchidnaOS.Lib

variable {heap : Heap} {live : Nat → Prop}

-- What the memory holds decides no allocation.
theorem kalloc_setMem (heap : Heap) (contents : ByteStore.Store) (size : Nat) :
    (kalloc { heap with mem := contents } size).1 = (kalloc heap size).1 := by
  simp only [kalloc, pmmAllocz]
  cases pmmAlloc heap.pmm (divRoundup size PAGE_SIZE + 1) with
  | mk ptr pmm => cases ptr <;> rfl

-- `kalloc` through the allocator's specification: it fails and changes neither
-- bits, metadata nor memory, or it takes a free run of one page more than it records
-- and zeroes it.
theorem kalloc_taken (hok : HeapOk heap live) (size : Nat) :
    (kalloc heap size).2.pmm.highestPage = heap.pmm.highestPage ∧
    (kalloc heap size).2.pmm.lastUsedIndex ≤ heap.pmm.pageLimit ∧
    ((kalloc heap size).1 = 0 ∧ (kalloc heap size).2.pmm.bitmap = heap.pmm.bitmap ∧
        (kalloc heap size).2.metadata = heap.metadata ∧ (kalloc heap size).2.mem = heap.mem ∨
      ∃ page, 0 < page ∧ (kalloc heap size).1 = (page + 1) * PAGE_SIZE ∧
        page + (divRoundup size PAGE_SIZE + 1) ≤ heap.pmm.pageLimit ∧
        (∀ i, page ≤ i → i < page + (divRoundup size PAGE_SIZE + 1) →
          heap.pmm.bitmap i = false) ∧
        (kalloc heap size).2.pmm.bitmap =
          mark heap.pmm.bitmap page (page + (divRoundup size PAGE_SIZE + 1)) true ∧
        (kalloc heap size).2.metadata = Function.update heap.metadata ((page + 1) * PAGE_SIZE)
          ⟨divRoundup size PAGE_SIZE, size⟩ ∧
        (kalloc heap size).2.mem = ByteStore.write heap.mem (page * PAGE_SIZE)
          (List.replicate ((divRoundup size PAGE_SIZE + 1) * PAGE_SIZE) 0)) := by
  have htaken := pmmAlloc_taken heap.pmm (divRoundup size PAGE_SIZE + 1) (Nat.succ_pos _)
    hok.zero_used hok.last_le
  rcases halloc : pmmAlloc heap.pmm (divRoundup size PAGE_SIZE + 1) with ⟨ptr, pmm⟩
  rw [halloc] at htaken
  obtain ⟨hhigh, hlast, hcase⟩ := htaken
  cases ptr with
  | zero =>
      have hbitmap : pmm.bitmap = heap.pmm.bitmap := by
        rcases hcase with ⟨-, hb⟩ | ⟨page, hpage, haddr, -⟩
        · exact hb
        · simp only [PAGE_SIZE] at haddr
          omega
      simp only [kalloc, pmmAllocz, halloc, true_and, and_true]
      exact ⟨hhigh, hlast, Or.inl hbitmap⟩
  | succ ptr =>
      rcases hcase with ⟨hzero, -⟩ | ⟨page, hpage, haddr, hbound, hfree, hbitmap⟩
      · simp at hzero
      · have hptr : ptr + 1 + PAGE_SIZE = (page + 1) * PAGE_SIZE := by
          rw [Nat.add_mul, Nat.one_mul]
          exact congrArg (· + PAGE_SIZE) haddr
        simp only [kalloc, pmmAllocz, halloc, hptr]
        exact ⟨hhigh, hlast, Or.inr ⟨page, hpage, rfl, hbound, hfree, hbitmap, rfl,
          congrArg (ByteStore.write heap.mem · _) haddr⟩⟩

-- A live object has all its bits set, so it does not meet a free run.
theorem HeapOk.apart_of_free (hok : HeapOk heap live) {ptr page count : Nat} (hlive : live ptr)
    (hfree : ∀ i, page ≤ i → i < page + count → heap.pmm.bitmap i = false) (hcount : 0 < count) :
    heap.pageEnd ptr ≤ page ∨ page + count ≤ pageStart ptr := by
  by_contra hmeet
  have hnonempty : pageStart ptr < heap.pageEnd ptr := by
    have := hok.start_pos ptr hlive
    simp only [pageStart, Heap.pageEnd] at this ⊢
    omega
  have hused := hok.used ptr hlive (max page (pageStart ptr)) (by omega) (by omega)
  have hclear := hfree (max page (pageStart ptr)) (by omega) (by omega)
  simp [hused] at hclear

-- The object `kalloc` returns is new, and with it the live objects stay apart.
theorem kalloc_ok (hok : HeapOk heap live) (size : Nat) :
    ((kalloc heap size).1 = 0 ∧ HeapOk (kalloc heap size).2 live ∧
      (kalloc heap size).2.metadata = heap.metadata) ∨
    ((kalloc heap size).1 ≠ 0 ∧ ¬live (kalloc heap size).1 ∧
      HeapOk (kalloc heap size).2 (fun ptr => live ptr ∨ ptr = (kalloc heap size).1) ∧
      (kalloc heap size).2.metadata = Function.update heap.metadata (kalloc heap size).1
        ⟨divRoundup size PAGE_SIZE, size⟩) := by
  obtain ⟨hhigh, hlast,
    ⟨hnull, hbitmap, hmeta, -⟩ | ⟨page, hpage, hptr, hbound, hfree, hbitmap, hmeta, -⟩⟩ :=
    kalloc_taken hok size
  · refine Or.inl ⟨hnull, ?_, hmeta⟩
    exact hok.of_same hbitmap hhigh hlast (fun ptr => by rw [hmeta])
      (fun ptr hlive => by rw [hmeta]; exact hok.pages_eq ptr hlive)
  · right
    generalize hres : kalloc heap size = result at *
    have hstart : pageStart result.1 = page := by
      simp only [pageStart, hptr, PAGE_SIZE, Nat.mul_div_cancel _ (by decide : 0 < 4096)]
      omega
    have hapart : ∀ ptr, live ptr → heap.pageEnd ptr ≤ page ∨
        page + (divRoundup size PAGE_SIZE + 1) ≤ pageStart ptr :=
      fun ptr hlive => hok.apart_of_free hlive hfree (Nat.succ_pos _)
    have hnew : ¬live result.1 := by
      intro hlive
      have := hapart _ hlive
      have := hok.start_pos _ hlive
      simp only [pageStart, Heap.pageEnd] at *
      omega
    have hne : result.1 ≠ 0 := by
      rw [hptr]
      simp [PAGE_SIZE]
    have hend : result.2.pageEnd result.1 = page + (divRoundup size PAGE_SIZE + 1) := by
      simp only [Heap.pageEnd, hmeta, hptr, Function.update_self, PAGE_SIZE,
        Nat.mul_div_cancel _ (by decide : 0 < 4096)]
      omega
    have hold : ∀ ptr, live ptr → result.2.metadata ptr = heap.metadata ptr := by
      intro ptr hlive
      have hptrne : ptr ≠ (page + 1) * PAGE_SIZE := by
        rintro rfl
        exact hnew (hptr ▸ hlive)
      rw [hmeta, Function.update_of_ne hptrne]
    have holdEnd : ∀ ptr, live ptr → result.2.pageEnd ptr = heap.pageEnd ptr := by
      intro ptr hlive
      simp only [Heap.pageEnd, hold ptr hlive]
    refine ⟨hne, hnew, ?_, by rw [hmeta, hptr]⟩
    constructor
    · rw [hbitmap, mark_outside _ _ _ _ _ (Or.inl hpage)]
      exact hok.zero_used
    · simpa only [Pmm.pageLimit, hhigh] using hlast
    · simpa only [Pmm.pageLimit, hhigh] using hok.limit_lt
    · rintro ptr (hlive | rfl)
      · exact hok.aligned ptr hlive
      · rw [hptr, Nat.mul_mod_left]
    · rintro ptr (hlive | rfl)
      · exact hok.start_pos ptr hlive
      · omega
    · simp only [Pmm.pageLimit, hhigh]
      rintro ptr (hlive | rfl)
      · rw [holdEnd ptr hlive]; exact hok.end_le ptr hlive
      · rw [hend]; exact hbound
    · rintro ptr (hlive | rfl) i hlow hhigh'
      · rw [holdEnd ptr hlive] at hhigh'
        have hused := hok.used ptr hlive i hlow hhigh'
        rw [hbitmap]
        by_cases hin : page ≤ i ∧ i < page + (divRoundup size PAGE_SIZE + 1)
        · exact mark_inside _ _ _ _ _ hin.1 hin.2
        · rw [mark_outside _ _ _ _ _ (by omega)]; exact hused
      · rw [hbitmap]
        exact mark_inside _ _ _ _ _ (by omega) (by omega)
    · rintro ptr (hlive | rfl)
      · rw [hold ptr hlive]; exact hok.pages_eq ptr hlive
      · rw [hmeta, hptr, Function.update_self]
    · rintro first second (hfirst | rfl) (hsecond | rfl) hdiff
      · rw [holdEnd _ hfirst, holdEnd _ hsecond]
        exact hok.disjoint first second hfirst hsecond hdiff
      · rw [holdEnd _ hfirst, hend, hstart]
        exact hapart first hfirst
      · rw [holdEnd _ hsecond, hend, hstart]
        exact (hapart second hsecond).symm
      · exact absurd rfl hdiff

@[simp] theorem kfree_metadata (heap : Heap) (ptr : Nat) :
    (kfree heap ptr).metadata = heap.metadata := by
  unfold kfree; rfl

theorem kfree_pmm (heap : Heap) (ptr : Nat) :
    (kfree heap ptr).pmm =
      pmmFree heap.pmm (metadataPtr ptr) ((heap.metadata ptr).pages + 1) := by
  unfold kfree; rfl

@[simp] theorem kfree_pageLimit (heap : Heap) (ptr : Nat) :
    (kfree heap ptr).pmm.pageLimit = heap.pmm.pageLimit := by
  rw [kfree_pmm, Pmm.pageLimit, pmmFree_highestPage, Pmm.pageLimit]

@[simp] theorem kfree_pageEnd (heap : Heap) (ptr other : Nat) :
    (kfree heap ptr).pageEnd other = heap.pageEnd other := by
  unfold Heap.pageEnd; rw [kfree_metadata]

@[simp] theorem kfree_mem (heap : Heap) (ptr : Nat) : (kfree heap ptr).mem = heap.mem := by
  unfold kfree; rfl

theorem metadataPtr_page (hok : HeapOk heap live) {ptr : Nat} (hptr : live ptr) :
    metadataPtr ptr / PAGE_SIZE = pageStart ptr := by
  have halign := hok.aligned ptr hptr
  have hpos := hok.start_pos ptr hptr
  have hend := hok.end_le ptr hptr
  have hlimit := hok.limit_lt
  simp only [metadataPtr, pageStart, Heap.pageEnd, PAGE_SIZE] at halign hpos hend ⊢
  omega

theorem kfree_bits (hok : HeapOk heap live) {ptr : Nat} (hptr : live ptr) :
    (kfree heap ptr).pmm.bitmap =
      mark heap.pmm.bitmap (pageStart ptr) (heap.pageEnd ptr) false := by
  have hpos := hok.start_pos ptr hptr
  rw [kfree_pmm]
  unfold pmmFree
  dsimp only
  rw [metadataPtr_page hok hptr]
  congr 1
  simp only [Heap.pageEnd, pageStart] at hpos ⊢
  omega

-- Freeing clears the bits of one object, which no other live object has.
theorem kfree_ok (hok : HeapOk heap live) (ptr : Nat) (hptr : live ptr) :
    HeapOk (kfree heap ptr) (fun other => live other ∧ other ≠ ptr) := by
  have hpos := hok.start_pos ptr hptr
  have hbits := kfree_bits hok hptr
  constructor
  · rw [hbits, mark_outside _ _ _ _ _ (Or.inl hpos)]
    exact hok.zero_used
  · rw [kfree_pageLimit, kfree_pmm, pmmFree_lastUsedIndex]
    exact hok.last_le
  · rw [kfree_pageLimit]
    exact hok.limit_lt
  · exact fun other h => hok.aligned other h.1
  · exact fun other h => hok.start_pos other h.1
  · rintro other ⟨hlive, -⟩
    rw [kfree_pageEnd, kfree_pageLimit]
    exact hok.end_le other hlive
  · rintro other ⟨hlive, hne⟩ i hlow hhigh
    rw [kfree_pageEnd] at hhigh
    have hsep := hok.disjoint other ptr hlive hptr hne
    rw [hbits, mark_outside _ _ _ _ _ (by omega)]
    exact hok.used other hlive i hlow hhigh
  · rintro other ⟨hlive, -⟩
    rw [kfree_metadata]
    exact hok.pages_eq other hlive
  · rintro first second ⟨hfirst, -⟩ ⟨hsecond, -⟩ hne
    rw [kfree_pageEnd, kfree_pageEnd]
    exact hok.disjoint first second hfirst hsecond hne

-- Freeing NULL only clears bits past the last page of any memory.
theorem kfree_null_ok (hok : HeapOk heap live) : HeapOk (kfree heap 0) live := by
  have hlimit := hok.limit_lt
  have hbits : ∀ i, i < heap.pmm.pageLimit →
      (kfree heap 0).pmm.bitmap i = heap.pmm.bitmap i := by
    intro i hi
    rw [kfree_pmm]
    apply mark_outside
    left
    simp only [metadataPtr, PAGE_SIZE]
    omega
  constructor
  · by_cases hpos : 0 < heap.pmm.pageLimit
    · rw [hbits 0 hpos]
      exact hok.zero_used
    · rw [kfree_pmm]
      have hout : mark heap.pmm.bitmap (metadataPtr 0 / PAGE_SIZE)
          (metadataPtr 0 / PAGE_SIZE + ((heap.metadata 0).pages + 1)) false 0 = true := by
        rw [mark_outside _ _ _ _ _ (Or.inl (by decide))]
        exact hok.zero_used
      exact hout
  · rw [kfree_pageLimit, kfree_pmm, pmmFree_lastUsedIndex]
    exact hok.last_le
  · rw [kfree_pageLimit]
    exact hlimit
  · exact hok.aligned
  · exact hok.start_pos
  · intro ptr hlive
    rw [kfree_pageEnd, kfree_pageLimit]
    exact hok.end_le ptr hlive
  · intro ptr hlive i hlow hhigh
    rw [kfree_pageEnd] at hhigh
    have hend := hok.end_le ptr hlive
    rw [hbits i (by omega)]
    exact hok.used ptr hlive i hlow hhigh
  · intro ptr hlive
    rw [kfree_metadata]
    exact hok.pages_eq ptr hlive
  · intro first second hfirst hsecond hne
    rw [kfree_pageEnd, kfree_pageEnd]
    exact hok.disjoint first second hfirst hsecond hne

-- Recording a size that needs the same number of pages changes no page range.
theorem resize_ok (hok : HeapOk heap live) (ptr newSize : Nat)
    (hpages : divRoundup (heap.metadata ptr).size PAGE_SIZE = divRoundup newSize PAGE_SIZE) :
    HeapOk { heap with
      metadata := Function.update heap.metadata ptr
        { heap.metadata ptr with size := newSize } } live := by
  refine hok.of_same rfl rfl hok.last_le ?_ ?_
  · intro other
    by_cases he : other = ptr
    · subst he; simp
    · simp [he]
  · intro other hlive
    by_cases he : other = ptr
    · subst he
      simp only [Function.update_self]
      rw [hok.pages_eq other hlive, hpages]
    · simp only [Function.update_of_ne he]
      exact hok.pages_eq other hlive

theorem krealloc_ok (hok : HeapOk heap live) (ptr newSize : Nat) (hptr : live ptr) :
    ((krealloc heap ptr newSize).1 = 0 ∧ HeapOk (krealloc heap ptr newSize).2 live ∧
      (krealloc heap ptr newSize).2.metadata = heap.metadata) ∨
    ((krealloc heap ptr newSize).1 ≠ 0 ∧
      ((krealloc heap ptr newSize).1 = ptr ∨ ¬live (krealloc heap ptr newSize).1) ∧
      HeapOk (krealloc heap ptr newSize).2
        (fun other => live other ∧ other ≠ ptr ∨ other = (krealloc heap ptr newSize).1) ∧
      ((krealloc heap ptr newSize).2.metadata (krealloc heap ptr newSize).1).size = newSize ∧
      ∀ other, other ≠ (krealloc heap ptr newSize).1 →
        (krealloc heap ptr newSize).2.metadata other = heap.metadata other) := by
  have hne := hok.ne_zero hptr
  unfold krealloc
  rw [if_neg hne]
  split
  · rename_i hpages
    refine Or.inr ⟨hne, Or.inl rfl, ?_, by simp, fun other he => by simp [he]⟩
    apply (resize_ok hok ptr newSize hpages).congr
    rintro other (⟨hlive, -⟩ | rfl)
    · exact hlive
    · exact hptr
  · rcases kalloc_ok hok newSize with ⟨hnull, hnext, hmeta⟩ | ⟨hnew, hfresh, hnext, hmeta⟩
    · rw [if_pos hnull]
      exact Or.inl ⟨rfl, hnext, hmeta⟩
    · rw [if_neg hnew]
      refine Or.inr ⟨hnew, Or.inr hfresh, ?_, by simp [hmeta], ?_⟩
      · -- the copy only touches memory, so the old object is freed in an intact heap
        have hcopy (mem : ByteStore.Store) : HeapOk { (kalloc heap newSize).2 with mem := mem }
            (fun other => live other ∨ other = (kalloc heap newSize).1) :=
          hnext.of_same rfl rfl hnext.last_le (fun _ => rfl) hnext.pages_eq
        apply (kfree_ok (hcopy _) ptr (Or.inl hptr)).congr
        rintro other (⟨hlive, hother⟩ | rfl)
        · exact ⟨Or.inl hlive, hother⟩
        · refine ⟨Or.inr rfl, ?_⟩
          intro he
          exact hfresh (he ▸ hptr)
      · intro other he
        rw [kfree_metadata]
        simp only [hmeta, Function.update_of_ne he]

end EchidnaOS.Klib
