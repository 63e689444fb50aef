import EchidnaOS.Klib.Pmm

namespace EchidnaOS.Klib

def FreeRun (bitmap : Nat → Bool) (page count : Nat) : Prop :=
  ∀ index, page ≤ index → index < page + count → bitmap index = false

-- A run that neither crosses the cursor nor the end of memory.
def Reachable (pmm : Pmm) (page count : Nat) : Prop :=
  page + count ≤ pmm.pageLimit ∧ (page + count ≤ pmm.lastUsedIndex ∨ pmm.lastUsedIndex ≤ page)

-- What a caller may expect of NULL: no run of `count` free pages is left, and no
-- bit has changed.
def NullMeansFull (pmm : Pmm) (count : Nat) : Prop :=
  ((pmmAlloc pmm count).1 = 0 ↔
    ¬∃ page, page + count ≤ pmm.pageLimit ∧ FreeRun pmm.bitmap page count) ∧
  ((pmmAlloc pmm count).1 = 0 → (pmmAlloc pmm count).2.bitmap = pmm.bitmap)

variable {pmm : Pmm} {count : Nat}

-- A scan that fails has passed no run. The `p` pages before the current index may
-- begin one, so a run may start up to `p` pages behind it.
theorem scan_complete (bitmap : Nat → Bool) (count fuel index p page final : Nat)
    (hp : p < count) (hscan : scan bitmap count fuel index p = (none, final))
    (hlow : index ≤ page + p) (hhigh : page + count ≤ index + fuel) :
    ¬FreeRun bitmap page count := by
  induction fuel generalizing index p with
  | zero => omega
  | succ fuel ih =>
      intro hrun
      simp only [scan] at hscan
      split at hscan
      · rename_i hused
        by_cases hpage : page ≤ index
        · have hclear := hrun index hpage (by omega)
          simp [hclear] at hused
        · exact ih (index + 1) 0 (by omega) hscan (by omega) (by omega) hrun
      · split at hscan
        · simp at hscan
        · exact ih (index + 1) (p + 1) (by omega) hscan (by omega) (by omega) hrun

theorem innerAlloc_null_iff (limit : Nat) (hcount : 0 < count) (hzero : pmm.bitmap 0 = true) :
    (innerAlloc pmm count limit).1 = 0 ↔
      ∀ page, pmm.lastUsedIndex ≤ page → page + count ≤ limit →
        ¬FreeRun pmm.bitmap page count := by
  unfold innerAlloc
  split
  · rename_i first final hscan
    obtain ⟨rfl, hlow, hhigh, hfree⟩ := scan_some pmm.bitmap count _ _ 0 first final hcount
      (by omega) (fun i hi hj => by omega) hscan
    constructor
    · intro hnull
      -- only page 0 has the address 0, and it is in use
      have hfirst : first = 0 := by
        simp only [PAGE_SIZE] at hnull
        omega
      have hclear := hfree 0 (by omega) (by omega)
      simp [hzero] at hclear
    · intro hnone
      exact absurd hfree (hnone first (by omega) (by omega))
  · rename_i final hscan
    refine ⟨?_, fun _ => rfl⟩
    intro _ page hlow hhigh
    exact scan_complete pmm.bitmap count _ _ 0 page final hcount hscan (by omega) (by omega)

-- The first pass covers the pages from the cursor on and the second those below it.
theorem pmmAlloc_null_iff (hcount : 0 < count) (hzero : pmm.bitmap 0 = true)
    (hlast : pmm.lastUsedIndex ≤ pmm.pageLimit) :
    (pmmAlloc pmm count).1 = 0 ↔
      ∀ page, Reachable pmm page count → ¬FreeRun pmm.bitmap page count := by
  have habove := @innerAlloc_null_iff pmm count pmm.pageLimit hcount hzero
  unfold pmmAlloc
  split
  · rename_i next hfirst
    have hbitmap : next.bitmap = pmm.bitmap := by
      have htaken := innerAlloc_taken pmm count pmm.pageLimit hcount hzero hlast (Nat.le_refl _)
      rw [hfirst] at htaken
      exact htaken.bitmap_eq rfl
    have hbelow := @innerAlloc_null_iff { next with lastUsedIndex := 0 } count
      pmm.lastUsedIndex hcount (by simpa [hbitmap] using hzero)
    rw [hbelow]
    simp only [hbitmap]
    simp only [hfirst, true_iff] at habove
    constructor
    · intro hnone page hreach
      rcases hreach.2 with hend | hstart
      · exact hnone page (Nat.zero_le _) hend
      · exact habove page hstart hreach.1
    · intro hnone page _ hend
      exact hnone page ⟨by omega, Or.inl hend⟩
  · rename_i hfound
    constructor
    · intro hnull
      exact (hfound _ (Prod.ext hnull rfl)).elim
    · intro hnone
      exact habove.mpr (fun page hstart hend => hnone page ⟨hend, Or.inr hstart⟩)

-- The allocator tells the truth about NULL unless every free run that is left
-- crosses the cursor.
theorem pmm_alloc_null_means_full_iff (hcount : 1 ≤ count) (hzero : pmm.bitmap 0 = true)
    (hlast : pmm.lastUsedIndex ≤ pmm.pageLimit) :
    NullMeansFull pmm count ↔
      ((∃ page, page + count ≤ pmm.pageLimit ∧ FreeRun pmm.bitmap page count) →
        ∃ page, Reachable pmm page count ∧ FreeRun pmm.bitmap page count) := by
  have hbitmap := (pmmAlloc_taken pmm count hcount hzero hlast).bitmap_eq
  unfold NullMeansFull
  rw [and_iff_left hbitmap, pmmAlloc_null_iff hcount hzero hlast]
  constructor
  · intro hfull hrun
    by_contra hnone
    exact hfull.mp (fun page hreach hfree => hnone ⟨page, hreach, hfree⟩) hrun
  · intro hreaches
    constructor
    · intro hnone hrun
      obtain ⟨page, hreach, hfree⟩ := hreaches hrun
      exact hnone page hreach hfree
    · intro hnone page hreach hfree
      exact hnone ⟨page, hreach.1, hfree⟩

theorem freeRun_two {bitmap : Nat → Bool} {page : Nat} (hfirst : bitmap page = false)
    (hsecond : bitmap (page + 1) = false) : FreeRun bitmap page 2 := by
  intro index hlow hhigh
  obtain rfl | rfl : index = page ∨ index = page + 1 := by omega
  · exact hfirst
  · exact hsecond

-- Three pages of memory, of which the two after page 0 are free.
def smallPmm : Pmm where
  bitmap index := index = 0
  lastUsedIndex := 0
  highestPage := 3 * PAGE_SIZE

theorem smallPmm_free : FreeRun smallPmm.bitmap 1 2 := freeRun_two (by decide) (by decide)

theorem pmm_alloc_null_means_full_small : NullMeansFull smallPmm 2 :=
  (pmm_alloc_null_means_full_iff (by decide) (by decide) (by decide)).mpr
    fun _ => ⟨1, ⟨by decide, by decide⟩, smallPmm_free⟩

-- One page has been taken and given back, which leaves the cursor behind it.
def splitPmm : Pmm := pmmFree (pmmAlloc smallPmm 1).2 PAGE_SIZE 1

theorem splitPmm_free : FreeRun splitPmm.bitmap 1 2 := freeRun_two (by decide) (by decide)

theorem pmm_alloc_misses_split_run :
    splitPmm.bitmap 0 = true ∧ splitPmm.lastUsedIndex ≤ splitPmm.pageLimit ∧
      ¬NullMeansFull splitPmm 2 := by
  refine ⟨by decide, by decide, ?_⟩
  intro hfull
  have hnull : (pmmAlloc splitPmm 2).1 = 0 := by decide
  exact hfull.1.mp hnull ⟨1, by decide, splitPmm_free⟩

end EchidnaOS.Klib
