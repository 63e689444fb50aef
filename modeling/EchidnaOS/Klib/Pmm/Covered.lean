import EchidnaOS.Klib.Pmm.Blocks
import EchidnaOS.Klib.Pmm.Init

namespace EchidnaOS.Klib

open EchidnaOS.Lib.ByteStore EchidnaOS.Lib.Run

-- The bits that the loop of `inner_alloc` passes to `bitmap_test`, in its order.
def scanBits (bitmap : Nat → Bool) (count : Nat) : Nat → Nat → Nat → List Nat
  | 0, _, _ => []
  | fuel + 1, index, p =>
    index ::
      if bitmap index then scanBits bitmap count fuel (index + 1) 0
      else if p + 1 = count then []
      else scanBits bitmap count fuel (index + 1) (p + 1)

-- Those of `inner_alloc`, which passes the run that it takes to `bitmap_set`.
def innerAllocBits (pmm : Pmm) (count limit : Nat) : List Nat :=
  scanBits pmm.bitmap count (limit - pmm.lastUsedIndex) pmm.lastUsedIndex 0 ++
    match scan pmm.bitmap count (limit - pmm.lastUsedIndex) pmm.lastUsedIndex 0 with
    | (some page, index) => List.range' page (index - page)
    | (none, _) => []

def pmmAllocBits (pmm : Pmm) (count : Nat) : List Nat :=
  innerAllocBits pmm count pmm.pageLimit ++
    match innerAlloc pmm count pmm.pageLimit with
    | (0, next) => innerAllocBits { next with lastUsedIndex := 0 } count pmm.lastUsedIndex
    | _ => []

def pmmFreeBits (ptr count : Nat) : List Nat := List.range' (ptr / PAGE_SIZE) count

def callBits (use : PageUse) : PageCall → List Nat
  | .alloc count => pmmAllocBits use.pmm count
  | .free block => pmmFreeBits block.ptr block.count

-- Callers give back what they hold, and ask for any number of pages.
def FreesLive (use : PageUse) : PageCall → Prop
  | .alloc _ => True
  | .free block => block ∈ use.live

-- No bit operation leaves the bitmap, neither in `init_pmm` nor in any call that follows.
def BitmapCovers (memory : Store) (memmap : List MmapEntry) : Prop :=
  (∀ bit ∈ freedBits (initPmm memory memmap).memmap, bit < 8 * bitmapSizeOf memmap) ∧
    ∀ calls use call, Guarded pageStep FreesLive ⟨(initPmm memory memmap).pmm, []⟩ calls →
      run pageStep ⟨(initPmm memory memmap).pmm, []⟩ calls = some use → FreesLive use call →
        ∀ bit ∈ callBits use call, bit < 8 * bitmapSizeOf memmap

section Scan

variable {bitmap : Nat → Bool} {count fuel index p bit : Nat}

theorem scanBits_lt (hbit : bit ∈ scanBits bitmap count fuel index p) :
    bit < index + fuel := by
  induction fuel generalizing index p with
  | zero => simp [scanBits] at hbit
  | succ fuel ih =>
    rw [scanBits] at hbit
    cases List.mem_cons.mp hbit with
    | inl hfirst => omega
    | inr hrest =>
      split_ifs at hrest
      · have := ih hrest
        omega
      · simp at hrest
      · have := ih hrest
        omega

-- A run that is longer than the rest of the memory makes the scan pass all of it.
theorem mem_scanBits (hlong : p + fuel < count) (hlow : index ≤ bit) (hhigh : bit < index + fuel) :
    bit ∈ scanBits bitmap count fuel index p := by
  induction fuel generalizing index p with
  | zero => omega
  | succ fuel ih =>
    rw [scanBits]
    by_cases hbit : bit = index
    · simp [hbit]
    · apply List.mem_cons_of_mem
      split_ifs
      · exact ih (by omega) (by omega) (by omega)
      · omega
      · exact ih (by omega) (by omega) (by omega)

theorem scan_zero : (scan bitmap 0 fuel index p).1 = none := by
  induction fuel generalizing index p with
  | zero => rfl
  | succ fuel ih =>
    rw [scan, if_neg (Nat.succ_ne_zero p)]
    split_ifs
    · exact ih
    · exact ih

-- A run that the scan finds ends where it stops.
theorem scan_bounds {page final : Nat} (hscan : scan bitmap count fuel index 0 = (some page, final)) :
    final = page + count ∧ final ≤ index + fuel := by
  have hcount : 0 < count := by
    apply Nat.pos_of_ne_zero
    intro hzero
    subst hzero
    have hnone := @scan_zero bitmap fuel index 0
    rw [hscan] at hnone
    cases hnone
  obtain ⟨hfinal, -, hle, -⟩ := scan_some bitmap count fuel index 0 page final hcount (by omega)
    (fun i hlow hhigh => by omega) hscan
  exact ⟨hfinal, hle⟩

end Scan

-- What stays true of the allocator's numbers, whatever the bits are.
structure Within (pages : Nat) (use : PageUse) : Prop where
  limit : use.pmm.pageLimit = pages
  last_le : use.pmm.lastUsedIndex ≤ pages
  below : ∀ block ∈ use.live, block.page + block.count ≤ pages

section Calls

variable {pages count limit : Nat} {pmm : Pmm} {use next : PageUse} {bit : Nat}

theorem innerAlloc_within (hlimit : limit ≤ pages) (hlast : pmm.lastUsedIndex ≤ pages) :
    (∀ bit ∈ innerAllocBits pmm count limit, bit < pages) ∧
      (innerAlloc pmm count limit).2.highestPage = pmm.highestPage ∧
      (innerAlloc pmm count limit).2.lastUsedIndex ≤ pages ∧
      ∃ page, (innerAlloc pmm count limit).1 = page * PAGE_SIZE ∧
        (page ≠ 0 → page + count ≤ pages) := by
  have htests : ∀ bit ∈ scanBits pmm.bitmap count (limit - pmm.lastUsedIndex) pmm.lastUsedIndex 0,
      bit < pages := by
    intro bit hbit
    have hlow := scanBits_lt hbit
    have hnonempty : limit - pmm.lastUsedIndex ≠ 0 := by
      intro hzero
      simp [hzero, scanBits] at hbit
    omega
  cases hscan : scan pmm.bitmap count (limit - pmm.lastUsedIndex) pmm.lastUsedIndex 0 with
  | mk found final =>
    cases found with
    | none =>
      have hfinal := scan_none _ _ _ _ _ _ hscan
      simp only [innerAllocBits, innerAlloc, hscan, List.append_nil]
      exact ⟨htests, trivial, by omega, 0, by simp, by simp⟩
    | some page =>
      obtain ⟨hfinal, hle⟩ := scan_bounds hscan
      simp only [innerAllocBits, innerAlloc, hscan]
      refine ⟨?_, trivial, by omega, page, rfl, fun _ => by omega⟩
      intro bit hbit
      cases List.mem_append.mp hbit with
      | inl htest => exact htests bit htest
      | inr hset =>
        have := List.mem_range'_1.mp hset
        omega

theorem pmmAlloc_within (hlimit : pmm.pageLimit = pages) (hlast : pmm.lastUsedIndex ≤ pages) :
    (∀ bit ∈ pmmAllocBits pmm count, bit < pages) ∧
      (pmmAlloc pmm count).2.highestPage = pmm.highestPage ∧
      (pmmAlloc pmm count).2.lastUsedIndex ≤ pages ∧
      ∃ page, (pmmAlloc pmm count).1 = page * PAGE_SIZE ∧ (page ≠ 0 → page + count ≤ pages) := by
  obtain ⟨hbits, hhighest, hindex, hptr⟩ :=
    @innerAlloc_within pages count pmm.pageLimit pmm (by omega) hlast
  cases hfirst : innerAlloc pmm count pmm.pageLimit with
  | mk ptr middle =>
    rw [hfirst] at hhighest hindex hptr
    cases ptr with
    | zero =>
      -- the second pass looks at the pages below the cursor
      obtain ⟨hbits', hhighest', hindex', hptr'⟩ :=
        @innerAlloc_within pages count pmm.lastUsedIndex { middle with lastUsedIndex := 0 } hlast
          (Nat.zero_le _)
      simp only [pmmAllocBits, pmmAlloc, hfirst]
      refine ⟨?_, hhighest'.trans hhighest, hindex', hptr'⟩
      intro bit hbit
      cases List.mem_append.mp hbit with
      | inl hbit => exact hbits bit hbit
      | inr hbit => exact hbits' bit hbit
    | succ ptr =>
      simp only [pmmAllocBits, pmmAlloc, hfirst, List.append_nil]
      exact ⟨hbits, hhighest, hindex, hptr⟩

theorem Within.bits (h : Within pages use) {call : PageCall} (hcall : FreesLive use call) :
    ∀ bit ∈ callBits use call, bit < pages := by
  cases call with
  | alloc count => exact (pmmAlloc_within h.limit h.last_le).1
  | free block =>
    intro bit hbit
    have hblock := h.below block hcall
    have hrange : block.ptr / PAGE_SIZE ≤ bit ∧ bit < block.ptr / PAGE_SIZE + block.count :=
      List.mem_range'_1.mp hbit
    simp only [Block.page] at hblock
    omega

theorem Within.step (h : Within pages use) {call : PageCall} (hstep : pageStep use call = some next) :
    Within pages next := by
  cases call with
  | alloc count =>
    obtain ⟨-, hhighest, hindex, page, hptr, hpage⟩ :=
      @pmmAlloc_within pages count use.pmm h.limit h.last_le
    simp only [pageStep, Option.some.injEq] at hstep
    subst hstep
    refine ⟨?_, hindex, ?_⟩
    · have hlimit := h.limit
      simp only [Pmm.pageLimit, hhighest] at hlimit ⊢
      exact hlimit
    · intro block hmem
      simp only [hptr] at hmem
      split_ifs at hmem with hnull
      · exact h.below block hmem
      · cases List.mem_cons.mp hmem with
        | inl hnew =>
          have hpos : page ≠ 0 := fun hzero => hnull (by simp [hzero])
          rw [hnew]
          simpa [Block.page, PAGE_SIZE] using hpage hpos
        | inr hold => exact h.below block hold
  | free block =>
    simp only [pageStep, Option.some.injEq] at hstep
    subst hstep
    exact ⟨h.limit, h.last_le, fun other hmem => h.below other (List.mem_of_mem_erase hmem)⟩

end Calls

section Init

variable {memmap : List MmapEntry} {memory : Store} {bit : Nat}

theorem Accepted.freedBits_lt (h : Accepted memmap)
    (hbit : bit ∈ freedBits (initPmm memory memmap).memmap) : bit < pagesOf memmap := by
  obtain ⟨host, hmem, husable, hlen, -, hfreed⟩ := h.hosted
  cases (hfreed bit).mp hbit with
  | inl hfree =>
    obtain ⟨⟨entry, hentry, hentryUsable, hcontains⟩, -⟩ := hfree
    exact h.contains_lt hentry hentryUsable hcontains
  | inr hlast =>
    rw [hlast.2]
    exact h.contains_lt hmem husable (h.last_contained hmem husable hlen hlast.1)

-- The bitmap covers all that it is asked for just when its bytes hold a whole number of pages' bits.
theorem bitmap_covers_iff (h : Accepted memmap) (memory : Store) :
    BitmapCovers memory memmap ↔ pagesOf memmap % 8 = 0 := by
  have hsize := h.bitmapSize
  have hlimit : (initPmm memory memmap).pmm.pageLimit = pagesOf memmap := rfl
  constructor
  · intro hcovers
    by_contra hrest
    -- an allocation of more than there is looks at every page
    have hlast : pagesOf memmap - 1 ∈
        pmmAllocBits (initPmm memory memmap).pmm (pagesOf memmap + 1) := by
      apply List.mem_append_left
      apply List.mem_append_left
      rw [hlimit]
      exact mem_scanBits (by omega) (Nat.zero_le _) (by simp only [initPmm]; omega)
    have := hcovers.2 [] _ (.alloc (pagesOf memmap + 1)) trivial rfl trivial _ hlast
    omega
  · intro hwhole
    have hall : 8 * bitmapSizeOf memmap = pagesOf memmap := by omega
    rw [BitmapCovers, hall]
    refine ⟨fun bit hbit => h.freedBits_lt hbit, ?_⟩
    intro calls use call hguard hrun hcall
    have hstart : Within (pagesOf memmap) ⟨(initPmm memory memmap).pmm, []⟩ :=
      ⟨hlimit, Nat.zero_le _, by simp⟩
    have hwithin : Within (pagesOf memmap) use :=
      run_invariant (fun _ _ _ hwithin _ hstep => hwithin.step hstep) hstart hguard hrun
    exact hwithin.bits hcall

end Init

-- Eight pages, of which all but the first are usable.
def lowPages : List MmapEntry := [⟨PAGE_SIZE, 7 * PAGE_SIZE, STIVALE_MMAP_USABLE⟩]

theorem lowPages_accepted : Accepted lowPages := by
  constructor <;> simp [lowPages, PAGE_SIZE]
  decide

theorem bitmap_covers_lowPages : BitmapCovers (fun _ => 0) lowPages :=
  (bitmap_covers_iff lowPages_accepted _).mpr (by decide)

-- With nine pages, the bitmap of eight bits has none for the last one.
theorem ninePages_not_covered : Accepted ninePages ∧ ¬ BitmapCovers (fun _ => 0) ninePages := by
  refine ⟨ninePages_accepted, fun hcovers => ?_⟩
  have hbit : 8 < 8 * bitmapSizeOf ninePages := hcovers.1 8 (by decide)
  exact absurd hbit (by decide)

end EchidnaOS.Klib
