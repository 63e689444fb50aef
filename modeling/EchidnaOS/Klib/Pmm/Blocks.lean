import EchidnaOS.Klib.Pmm
import EchidnaOS.Lib.Run
import Mathlib.Data.List.Perm.Basic

namespace EchidnaOS.Klib

open EchidnaOS.Lib.Run

-- What pmm_alloc returned for `count` pages.
structure Block where
  ptr : Nat
  count : Nat
  deriving DecidableEq

def Block.page (block : Block) : Nat := block.ptr / PAGE_SIZE

def Block.covers (block : Block) (page : Nat) : Prop :=
  block.page ≤ page ∧ page < block.page + block.count

-- The allocator with the blocks its callers hold.
structure PageUse where
  pmm : Pmm
  live : List Block := []

inductive PageCall where
  | alloc (count : Nat)
  | free (block : Block)

def pageStep (use : PageUse) : PageCall → Option PageUse
  | .alloc count =>
      let result := pmmAlloc use.pmm count
      some { pmm := result.2
             live := if result.1 = 0 then use.live else ⟨result.1, count⟩ :: use.live }
  | .free block =>
      some { pmm := pmmFree use.pmm block.ptr block.count, live := use.live.erase block }

-- Callers ask for at least a page and give back what they hold.
def Allowed (use : PageUse) : PageCall → Prop
  | .alloc count => 1 ≤ count
  | .free block => block ∈ use.live

instance decidableAllowed (use : PageUse) (call : PageCall) : Decidable (Allowed use call) :=
  match call with
  | .alloc count => inferInstanceAs (Decidable (1 ≤ count))
  | .free block => inferInstanceAs (Decidable (block ∈ use.live))

def Apart (first second : Block) : Prop := ∀ page, ¬(first.covers page ∧ second.covers page)

theorem Apart.symm {first second : Block} (hapart : Apart first second) : Apart second first :=
  fun page hboth => hapart page ⟨hboth.2, hboth.1⟩

-- The live blocks against the allocator as it was at first.
structure BlocksApart (first : Pmm) (use : PageUse) : Prop where
  apart : use.live.Pairwise Apart
  below : ∀ block ∈ use.live, block.page + block.count ≤ first.pageLimit
  bits : ∀ page, use.pmm.bitmap page = true ↔
    first.bitmap page = true ∨ ∃ block ∈ use.live, block.covers page

-- The state between two calls. A live block has no page that was in use at first.
structure UseOk (first : Pmm) (use : PageUse) : Prop where
  blocks : BlocksApart first use
  clear : ∀ block ∈ use.live, ∀ page, block.covers page → first.bitmap page = false
  highest : use.pmm.highestPage = first.highestPage
  last_le : use.pmm.lastUsedIndex ≤ first.pageLimit

variable {first : Pmm} {use next : PageUse} {count : Nat}

theorem UseOk.start (hlast : first.lastUsedIndex ≤ first.pageLimit) : UseOk first ⟨first, []⟩ := by
  refine ⟨⟨List.Pairwise.nil, ?_, ?_⟩, ?_, rfl, hlast⟩
  · simp
  · simp
  · simp

theorem UseOk.pageLimit (hok : UseOk first use) : use.pmm.pageLimit = first.pageLimit := by
  unfold Pmm.pageLimit
  rw [hok.highest]

theorem UseOk.taken (hok : UseOk first use) (hzero : first.bitmap 0 = true) (hcount : 1 ≤ count) :
    Taken use.pmm count (pmmAlloc use.pmm count) := by
  apply pmmAlloc_taken use.pmm count hcount
  · exact (hok.blocks.bits 0).mpr (Or.inl hzero)
  · rw [hok.pageLimit]
    exact hok.last_le

-- A block that pmm_alloc returns is made of pages that were free.
theorem UseOk.returned_free (hok : UseOk first use) (hzero : first.bitmap 0 = true)
    (hcount : 1 ≤ count) (hne : (pmmAlloc use.pmm count).1 ≠ 0) (page : Nat)
    (hcovers : Block.covers ⟨(pmmAlloc use.pmm count).1, count⟩ page) :
    use.pmm.bitmap page = false := by
  obtain ⟨-, -, hcase⟩ := hok.taken hzero hcount
  rcases hcase with ⟨hnull, -⟩ | ⟨start, -, hptr, -, hfree, -⟩
  · exact absurd hnull hne
  · rw [hptr] at hcovers
    obtain ⟨hlow, hhigh⟩ := hcovers
    simp only [Block.page, PAGE_SIZE, Nat.mul_div_cancel start (by decide : 0 < 4096)] at hlow hhigh
    exact hfree page hlow hhigh

theorem UseOk.alloc (hok : UseOk first use) (hzero : first.bitmap 0 = true) (hcount : 1 ≤ count)
    (hstep : pageStep use (.alloc count) = some next) : UseOk first next := by
  have hreturned := hok.returned_free hzero hcount
  obtain ⟨hhighest, hlast, hcase⟩ := hok.taken hzero hcount
  rw [hok.pageLimit] at hlast hcase
  simp only [pageStep, Option.some.injEq] at hstep
  subst hstep
  generalize pmmAlloc use.pmm count = result at *
  rcases hcase with ⟨hnull, hbitmap⟩ | ⟨start, hstart, hptr, hbound, -, hbitmap⟩
  · rw [if_pos hnull]
    refine ⟨⟨hok.blocks.apart, hok.blocks.below, ?_⟩, hok.clear, hhighest.trans hok.highest, hlast⟩
    intro page
    rw [hbitmap]
    exact hok.blocks.bits page
  · have hne : result.1 ≠ 0 := by
      rw [hptr]
      simp only [PAGE_SIZE]
      omega
    have hpage : Block.page ⟨result.1, count⟩ = start := by
      simp only [Block.page, hptr, PAGE_SIZE, Nat.mul_div_cancel start (by decide : 0 < 4096)]
    have hfree := hreturned hne
    rw [if_neg hne]
    refine ⟨⟨List.pairwise_cons.mpr ⟨?_, hok.blocks.apart⟩, ?_, ?_⟩, ?_,
      hhighest.trans hok.highest, hlast⟩
    · intro block hmem page hboth
      -- a page of a live block has its bit set, so the allocator does not return it
      have hused := (hok.blocks.bits page).mpr (Or.inr ⟨block, hmem, hboth.2⟩)
      rw [hfree page hboth.1] at hused
      cases hused
    · intro block hmem
      rcases List.mem_cons.mp hmem with rfl | hmem
      · rw [hpage]
        exact hbound
      · exact hok.blocks.below block hmem
    · intro page
      have hcovers : Block.covers ⟨result.1, count⟩ page ↔ start ≤ page ∧ page < start + count := by
        unfold Block.covers
        rw [hpage]
      rw [hbitmap]
      by_cases hin : start ≤ page ∧ page < start + count
      · rw [mark_inside _ _ _ _ _ hin.1 hin.2]
        simp [hcovers.mpr hin]
      · rw [mark_outside _ _ _ _ _ (by omega), hok.blocks.bits page]
        simp [hcovers, hin]
    · intro block hmem page hcovers
      rcases List.mem_cons.mp hmem with rfl | hmem
      · have hclear := hfree page hcovers
        by_contra hset
        rw [(hok.blocks.bits page).mpr (Or.inl (by simpa using hset))] at hclear
        cases hclear
      · exact hok.clear block hmem page hcovers

theorem UseOk.free (hok : UseOk first use) {block : Block} (hlive : block ∈ use.live)
    (hstep : pageStep use (.free block) = some next) : UseOk first next := by
  simp only [pageStep, Option.some.injEq] at hstep
  subst hstep
  have hperm : use.live.Perm (block :: use.live.erase block) := List.perm_cons_erase hlive
  obtain ⟨hothers, hapart⟩ :=
    List.pairwise_cons.mp ((hperm.pairwise_iff Apart.symm).mp hok.blocks.apart)
  have hmem : ∀ other ∈ use.live.erase block, other ∈ use.live := fun other => List.mem_of_mem_erase
  refine ⟨⟨hapart, fun other h => hok.blocks.below other (hmem other h), ?_⟩,
    fun other h => hok.clear other (hmem other h), hok.highest, hok.last_le⟩
  intro page
  show mark use.pmm.bitmap block.page (block.page + block.count) false page = true ↔ _
  by_cases hin : block.page ≤ page ∧ page < block.page + block.count
  · rw [mark_inside _ _ _ _ _ hin.1 hin.2, hok.clear block hlive page hin]
    constructor
    · exact fun h => nomatch h
    · rintro (h | ⟨other, hother, hcovers⟩)
      · cases h
      · exact absurd ⟨hin, hcovers⟩ (hothers other hother page)
  · rw [mark_outside _ _ _ _ _ (by omega), hok.blocks.bits page]
    constructor
    · rintro (h | ⟨other, hother, hcovers⟩)
      · exact Or.inl h
      · rcases List.mem_cons.mp (hperm.mem_iff.mp hother) with rfl | hother
        · exact absurd hcovers hin
        · exact Or.inr ⟨other, hother, hcovers⟩
    · rintro (h | ⟨other, hother, hcovers⟩)
      · exact Or.inl h
      · exact Or.inr ⟨other, hmem other hother, hcovers⟩

theorem UseOk.step (hok : UseOk first use) (hzero : first.bitmap 0 = true) {call : PageCall}
    (hallowed : Allowed use call) (hstep : pageStep use call = some next) : UseOk first next := by
  cases call with
  | alloc count => exact hok.alloc hzero hallowed hstep
  | free block => exact hok.free hallowed hstep

-- After any calls, the live blocks are disjoint ranges of pages below the limit, the bits are
-- those of the start and of the live blocks, and the next block is made of free pages.
theorem page_allocator_keeps_blocks_apart (hzero : first.bitmap 0 = true)
    (hlast : first.lastUsedIndex ≤ first.pageLimit) {calls : List PageCall}
    (hguard : Guarded pageStep Allowed ⟨first, []⟩ calls)
    (hrun : run pageStep ⟨first, []⟩ calls = some use) :
    BlocksApart first use ∧
      ∀ count, 1 ≤ count → (pmmAlloc use.pmm count).1 ≠ 0 →
        ∀ page, Block.covers ⟨(pmmAlloc use.pmm count).1, count⟩ page →
          use.pmm.bitmap page = false := by
  have hok : UseOk first use := run_invariant
    (fun _ _ _ hok hallowed hstep => UseOk.step hok hzero hallowed hstep)
    (UseOk.start hlast) hguard hrun
  exact ⟨hok.blocks, fun count hcount => hok.returned_free hzero hcount⟩

-- Eight pages, of which the first and the fourth are in use.
def eightPages : Pmm where
  bitmap page := page = 0 ∨ page = 3
  lastUsedIndex := 2
  highestPage := 8 * PAGE_SIZE

-- After the first block is given back, the second one is found in the second pass.
def someCalls : List PageCall :=
  [.alloc 3, .free ⟨4 * PAGE_SIZE, 3⟩, .alloc 2, .alloc 2]

theorem blocks_of_eight_pages : ∃ use, run pageStep ⟨eightPages, []⟩ someCalls = some use ∧
    use.live = [⟨4 * PAGE_SIZE, 2⟩, ⟨1 * PAGE_SIZE, 2⟩] ∧ BlocksApart eightPages use := by
  have hguard : Guarded pageStep Allowed ⟨eightPages, []⟩ someCalls := by decide +kernel
  have hrun : (run pageStep ⟨eightPages, []⟩ someCalls).map (·.live) =
      some [⟨4 * PAGE_SIZE, 2⟩, ⟨1 * PAGE_SIZE, 2⟩] := by decide +kernel
  obtain ⟨use, huse, hlive⟩ := Option.map_eq_some_iff.mp hrun
  exact ⟨use, huse, hlive,
    (page_allocator_keeps_blocks_apart (by decide) (by decide) hguard huse).1⟩

end EchidnaOS.Klib
