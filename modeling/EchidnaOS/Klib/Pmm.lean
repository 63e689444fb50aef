import Mathlib.Tactic.Common

namespace EchidnaOS.Klib

def PAGE_SIZE : Nat := 4096

-- The static state of pmm.c. A set bit of the bitmap marks a page in use and
-- `highestPage` is the address past the last usable byte.
structure Pmm where
  bitmap : Nat → Bool
  lastUsedIndex : Nat
  highestPage : Nat

def Pmm.pageLimit (pmm : Pmm) : Nat := pmm.highestPage / PAGE_SIZE

-- `bitmap_set` or `bitmap_unset` over the page indices from `first` up to `last`.
def mark (bitmap : Nat → Bool) (first last : Nat) (used : Bool) : Nat → Bool := fun index =>
  if first ≤ index ∧ index < last then used else bitmap index

-- The loop of `inner_alloc`. The index is post-incremented by the bit test, `p`
-- counts the free pages just passed and the fuel is `limit - last_used_index`.
def scan (bitmap : Nat → Bool) (count : Nat) : Nat → Nat → Nat → Option Nat × Nat
  | 0, index, _ => (none, index)
  | fuel + 1, index, p =>
      if bitmap index then scan bitmap count fuel (index + 1) 0
      else if p + 1 = count then (some (index + 1 - count), index + 1)
      else scan bitmap count fuel (index + 1) (p + 1)

-- Addresses are returned as numbers and 0 is NULL.
def innerAlloc (pmm : Pmm) (count limit : Nat) : Nat × Pmm :=
  match scan pmm.bitmap count (limit - pmm.lastUsedIndex) pmm.lastUsedIndex 0 with
  | (some page, index) =>
      (page * PAGE_SIZE,
        { pmm with bitmap := mark pmm.bitmap page index true, lastUsedIndex := index })
  | (none, index) => (0, { pmm with lastUsedIndex := index })

def pmmAlloc (pmm : Pmm) (count : Nat) : Nat × Pmm :=
  match innerAlloc pmm count pmm.pageLimit with
  | (0, next) => innerAlloc { next with lastUsedIndex := 0 } count pmm.lastUsedIndex
  | found => found

def pmmFree (pmm : Pmm) (ptr count : Nat) : Pmm :=
  { pmm with bitmap := mark pmm.bitmap (ptr / PAGE_SIZE) (ptr / PAGE_SIZE + count) false }

@[simp] theorem pmmFree_lastUsedIndex (pmm : Pmm) (ptr count : Nat) :
    (pmmFree pmm ptr count).lastUsedIndex = pmm.lastUsedIndex := rfl

@[simp] theorem pmmFree_highestPage (pmm : Pmm) (ptr count : Nat) :
    (pmmFree pmm ptr count).highestPage = pmm.highestPage := rfl

theorem mark_inside (bitmap : Nat → Bool) (first last : Nat) (used : Bool) (index : Nat)
    (hlow : first ≤ index) (hhigh : index < last) : mark bitmap first last used index = used := by
  unfold mark
  rw [if_pos ⟨hlow, hhigh⟩]

theorem mark_outside (bitmap : Nat → Bool) (first last : Nat) (used : Bool) (index : Nat)
    (hout : index < first ∨ last ≤ index) :
    mark bitmap first last used index = bitmap index := by
  unfold mark
  rw [if_neg (by omega)]

-- A run of the right length ends at the index the scan stops at. The invariant is
-- that the `p` pages before the current index are free, so the run may begin there.
theorem scan_some (bitmap : Nat → Bool) (count fuel index p page final : Nat)
    (hp : p < count) (hbefore : p ≤ index)
    (hfree : ∀ i, index - p ≤ i → i < index → bitmap i = false)
    (hscan : scan bitmap count fuel index p = (some page, final)) :
    final = page + count ∧ index ≤ page + p ∧ final ≤ index + fuel ∧
      ∀ i, page ≤ i → i < page + count → bitmap i = false := by
  induction fuel generalizing index p with
  | zero => simp [scan] at hscan
  | succ fuel ih =>
      simp only [scan] at hscan
      split at hscan
      · obtain ⟨hfinal, hpage, hle, hrun⟩ := ih (index + 1) 0 (by omega) (by omega)
          (fun i hlow hhigh => by omega) hscan
        exact ⟨hfinal, by omega, by omega, hrun⟩
      · rename_i hclear
        have hnext : ∀ i, index + 1 - (p + 1) ≤ i → i < index + 1 → bitmap i = false := by
          intro i hlow hhigh
          by_cases hi : i = index
          · subst hi; simpa using hclear
          · exact hfree i (by omega) (by omega)
        split at hscan
        · obtain ⟨rfl, rfl⟩ : index + 1 - count = page ∧ index + 1 = final := by
            simpa using hscan
          exact ⟨by omega, by omega, by omega, fun i hlow hhigh => hnext i (by omega) (by omega)⟩
        · obtain ⟨hfinal, hpage, hle, hrun⟩ :=
            ih (index + 1) (p + 1) (by omega) (by omega) hnext hscan
          exact ⟨hfinal, by omega, by omega, hrun⟩

theorem scan_none (bitmap : Nat → Bool) (count fuel index p final : Nat)
    (hscan : scan bitmap count fuel index p = (none, final)) : final = index + fuel := by
  induction fuel generalizing index p with
  | zero =>
      simp only [scan, Prod.mk.injEq, true_and] at hscan
      omega
  | succ fuel ih =>
      simp only [scan] at hscan
      split at hscan
      · have := ih _ _ hscan; omega
      · split at hscan
        · simp at hscan
        · have := ih _ _ hscan; omega

-- What one call of the allocator does: it fails and changes no bit, or it takes
-- a run of free pages below the limit and marks exactly that run.
def Taken (pmm : Pmm) (count : Nat) (result : Nat × Pmm) : Prop :=
  result.2.highestPage = pmm.highestPage ∧ result.2.lastUsedIndex ≤ pmm.pageLimit ∧
  (result.1 = 0 ∧ result.2.bitmap = pmm.bitmap ∨
    ∃ page, 0 < page ∧ result.1 = page * PAGE_SIZE ∧ page + count ≤ pmm.pageLimit ∧
      (∀ i, page ≤ i → i < page + count → pmm.bitmap i = false) ∧
      result.2.bitmap = mark pmm.bitmap page (page + count) true)

theorem innerAlloc_taken (pmm : Pmm) (count limit : Nat) (hcount : 0 < count)
    (hzero : pmm.bitmap 0 = true) (hlast : pmm.lastUsedIndex ≤ pmm.pageLimit)
    (hlimit : limit ≤ pmm.pageLimit) : Taken pmm count (innerAlloc pmm count limit) := by
  unfold innerAlloc
  split
  · rename_i page index hscan
    obtain ⟨rfl, -, hle, hfree⟩ := scan_some pmm.bitmap count _ _ 0 page index hcount (by omega)
      (fun i hlow hhigh => by omega) hscan
    have hpage : 0 < page := by
      by_contra hn
      have := hfree 0 (by omega) (by omega)
      simp [hzero] at this
    have hbound : page + count ≤ pmm.pageLimit := by omega
    exact ⟨rfl, hbound, Or.inr ⟨page, hpage, rfl, hbound, hfree, rfl⟩⟩
  · rename_i index hscan
    have hfinal := scan_none pmm.bitmap count _ _ 0 index hscan
    exact ⟨rfl, by simp only; omega, Or.inl ⟨rfl, rfl⟩⟩

theorem Taken.bitmap_eq {pmm : Pmm} {count : Nat} {result : Nat × Pmm} (htaken : Taken pmm count result)
    (hnull : result.1 = 0) : result.2.bitmap = pmm.bitmap := by
  obtain ⟨-, -, ⟨-, hbitmap⟩ | ⟨page, hpage, haddr, -⟩⟩ := htaken
  · exact hbitmap
  · simp only [PAGE_SIZE] at haddr
    omega

theorem pmmAlloc_taken (pmm : Pmm) (count : Nat) (hcount : 0 < count)
    (hzero : pmm.bitmap 0 = true) (hlast : pmm.lastUsedIndex ≤ pmm.pageLimit) :
    Taken pmm count (pmmAlloc pmm count) := by
  have hfirst := innerAlloc_taken pmm count pmm.pageLimit hcount hzero hlast (Nat.le_refl _)
  unfold pmmAlloc
  split
  · rename_i next hnull
    rw [hnull] at hfirst
    have hhigh : next.highestPage = pmm.highestPage := hfirst.1
    have hbitmap : next.bitmap = pmm.bitmap := hfirst.bitmap_eq rfl
    -- the second pass starts from page 0 on the unchanged bitmap
    have hsecond := innerAlloc_taken { next with lastUsedIndex := 0 } count pmm.lastUsedIndex
      hcount (by simpa [hbitmap] using hzero) (Nat.zero_le _)
      (by simpa only [Pmm.pageLimit, hhigh] using hlast)
    simpa only [Taken, Pmm.pageLimit, hhigh, hbitmap] using hsecond
  · exact hfirst

end EchidnaOS.Klib
