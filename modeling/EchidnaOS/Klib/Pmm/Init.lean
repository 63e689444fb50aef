import EchidnaOS.Klib.Heap
import Mathlib.Tactic.IntervalCases

namespace EchidnaOS.Klib

open EchidnaOS.Lib.ByteStore

def STIVALE_MMAP_USABLE : Nat := 1

-- `struct stivale_mmap_entry`.
structure MmapEntry where
  base : Nat
  length : Nat
  type : Nat

def MmapEntry.Usable (entry : MmapEntry) : Prop := entry.type = STIVALE_MMAP_USABLE

instance decidableUsable (entry : MmapEntry) : Decidable entry.Usable :=
  inferInstanceAs (Decidable (_ = _))

-- The first loop of `init_pmm`. `top` is of 32 bits.
def highestTop : List MmapEntry → Nat → Nat
  | [], highest => highest
  | entry :: memmap, highest =>
    if entry.Usable then
      let top := (entry.base + entry.length) % 2 ^ 32
      highestTop memmap (if highest < top then top else highest)
    else highestTop memmap highest

def bitmapSize (highest : Nat) : Nat := divRoundup highest PAGE_SIZE / 8

-- The second loop: the address of the bitmap, and the map without its bytes.
def hostBitmap (size : Nat) : List MmapEntry → Option Nat × List MmapEntry
  | [] => (none, [])
  | entry :: memmap =>
    if entry.Usable ∧ size ≤ entry.length then
      (some entry.base,
        { entry with base := entry.base + size, length := entry.length - size } :: memmap)
    else ((hostBitmap size memmap).1, entry :: (hostBitmap size memmap).2)

-- The bits that the third loop passes to `bitmap_unset` for an entry, where `j` is a multiple of
-- the page size.
def entryBits (entry : MmapEntry) : List Nat :=
  (List.range ((entry.length + (PAGE_SIZE - 1)) / PAGE_SIZE)).map fun i =>
    (entry.base + i * PAGE_SIZE) / PAGE_SIZE

def freedBits : List MmapEntry → List Nat
  | [] => []
  | entry :: memmap =>
    (if entry.Usable then entryBits entry else []) ++ freedBits memmap

-- `bitmap_unset` of one bit after the other.
def unsetBits (bitmap : Nat → Bool) (bits : List Nat) : Nat → Bool :=
  bits.foldl (fun bitmap bit => Function.update bitmap bit false) bitmap

-- The bit that the bit operations find behind a pointer.
def bitBehind (memory : Store) (ptr bit : Nat) : Bool :=
  (memory (ptr + bit / 8)).toNat.testBit (bit % 8)

-- The memory behind `memset(ptr, 0xff, size)`.
def memsetOnes (memory : Store) (ptr size : Nat) : Store :=
  write memory ptr (List.replicate size 0xff)

-- What is left of the map's regions, and the address of the bitmap.
structure PmmInit where
  pmm : Pmm
  bitmapPtr : Nat
  memmap : List MmapEntry

def initPmm (memory : Store) (memmap : List MmapEntry) : PmmInit :=
  let highest := highestTop memmap 0
  let size := bitmapSize highest
  let hosted := hostBitmap size memmap
  let bits :=
    match hosted.1 with
    | some ptr => bitBehind (memsetOnes memory ptr size) ptr
    | none => bitBehind memory 0
  { pmm :=
      { bitmap := unsetBits bits (freedBits hosted.2), lastUsedIndex := 0, highestPage := highest }
    bitmapPtr := hosted.1.getD 0
    memmap := hosted.2 }

-- The pages of a map and the size of its bitmap.
def pagesOf (memmap : List MmapEntry) : Nat := highestTop memmap 0 / PAGE_SIZE

def bitmapSizeOf (memmap : List MmapEntry) : Nat := bitmapSize (highestTop memmap 0)

def MmapEntry.Contains (entry : MmapEntry) (page : Nat) : Prop :=
  entry.base ≤ page * PAGE_SIZE ∧ (page + 1) * PAGE_SIZE ≤ entry.base + entry.length

-- The maps that boot loaders hand over.
structure Accepted (memmap : List MmapEntry) : Prop where
  aligned : ∀ entry ∈ memmap, entry.Usable →
    entry.base % PAGE_SIZE = 0 ∧ entry.length % PAGE_SIZE = 0
  below : ∀ entry ∈ memmap, entry.Usable → entry.base + entry.length < 2 ^ 32
  apart : memmap.Pairwise fun entry other => entry.Usable → other.Usable →
    entry.base + entry.length ≤ other.base ∨ other.base + other.length ≤ entry.base
  room : ∃ entry ∈ memmap, entry.Usable ∧ bitmapSizeOf memmap ≤ entry.length

section Loops

variable {memmap : List MmapEntry} {entry : MmapEntry} {size highest n : Nat}

theorem highestTop_le (h : highest ≤ n)
    (hbelow : ∀ entry ∈ memmap, entry.Usable → (entry.base + entry.length) % 2 ^ 32 ≤ n) :
    highestTop memmap highest ≤ n := by
  induction memmap generalizing highest with
  | nil => exact h
  | cons entry memmap ih =>
    have hrest : ∀ entry ∈ memmap, entry.Usable → (entry.base + entry.length) % 2 ^ 32 ≤ n :=
      fun entry hmem => hbelow entry (by simp [hmem])
    rw [highestTop]
    split_ifs with husable
    · have := hbelow entry (by simp) husable
      apply ih _ hrest
      split_ifs <;> omega
    · exact ih h hrest

theorem le_highestTop : highest ≤ highestTop memmap highest := by
  induction memmap generalizing highest with
  | nil => exact Nat.le_refl _
  | cons entry memmap ih =>
    rw [highestTop]
    split_ifs
    · refine Nat.le_trans ?_ ih
      split_ifs <;> omega
    · exact ih

theorem top_le_highestTop (hmem : entry ∈ memmap) (husable : entry.Usable) :
    (entry.base + entry.length) % 2 ^ 32 ≤ highestTop memmap highest := by
  induction memmap generalizing highest with
  | nil => simp at hmem
  | cons other memmap ih =>
    rw [highestTop]
    cases List.mem_cons.mp hmem with
    | inl heq =>
      subst heq
      rw [if_pos husable]
      refine Nat.le_trans ?_ le_highestTop
      split_ifs <;> omega
    | inr hmem =>
      split_ifs
      · exact ih hmem
      · exact ih hmem

theorem highestTop_aligned (h : highest % PAGE_SIZE = 0)
    (haligned : ∀ entry ∈ memmap, entry.Usable →
      (entry.base + entry.length) % 2 ^ 32 % PAGE_SIZE = 0) :
    highestTop memmap highest % PAGE_SIZE = 0 := by
  induction memmap generalizing highest with
  | nil => exact h
  | cons entry memmap ih =>
    have hrest := fun entry hmem => haligned entry (List.mem_cons_of_mem _ hmem)
    rw [highestTop]
    split_ifs with husable
    · have := haligned entry (by simp) husable
      apply ih _ hrest
      split_ifs
      · exact this
      · exact h
    · exact ih h hrest

theorem mem_entryBits :
    n ∈ entryBits entry ↔ entry.base / PAGE_SIZE ≤ n ∧
      n < entry.base / PAGE_SIZE + (entry.length + (PAGE_SIZE - 1)) / PAGE_SIZE := by
  have hpage : ∀ i, (entry.base + i * PAGE_SIZE) / PAGE_SIZE = entry.base / PAGE_SIZE + i :=
    fun i => Nat.add_mul_div_right _ _ (by decide)
  simp only [entryBits, List.mem_map, List.mem_range, hpage]
  constructor
  · intro h
    obtain ⟨i, hi, rfl⟩ := h
    omega
  · intro h
    exact ⟨n - entry.base / PAGE_SIZE, by omega, by omega⟩

theorem mem_freedBits :
    n ∈ freedBits memmap ↔ ∃ entry ∈ memmap, entry.Usable ∧ n ∈ entryBits entry := by
  induction memmap with
  | nil => simp [freedBits]
  | cons entry memmap ih =>
    by_cases husable : entry.Usable <;> simp [freedBits, ih, husable]

theorem unsetBits_eq (bitmap : Nat → Bool) (bits : List Nat) :
    unsetBits bitmap bits n = false ↔ n ∈ bits ∨ bitmap n = false := by
  induction bits generalizing bitmap with
  | nil => simp [unsetBits]
  | cons bit bits ih =>
    have hstep : unsetBits bitmap (bit :: bits) n =
      unsetBits (Function.update bitmap bit false) bits n := rfl
    rw [hstep, ih]
    by_cases hn : n = bit <;> simp [hn]

-- The host of the bitmap is the first usable entry that is long enough.
theorem hostBitmap_split (hroom : ∃ entry ∈ memmap, entry.Usable ∧ size ≤ entry.length) :
    ∃ front host back, memmap = front ++ host :: back ∧ host.Usable ∧ size ≤ host.length ∧
      hostBitmap size memmap = (some host.base,
        front ++ { host with base := host.base + size, length := host.length - size } :: back) := by
  induction memmap with
  | nil => simp at hroom
  | cons entry memmap ih =>
    by_cases hhost : entry.Usable ∧ size ≤ entry.length
    · exact ⟨[], entry, memmap, rfl, hhost.1, hhost.2, by
        rw [hostBitmap, if_pos hhost]
        rfl⟩
    · obtain ⟨front, host, back, rfl, husable, hlen, heq⟩ := ih (by
        obtain ⟨other, hmem, hother⟩ := hroom
        cases List.mem_cons.mp hmem with
        | inl hfirst => exact absurd (hfirst ▸ hother) hhost
        | inr hmem => exact ⟨other, hmem, hother⟩)
      refine ⟨entry :: front, host, back, rfl, husable, hlen, ?_⟩
      rw [hostBitmap, heq, if_neg hhost]
      rfl

theorem ones_testBit (bit : Nat) : (0xff : UInt8).toNat.testBit (bit % 8) = true := by
  have hbit : bit % 8 < 8 := Nat.mod_lt _ (by omega)
  interval_cases bit % 8 <;> rfl

theorem bitBehind_memsetOnes (memory : Store) (ptr : Nat) (hn : n < 8 * size) :
    bitBehind (memsetOnes memory ptr size) ptr n = true := by
  have hbyte : memsetOnes memory ptr size (ptr + n / 8) = 0xff := by
    rw [memsetOnes, write_inside _ _ _ _ (by simp; omega), List.getD_replicate _ (by omega)]
  rw [bitBehind, hbyte]
  exact ones_testBit n

theorem bitBehind_beyond (memory : Store) (ptr : Nat) (hn : 8 * size ≤ n) :
    bitBehind (memsetOnes memory ptr size) ptr n = bitBehind memory ptr n := by
  rw [bitBehind, memsetOnes, write_outside _ _ _ _ (by simp; omega), bitBehind]

end Loops

-- The page lies inside a usable entry.
def InUsable (memmap : List MmapEntry) (page : Nat) : Prop :=
  ∃ entry ∈ memmap, entry.Usable ∧ entry.Contains page

-- The page has a byte of the bitmap.
def MeetsBitmap (ptr size page : Nat) : Prop :=
  ∃ address, (ptr ≤ address ∧ address < ptr + size) ∧
    page * PAGE_SIZE ≤ address ∧ address < (page + 1) * PAGE_SIZE

-- The pages that start out free are those of the usable memory without the bitmap.
def OnlyUsableFree (memory : Store) (memmap : List MmapEntry) : Prop :=
  ∀ page, page < pagesOf memmap →
    ((initPmm memory memmap).pmm.bitmap page = false ↔
      InUsable memmap page ∧
        ¬ MeetsBitmap (initPmm memory memmap).bitmapPtr (bitmapSizeOf memmap) page)

section Accepted

variable {memmap : List MmapEntry} {entry : MmapEntry} {memory : Store} {ptr size n : Nat}

theorem meetsBitmap_iff : MeetsBitmap ptr size n ↔
    0 < size ∧ ptr < (n + 1) * PAGE_SIZE ∧ n * PAGE_SIZE < ptr + size := by
  constructor
  · intro h
    obtain ⟨address, hbitmap, hpage⟩ := h
    omega
  · intro h
    exact ⟨max ptr (n * PAGE_SIZE), by simp only [PAGE_SIZE] at *; omega⟩

theorem Accepted.top (h : Accepted memmap) (hmem : entry ∈ memmap) (husable : entry.Usable) :
    (entry.base + entry.length) % 2 ^ 32 = entry.base + entry.length :=
  Nat.mod_eq_of_lt (h.below entry hmem husable)

theorem Accepted.highest_aligned (h : Accepted memmap) :
    highestTop memmap 0 % PAGE_SIZE = 0 := by
  apply highestTop_aligned rfl
  intro entry hmem husable
  have := h.aligned entry hmem husable
  rw [h.top hmem husable]
  simp only [PAGE_SIZE] at *
  omega

theorem highestTop_lt : highestTop memmap 0 < 2 ^ 32 := by
  have hle : highestTop memmap 0 ≤ 2 ^ 32 - 1 := by
    apply highestTop_le (by omega)
    intro entry hmem husable
    omega
  omega

theorem Accepted.bitmapSize (h : Accepted memmap) : bitmapSizeOf memmap = pagesOf memmap / 8 := by
  have haligned := h.highest_aligned
  have hlt := @highestTop_lt memmap
  simp only [bitmapSizeOf, Klib.bitmapSize, divRoundup, pagesOf, PAGE_SIZE] at *
  omega

-- A page of a usable entry is below the end of the memory.
theorem Accepted.contains_lt (h : Accepted memmap) (hmem : entry ∈ memmap)
    (husable : entry.Usable) (hcontains : entry.Contains n) : n < pagesOf memmap := by
  have htop := @top_le_highestTop memmap entry 0 hmem husable
  rw [h.top hmem husable] at htop
  simp only [MmapEntry.Contains, pagesOf, PAGE_SIZE] at *
  omega

-- The bits of an entry are those of its pages.
theorem Accepted.entryBits_iff (h : Accepted memmap) (hmem : entry ∈ memmap)
    (husable : entry.Usable) : n ∈ entryBits entry ↔ entry.Contains n := by
  have := h.aligned entry hmem husable
  simp only [mem_entryBits, MmapEntry.Contains, PAGE_SIZE] at *
  omega

theorem Accepted.apart_of_split (h : Accepted memmap) {front back : List MmapEntry}
    {host : MmapEntry} (hsplit : memmap = front ++ host :: back) (hhost : host.Usable)
    (hmem : entry ∈ front ++ back) (husable : entry.Usable) :
    host.base + host.length ≤ entry.base ∨ entry.base + entry.length ≤ host.base := by
  have hapart := h.apart
  rw [hsplit, List.pairwise_append, List.pairwise_cons] at hapart
  obtain ⟨-, ⟨hback, -⟩, hfront⟩ := hapart
  cases List.mem_append.mp hmem with
  | inl hmem => exact (hfront entry hmem host (by simp) husable hhost).symm
  | inr hmem => exact hback entry hmem hhost husable

-- Where the bitmap does not fill its last page, that page lies inside the host.
theorem Accepted.last_contained (h : Accepted memmap) (hmem : entry ∈ memmap)
    (husable : entry.Usable) (hlen : size ≤ entry.length) (hrest : size % PAGE_SIZE ≠ 0) :
    entry.Contains (entry.base / PAGE_SIZE + size / PAGE_SIZE) := by
  have haligned := h.aligned entry hmem husable
  simp only [MmapEntry.Contains, PAGE_SIZE] at *
  omega

-- What `init_pmm` makes of a map: the bits that it clears are those of the free pages, and that
-- of the page with the end of the bitmap where the bitmap does not fill its last page.
theorem Accepted.hosted (h : Accepted memmap) :
    ∃ host ∈ memmap, host.Usable ∧ bitmapSizeOf memmap ≤ host.length ∧
      (hostBitmap (bitmapSizeOf memmap) memmap).1 = some host.base ∧
      ∀ n, n ∈ freedBits (hostBitmap (bitmapSizeOf memmap) memmap).2 ↔
        (InUsable memmap n ∧ ¬ MeetsBitmap host.base (bitmapSizeOf memmap) n) ∨
          (bitmapSizeOf memmap % PAGE_SIZE ≠ 0 ∧
            n = host.base / PAGE_SIZE + bitmapSizeOf memmap / PAGE_SIZE) := by
  obtain ⟨front, host, back, hsplit, husable, hlen, hosted⟩ := hostBitmap_split h.room
  have hmem : host ∈ memmap := by simp [hsplit]
  refine ⟨host, hmem, husable, hlen, by rw [hosted], ?_⟩
  intro n
  have haligned := h.aligned host hmem husable
  have hothers : ∀ entry ∈ front ++ back, entry ∈ memmap := by
    intro entry hentry
    rw [hsplit]
    simp only [List.mem_append, List.mem_cons] at hentry ⊢
    tauto
  rw [hosted, mem_freedBits, meetsBitmap_iff]
  generalize bitmapSizeOf memmap = size at *
  constructor
  · intro hfreed
    obtain ⟨entry, hentry, hentryUsable, hbits⟩ := hfreed
    by_cases hother : entry ∈ front ++ back
    · have hcontains := (h.entryBits_iff (hothers _ hother) hentryUsable).mp hbits
      have hapart := h.apart_of_split hsplit husable hother hentryUsable
      refine .inl ⟨⟨entry, hothers _ hother, hentryUsable, hcontains⟩, ?_⟩
      simp only [MmapEntry.Contains, PAGE_SIZE] at *
      omega
    · have hhost : entry =
          { host with base := host.base + size, length := host.length - size } := by
        simp only [List.mem_append, List.mem_cons] at hentry hother
        tauto
      rw [hhost, mem_entryBits] at hbits
      by_cases hlast : size % PAGE_SIZE ≠ 0 ∧ n = host.base / PAGE_SIZE + size / PAGE_SIZE
      · exact .inr hlast
      · refine .inl ⟨⟨host, hmem, husable, ?_⟩, ?_⟩
        · simp only [MmapEntry.Contains, PAGE_SIZE] at *
          omega
        · simp only [PAGE_SIZE] at *
          omega
  · intro hfree
    by_cases hhost : host.Contains n
    · refine ⟨_, List.mem_append_right _ (List.mem_cons_self ..), husable, ?_⟩
      rw [mem_entryBits]
      simp only [MmapEntry.Contains, PAGE_SIZE] at *
      omega
    · cases hfree with
      | inl hfree =>
        obtain ⟨⟨entry, hentry, hentryUsable, hcontains⟩, -⟩ := hfree
        have hother : entry ∈ front ++ back := by
          rw [hsplit] at hentry
          simp only [List.mem_append, List.mem_cons] at hentry ⊢
          cases hentry with
          | inl hfront => exact .inl hfront
          | inr hrest => exact .inr (hrest.resolve_left fun heq => hhost (heq ▸ hcontains))
        refine ⟨entry, ?_, hentryUsable, (h.entryBits_iff hentry hentryUsable).mpr hcontains⟩
        simp only [List.mem_append, List.mem_cons] at hother ⊢
        tauto
      | inr hlast => exact absurd (hlast.2 ▸ h.last_contained hmem husable hlen hlast.1) hhost

-- Which bits are clear behind `init_pmm`.
theorem Accepted.clear_iff (h : Accepted memmap) (memory : Store) :
    ∃ host ∈ memmap, host.Usable ∧ bitmapSizeOf memmap ≤ host.length ∧
      (initPmm memory memmap).bitmapPtr = host.base ∧
      ∀ n, (initPmm memory memmap).pmm.bitmap n = false ↔
        (InUsable memmap n ∧ ¬ MeetsBitmap host.base (bitmapSizeOf memmap) n) ∨
          (bitmapSizeOf memmap % PAGE_SIZE ≠ 0 ∧
            n = host.base / PAGE_SIZE + bitmapSizeOf memmap / PAGE_SIZE) ∨
          (8 * bitmapSizeOf memmap ≤ n ∧ bitBehind memory host.base n = false) := by
  obtain ⟨host, hmem, husable, hlen, hptr, hfreed⟩ := h.hosted
  have hbits : (initPmm memory memmap).pmm.bitmap =
      unsetBits (bitBehind (memsetOnes memory host.base (bitmapSizeOf memmap)) host.base)
        (freedBits (hostBitmap (bitmapSizeOf memmap) memmap).2) := by
    simp only [initPmm, bitmapSizeOf] at hptr ⊢
    rw [hptr]
  refine ⟨host, hmem, husable, hlen, ?_, fun n => ?_⟩
  · simp only [initPmm, bitmapSizeOf] at hptr ⊢
    rw [hptr]
    rfl
  · rw [hbits, unsetBits_eq, hfreed, or_assoc]
    refine or_congr_right (or_congr_right ?_)
    by_cases hn : n < 8 * bitmapSizeOf memmap
    · simp [bitBehind_memsetOnes memory host.base hn, hn]
    · rw [bitBehind_beyond memory host.base (by omega)]
      simp [Nat.le_of_not_lt hn]

-- Only the usable memory starts out free just when the bitmap fills its pages and no memory behind
-- it, which the last pages take for their bits, says that a used page is free.
theorem only_usable_free_iff (h : Accepted memmap) (memory : Store) :
    OnlyUsableFree memory memmap ↔
      bitmapSizeOf memmap % PAGE_SIZE = 0 ∧
        ∀ page, 8 * bitmapSizeOf memmap ≤ page → page < pagesOf memmap →
          bitBehind memory (initPmm memory memmap).bitmapPtr page = false →
            InUsable memmap page ∧
              ¬ MeetsBitmap (initPmm memory memmap).bitmapPtr (bitmapSizeOf memmap) page := by
  obtain ⟨host, hmem, husable, hlen, hptr, hclear⟩ := h.clear_iff memory
  rw [OnlyUsableFree, hptr]
  simp only [hclear]
  constructor
  · intro honly
    refine ⟨?_, ?_⟩
    · by_contra hrest
      -- the page with the end of the bitmap is marked free
      have hcontains := h.last_contained hmem husable hlen hrest
      have hfree := (honly _ (h.contains_lt hmem husable hcontains)).mp (.inr (.inl ⟨hrest, rfl⟩))
      apply hfree.2
      rw [meetsBitmap_iff]
      simp only [PAGE_SIZE] at *
      omega
    · intro page hbeyond hpage hbit
      exact (honly page hpage).mp (.inr (.inr ⟨hbeyond, hbit⟩))
  · intro hcond page hpage
    constructor
    · intro hfree
      obtain hfree | hlast | hbeyond := hfree
      · exact hfree
      · exact absurd hcond.1 hlast.1
      · exact hcond.2 page hbeyond.1 hpage hbeyond.2
    · exact .inl

end Accepted

-- 128 MiB with a hole below the first one: the bitmap takes a page of the low memory.
def wholeMap : List MmapEntry :=
  [⟨PAGE_SIZE, 0x9e000, STIVALE_MMAP_USABLE⟩, ⟨0x9f000, 0x61000, 2⟩,
    ⟨0x100000, 0x7f00000, STIVALE_MMAP_USABLE⟩]

theorem wholeMap_accepted : Accepted wholeMap :=
  ⟨by decide, by decide, by decide, by decide⟩

theorem only_usable_free_wholeMap :
    bitmapSizeOf wholeMap = PAGE_SIZE ∧ OnlyUsableFree (fun _ => 0) wholeMap := by
  have hsize : bitmapSizeOf wholeMap = PAGE_SIZE := by decide
  have hpages : pagesOf wholeMap = 8 * bitmapSizeOf wholeMap := by decide
  refine ⟨hsize, (only_usable_free_iff wholeMap_accepted _).mpr ⟨by decide, ?_⟩⟩
  intro page hlow hhigh
  omega

-- Nine pages, of which all but the first are usable: the bitmap has one byte.
def ninePages : List MmapEntry := [⟨PAGE_SIZE, 8 * PAGE_SIZE, STIVALE_MMAP_USABLE⟩]

theorem ninePages_accepted : Accepted ninePages := by
  constructor <;> simp [ninePages, PAGE_SIZE]
  decide

-- The page that holds the bitmap starts out free.
theorem ninePages_bitmap_free : Accepted ninePages ∧ ¬ OnlyUsableFree (fun _ => 0) ninePages := by
  refine ⟨ninePages_accepted, fun honly => ?_⟩
  have hfree : (initPmm (fun _ => 0) ninePages).pmm.bitmap 1 = false := by decide
  exact ((honly 1 (by decide)).mp hfree).2 ⟨PAGE_SIZE, by decide, by decide⟩

end EchidnaOS.Klib
