import EchidnaOS.Klib.Heap.Theorems
import EchidnaOS.Lib.Run

namespace EchidnaOS.Klib

open EchidnaOS.Lib EchidnaOS.Lib.Run

variable {heap : Heap} {live : Nat → Prop} {ptr other address size : Nat}

-- The addresses of an object, from its metadata page on.
def Heap.inObject (heap : Heap) (ptr address : Nat) : Prop :=
  pageStart ptr * PAGE_SIZE ≤ address ∧ address < heap.pageEnd ptr * PAGE_SIZE

def MAX_SIZE : Nat := 2 ^ 32 - PAGE_SIZE

-- The rounding does not wrap for the sizes that callers ask for.
theorem divRoundup_eq (hsize : size ≤ MAX_SIZE) :
    divRoundup size PAGE_SIZE = (size + (PAGE_SIZE - 1)) / PAGE_SIZE := by
  unfold divRoundup
  simp only [MAX_SIZE, PAGE_SIZE] at hsize ⊢
  rw [Nat.mod_eq_of_lt (by omega)]

theorem le_divRoundup_mul (hsize : size ≤ MAX_SIZE) :
    size ≤ divRoundup size PAGE_SIZE * PAGE_SIZE := by
  rw [divRoundup_eq hsize]
  simp only [PAGE_SIZE]
  omega

theorem HeapOk.apart_address (hok : HeapOk heap live) (hptr : live ptr) (hother : live other)
    (hne : ptr ≠ other) (hin : heap.inObject ptr address) : ¬heap.inObject other address := by
  intro hin'
  obtain ⟨hlow, hhigh⟩ := hin
  obtain ⟨hlow', hhigh'⟩ := hin'
  have hsep := hok.disjoint ptr other hptr hother hne
  simp only [PAGE_SIZE] at hlow hhigh hlow' hhigh'
  omega

-- The bytes the holder of an object may use.
theorem HeapOk.data_in (hok : HeapOk heap live) (hptr : live ptr)
    (hsize : (heap.metadata ptr).size ≤ MAX_SIZE) (hlow : ptr ≤ address)
    (hhigh : address < ptr + (heap.metadata ptr).size) : heap.inObject ptr address := by
  have hpages := le_divRoundup_mul hsize
  have halign := hok.aligned ptr hptr
  have hpos := hok.start_pos ptr hptr
  rw [← hok.pages_eq ptr hptr] at hpages
  unfold Heap.inObject pageStart Heap.pageEnd at *
  simp only [PAGE_SIZE] at *
  omega

theorem kalloc_mem (hok : HeapOk heap live) (size : Nat) (hptr : live ptr)
    (hin : heap.inObject ptr address) : (kalloc heap size).2.mem address = heap.mem address := by
  obtain ⟨-, -, ⟨-, -, -, hmem⟩ | ⟨page, -, -, -, hfree, -, -, hmem⟩⟩ := kalloc_taken hok size
  · rw [hmem]
  · have hapart := hok.apart_of_free hptr hfree (Nat.succ_pos _)
    obtain ⟨hlow, hhigh⟩ := hin
    rw [hmem]
    apply ByteStore.write_outside
    rw [List.length_replicate]
    simp only [PAGE_SIZE] at hlow hhigh hapart ⊢
    omega

theorem kalloc_null_mem (hok : HeapOk heap live) (hnull : (kalloc heap size).1 = 0) :
    (kalloc heap size).2.mem = heap.mem := by
  obtain ⟨-, -, ⟨-, -, -, hmem⟩ | ⟨page, -, hne, -⟩⟩ := kalloc_taken hok size
  · exact hmem
  · rw [hnull] at hne
    simp only [PAGE_SIZE] at hne
    omega

-- krealloc by its three outcomes.
theorem krealloc_cases (hok : HeapOk heap live) (hptr : live ptr) (newSize : Nat) :
    (krealloc heap ptr newSize).1 = ptr ∧ (krealloc heap ptr newSize).2.mem = heap.mem ∨
    (krealloc heap ptr newSize).1 = 0 ∧ (krealloc heap ptr newSize).2.mem = heap.mem ∨
    (krealloc heap ptr newSize).1 = (kalloc heap newSize).1 ∧ (kalloc heap newSize).1 ≠ 0 ∧
      (krealloc heap ptr newSize).2.mem =
        ByteStore.write (kalloc heap newSize).2.mem (kalloc heap newSize).1
          (ByteStore.read (kalloc heap newSize).2.mem ptr
            (min ((kalloc heap newSize).2.metadata ptr).size newSize)) := by
  unfold krealloc
  rw [if_neg (hok.ne_zero hptr)]
  by_cases hpages : divRoundup (heap.metadata ptr).size PAGE_SIZE = divRoundup newSize PAGE_SIZE
  · rw [if_pos hpages]
    exact Or.inl ⟨rfl, rfl⟩
  · rw [if_neg hpages]
    by_cases hnull : (kalloc heap newSize).1 = 0
    · rw [if_pos hnull]
      exact Or.inr (Or.inl ⟨rfl, kalloc_null_mem hok hnull⟩)
    · rw [if_neg hnull]
      exact Or.inr (Or.inr ⟨rfl, hnull, kfree_mem _ _⟩)

-- The old object is as it was until the copy is made.
theorem kalloc_old (hok : HeapOk heap live) (hptr : live ptr) (size : Nat) :
    (kalloc heap size).2.metadata ptr = heap.metadata ptr := by
  rcases kalloc_ok hok size with ⟨-, -, hmeta⟩ | ⟨-, hfresh, -, hmeta⟩
  · rw [hmeta]
  · rw [hmeta, Function.update_of_ne]
    intro heq
    exact hfresh (heq ▸ hptr)

theorem krealloc_bytes (hok : HeapOk heap live) (hptr : live ptr)
    (hsize : (heap.metadata ptr).size ≤ MAX_SIZE) (newSize : Nat)
    (hne : (krealloc heap ptr newSize).1 ≠ 0) :
    ByteStore.read (krealloc heap ptr newSize).2.mem (krealloc heap ptr newSize).1
      (min (heap.metadata ptr).size newSize) =
    ByteStore.read heap.mem ptr (min (heap.metadata ptr).size newSize) := by
  rcases krealloc_cases hok hptr newSize with ⟨hsame, hmem⟩ | ⟨hnull, -⟩ | ⟨hnew, -, hmem⟩
  · rw [hsame, hmem]
  · exact absurd hnull hne
  · rw [hnew, hmem, kalloc_old hok hptr, ByteStore.read_write_same _ _ _ _ (by simp)]
    apply ByteStore.read_congr
    intro address hlow hhigh
    exact kalloc_mem hok newSize hptr (hok.data_in hptr hsize hlow (by omega))

-- The copy stays inside the new object.
theorem krealloc_mem (hok : HeapOk heap live) (hptr : live ptr) {newSize : Nat}
    (hsize : newSize ≤ MAX_SIZE) (hother : live other)
    (hin : heap.inObject other address) :
    (krealloc heap ptr newSize).2.mem address = heap.mem address := by
  rcases krealloc_cases hok hptr newSize with ⟨-, hmem⟩ | ⟨-, hmem⟩ | ⟨-, hnull, hmem⟩
  · rw [hmem]
  · rw [hmem]
  · rw [hmem, ByteStore.write_outside]
    · exact kalloc_mem hok newSize hother hin
    · rw [ByteStore.read_length]
      rcases kalloc_ok hok newSize with ⟨hzero, -⟩ | ⟨-, hfresh, hnext, hmeta⟩
      · exact absurd hzero hnull
      · by_contra hmeet
        have hnewSize : ((kalloc heap newSize).2.metadata (kalloc heap newSize).1).size = newSize := by
          rw [hmeta, Function.update_self]
        have hnew : (kalloc heap newSize).2.inObject (kalloc heap newSize).1 address :=
          hnext.data_in (Or.inr rfl) (by rw [hnewSize]; exact hsize) (by omega)
            (by rw [hnewSize]; omega)
        have hold : (kalloc heap newSize).2.inObject other address := by
          unfold Heap.inObject Heap.pageEnd
          rw [kalloc_old hok hother]
          exact hin
        refine hnext.apart_address (Or.inl hother) (Or.inr rfl) ?_ hold hnew
        intro heq
        exact hfresh (heq ▸ hother)

-- The heap with the objects its users hold.
structure HeapUse where
  heap : Heap
  live : List Nat := []

-- `store` is a write of the object's holder.
inductive HeapCall where
  | alloc (size : Nat)
  | realloc (ptr newSize : Nat)
  | free (ptr : Nat)
  | store (ptr offset : Nat) (bytes : List UInt8)

def heapStep (use : HeapUse) : HeapCall → Option HeapUse
  | .alloc size =>
      let result := kalloc use.heap size
      some { heap := result.2, live := if result.1 = 0 then use.live else result.1 :: use.live }
  | .realloc ptr newSize =>
      let result := krealloc use.heap ptr newSize
      some { heap := result.2
             live := if result.1 = 0 then use.live else result.1 :: use.live.erase ptr }
  | .free ptr => some { heap := kfree use.heap ptr, live := use.live.erase ptr }
  | .store ptr offset bytes =>
      some { use with heap.mem := ByteStore.write use.heap.mem (ptr + offset) bytes }

-- The pointers passed are those of live objects, and writes stay inside the size.
def HeapAllowed (use : HeapUse) : HeapCall → Prop
  | .alloc size => size ≤ MAX_SIZE
  | .realloc ptr newSize => ptr ∈ use.live ∧ newSize ≤ MAX_SIZE
  | .free ptr => ptr ∈ use.live
  | .store ptr offset bytes =>
      ptr ∈ use.live ∧ offset + bytes.length ≤ (use.heap.metadata ptr).size

instance decidableHeapAllowed (use : HeapUse) (call : HeapCall) : Decidable (HeapAllowed use call) :=
  match call with
  | .alloc size => inferInstanceAs (Decidable (size ≤ MAX_SIZE))
  | .realloc ptr newSize => inferInstanceAs (Decidable (ptr ∈ use.live ∧ newSize ≤ MAX_SIZE))
  | .free ptr => inferInstanceAs (Decidable (ptr ∈ use.live))
  | .store ptr offset bytes => inferInstanceAs (Decidable (ptr ∈ use.live ∧
      offset + bytes.length ≤ (use.heap.metadata ptr).size))

def HeapCall.target : HeapCall → Option Nat
  | .alloc _ => none
  | .realloc ptr _ => some ptr
  | .free ptr => some ptr
  | .store ptr _ _ => some ptr

-- The state between two calls.
structure UseIntact (use : HeapUse) : Prop where
  ok : HeapOk use.heap (· ∈ use.live)
  nodup : use.live.Nodup
  sizes : ∀ ptr ∈ use.live, (use.heap.metadata ptr).size ≤ MAX_SIZE

variable {use next : HeapUse}

theorem UseIntact.start (hzero : heap.pmm.bitmap 0 = true)
    (hlast : heap.pmm.lastUsedIndex ≤ heap.pmm.pageLimit) (hhigh : heap.pmm.highestPage < 2 ^ 32) :
    UseIntact ⟨heap, []⟩ := by
  have hlimit : heap.pmm.pageLimit < 2 ^ 20 := by
    simp only [Pmm.pageLimit, PAGE_SIZE]
    omega
  have hnone : ∀ ptr : Nat, ¬ptr ∈ ([] : List Nat) := fun _ => List.not_mem_nil
  refine ⟨⟨hzero, hlast, hlimit, ?_, ?_, ?_, ?_, ?_, ?_⟩, List.nodup_nil, ?_⟩
  all_goals
    intro ptr
    intros
    exact absurd ‹ptr ∈ _› (hnone ptr)

theorem UseIntact.alloc (huse : UseIntact use) {size : Nat} (hsize : size ≤ MAX_SIZE)
    (hstep : heapStep use (.alloc size) = some next) : UseIntact next := by
  simp only [heapStep, Option.some.injEq] at hstep
  subst hstep
  rcases kalloc_ok huse.ok size with ⟨hnull, hok, hmeta⟩ | ⟨hne, hfresh, hok, hmeta⟩
  · rw [if_pos hnull]
    exact ⟨hok, huse.nodup, fun ptr hmem => by rw [hmeta]; exact huse.sizes ptr hmem⟩
  · rw [if_neg hne]
    refine ⟨hok.congr ?_, List.nodup_cons.mpr ⟨hfresh, huse.nodup⟩, ?_⟩
    · intro ptr hmem
      rcases List.mem_cons.mp hmem with heq | hmem
      · exact Or.inr heq
      · exact Or.inl hmem
    · intro ptr hmem
      rcases List.mem_cons.mp hmem with rfl | hmem
      · rw [hmeta, Function.update_self]
        exact hsize
      · rw [kalloc_old huse.ok hmem]
        exact huse.sizes ptr hmem

theorem UseIntact.realloc (huse : UseIntact use) {ptr newSize : Nat} (hptr : ptr ∈ use.live)
    (hsize : newSize ≤ MAX_SIZE) (hstep : heapStep use (.realloc ptr newSize) = some next) :
    UseIntact next := by
  simp only [heapStep, Option.some.injEq] at hstep
  subst hstep
  rcases krealloc_ok huse.ok ptr newSize hptr with
    ⟨hnull, hok, hmeta⟩ | ⟨hne, hwhere, hok, hnewSize, hmeta⟩
  · rw [if_pos hnull]
    exact ⟨hok, huse.nodup, fun other hmem => by rw [hmeta]; exact huse.sizes other hmem⟩
  · rw [if_neg hne]
    have herase : ∀ other, other ∈ use.live.erase ptr ↔ other ≠ ptr ∧ other ∈ use.live :=
      fun other => huse.nodup.mem_erase_iff
    refine ⟨hok.congr ?_, List.nodup_cons.mpr ⟨?_, huse.nodup.erase ptr⟩, ?_⟩
    · intro other hmem
      rcases List.mem_cons.mp hmem with heq | hmem
      · exact Or.inr heq
      · obtain ⟨hother, hmem⟩ := (herase other).mp hmem
        exact Or.inl ⟨hmem, hother⟩
    · intro hmem
      obtain ⟨hother, hmem⟩ := (herase _).mp hmem
      rcases hwhere with hsame | hfresh
      · exact hother hsame
      · exact hfresh hmem
    · intro other hmem
      rcases List.mem_cons.mp hmem with rfl | hmem
      · rw [hnewSize]
        exact hsize
      · obtain ⟨hother, hmem⟩ := (herase other).mp hmem
        by_cases hsame : other = (krealloc use.heap ptr newSize).1
        · rw [hsame, hnewSize]
          exact hsize
        · rw [hmeta other hsame]
          exact huse.sizes other hmem

theorem UseIntact.free (huse : UseIntact use) {ptr : Nat} (hptr : ptr ∈ use.live)
    (hstep : heapStep use (.free ptr) = some next) : UseIntact next := by
  simp only [heapStep, Option.some.injEq] at hstep
  subst hstep
  refine ⟨(kfree_ok huse.ok ptr hptr).congr ?_, huse.nodup.erase ptr, ?_⟩
  · intro other hmem
    obtain ⟨hne, hmem⟩ := huse.nodup.mem_erase_iff.mp hmem
    exact ⟨hmem, hne⟩
  · intro other hmem
    rw [kfree_metadata]
    exact huse.sizes other (List.mem_of_mem_erase hmem)

theorem UseIntact.step (huse : UseIntact use) {call : HeapCall} (hallowed : HeapAllowed use call)
    (hstep : heapStep use call = some next) : UseIntact next := by
  cases call with
  | alloc size => exact huse.alloc hallowed hstep
  | realloc ptr newSize => exact huse.realloc hallowed.1 hallowed.2 hstep
  | free ptr => exact huse.free hallowed hstep
  | store ptr offset bytes =>
      simp only [heapStep, Option.some.injEq] at hstep
      subst hstep
      exact ⟨huse.ok.of_same rfl rfl huse.ok.last_le (fun _ => rfl) huse.ok.pages_eq, huse.nodup,
        huse.sizes⟩

-- A write of the holder of one object, seen from another.
theorem UseIntact.store_apart (huse : UseIntact use) {ptr offset : Nat} {bytes : List UInt8}
    (hptr : ptr ∈ use.live) (hfits : offset + bytes.length ≤ (use.heap.metadata ptr).size)
    {other : Nat} (hother : other ∈ use.live) (hne : other ≠ ptr)
    (hin : use.heap.inObject other address) :
    ByteStore.write use.heap.mem (ptr + offset) bytes address = use.heap.mem address := by
  apply ByteStore.write_outside
  by_contra hmeet
  have hdata : use.heap.inObject ptr address :=
    huse.ok.data_in hptr (huse.sizes ptr hptr) (by omega) (by omega)
  exact huse.ok.apart_address hother hptr hne hin hdata

-- What a call does to an object it is not about.
structure Unchanged (use next : HeapUse) (other : Nat) : Prop where
  live : other ∈ next.live
  metadata : next.heap.metadata other = use.heap.metadata other
  mem : ∀ address, use.heap.inObject other address → next.heap.mem address = use.heap.mem address

theorem UseIntact.others (huse : UseIntact use) {call : HeapCall} (hallowed : HeapAllowed use call)
    (hstep : heapStep use call = some next) {other : Nat} (hother : other ∈ use.live)
    (htarget : call.target ≠ some other) : Unchanged use next other := by
  cases call with
  | alloc size =>
      simp only [heapStep, Option.some.injEq] at hstep
      subst hstep
      refine ⟨?_, kalloc_old huse.ok hother size, fun address => kalloc_mem huse.ok size hother⟩
      split
      · exact hother
      · exact List.mem_cons_of_mem _ hother
  | realloc ptr newSize =>
      have hne : other ≠ ptr := fun heq => htarget (congrArg some heq.symm)
      simp only [heapStep, Option.some.injEq] at hstep
      subst hstep
      refine ⟨?_, ?_, fun address => krealloc_mem huse.ok hallowed.1 hallowed.2 hother⟩
      · split
        · exact hother
        · exact List.mem_cons_of_mem _ ((List.mem_erase_of_ne hne).mpr hother)
      · rcases krealloc_ok huse.ok ptr newSize hallowed.1 with
          ⟨-, -, hmeta⟩ | ⟨-, hwhere, -, -, hmeta⟩
        · exact congrFun hmeta other
        · refine hmeta other fun heq => ?_
          rcases hwhere with hsame | hfresh
          · exact hne (heq.trans hsame)
          · exact hfresh (heq ▸ hother)
  | free ptr =>
      have hne : other ≠ ptr := fun heq => htarget (congrArg some heq.symm)
      simp only [heapStep, Option.some.injEq] at hstep
      subst hstep
      refine ⟨(List.mem_erase_of_ne hne).mpr hother, ?_, fun _ _ => ?_⟩
      · rw [kfree_metadata]
      · rw [kfree_mem]
  | store ptr offset bytes =>
      have hne : other ≠ ptr := fun heq => htarget (congrArg some heq.symm)
      simp only [heapStep, Option.some.injEq] at hstep
      subst hstep
      exact ⟨hother, rfl, fun address => huse.store_apart hallowed.1 hallowed.2 hother hne⟩

-- What holds of the objects in every state.
structure ObjectsIntact (use : HeapUse) : Prop where
  apart : ∀ first ∈ use.live, ∀ second ∈ use.live, first ≠ second →
    ∀ address, ¬(use.heap.inObject first address ∧ use.heap.inObject second address)
  pages : ∀ ptr ∈ use.live, (use.heap.metadata ptr).pages =
    ((use.heap.metadata ptr).size + (PAGE_SIZE - 1)) / PAGE_SIZE
  used : ∀ ptr ∈ use.live, ∀ page, pageStart ptr ≤ page →
    page < pageStart ptr + ((use.heap.metadata ptr).pages + 1) → use.heap.pmm.bitmap page = true
  freed : ∀ ptr ∈ use.live, ∀ page, (kfree use.heap ptr).pmm.bitmap page =
    if pageStart ptr ≤ page ∧ page < pageStart ptr + ((use.heap.metadata ptr).pages + 1) then false
    else use.heap.pmm.bitmap page
  resized : ∀ ptr ∈ use.live, ∀ newSize, newSize ≤ MAX_SIZE →
    (krealloc use.heap ptr newSize).1 ≠ 0 →
    ByteStore.read (krealloc use.heap ptr newSize).2.mem (krealloc use.heap ptr newSize).1
      (min (use.heap.metadata ptr).size newSize) =
    ByteStore.read use.heap.mem ptr (min (use.heap.metadata ptr).size newSize)
  refused : ∀ ptr ∈ use.live, ∀ newSize, newSize ≤ MAX_SIZE →
    (krealloc use.heap ptr newSize).1 = 0 →
    ∀ next, heapStep use (.realloc ptr newSize) = some next → Unchanged use next ptr
  stores : ∀ ptr ∈ use.live, ∀ offset (bytes : List UInt8),
    offset + bytes.length ≤ (use.heap.metadata ptr).size →
    ∀ other ∈ use.live, other ≠ ptr → ∀ address, use.heap.inObject other address →
      ByteStore.write use.heap.mem (ptr + offset) bytes address = use.heap.mem address
  others : ∀ call next, HeapAllowed use call → heapStep use call = some next →
    ∀ other ∈ use.live, call.target ≠ some other → Unchanged use next other

theorem UseIntact.refused (huse : UseIntact use) {ptr newSize : Nat} (hptr : ptr ∈ use.live)
    (hsize : newSize ≤ MAX_SIZE) (hnull : (krealloc use.heap ptr newSize).1 = 0)
    (hstep : heapStep use (.realloc ptr newSize) = some next) : Unchanged use next ptr := by
  simp only [heapStep, Option.some.injEq] at hstep
  subst hstep
  refine ⟨?_, ?_, fun address => krealloc_mem huse.ok hptr hsize hptr⟩
  · rw [if_pos hnull]
    exact hptr
  · rcases krealloc_ok huse.ok ptr newSize hptr with ⟨-, -, hmeta⟩ | ⟨hne, -⟩
    · exact congrFun hmeta ptr
    · exact absurd hnull hne

theorem UseIntact.intact (huse : UseIntact use) : ObjectsIntact use := by
  have hend : ∀ ptr ∈ use.live,
      pageStart ptr + ((use.heap.metadata ptr).pages + 1) = use.heap.pageEnd ptr := by
    intro ptr hptr
    have hpos := huse.ok.start_pos ptr hptr
    unfold pageStart Heap.pageEnd at *
    omega
  constructor
  · intro first hfirst second hsecond hne address hboth
    exact huse.ok.apart_address hfirst hsecond hne hboth.1 hboth.2
  · intro ptr hptr
    rw [huse.ok.pages_eq ptr hptr, divRoundup_eq (huse.sizes ptr hptr)]
  · intro ptr hptr page hlow hhigh
    rw [hend ptr hptr] at hhigh
    exact huse.ok.used ptr hptr page hlow hhigh
  · intro ptr hptr page
    rw [hend ptr hptr, kfree_bits huse.ok hptr]
    rfl
  · intro ptr hptr newSize _ hne
    exact krealloc_bytes huse.ok hptr (huse.sizes ptr hptr) newSize hne
  · intro ptr hptr newSize hsize hnull next hstep
    exact huse.refused hptr hsize hnull hstep
  · intro ptr hptr offset bytes hfits other hother hne address hin
    exact huse.store_apart hptr hfits hother hne hin
  · intro call next hallowed hstep other hother htarget
    exact huse.others hallowed hstep hother htarget

-- After any calls and writes, from a heap that has handed out nothing.
theorem heap_keeps_objects_intact (hzero : heap.pmm.bitmap 0 = true)
    (hlast : heap.pmm.lastUsedIndex ≤ heap.pmm.pageLimit) (hhigh : heap.pmm.highestPage < 2 ^ 32)
    {calls : List HeapCall} (hguard : Guarded heapStep HeapAllowed ⟨heap, []⟩ calls)
    (hrun : run heapStep ⟨heap, []⟩ calls = some use) : ObjectsIntact use := by
  have huse : UseIntact use := run_invariant
    (fun _ _ _ huse hallowed hstep => UseIntact.step huse hallowed hstep)
    (UseIntact.start hzero hlast hhigh) hguard hrun
  exact huse.intact

def sixteenPages : Heap where
  pmm := { bitmap := fun page => page = 0, lastUsedIndex := 0, highestPage := 16 * PAGE_SIZE }
  metadata _ := ⟨0, 0⟩
  mem _ := 255

-- An object of three bytes that grows past an empty one.
def growingCalls : List HeapCall :=
  [.alloc 3, .store (2 * PAGE_SIZE) 1 [7, 8], .alloc 0, .realloc (2 * PAGE_SIZE) 5000]

theorem grown_object_keeps_bytes :
    ∃ use, run heapStep ⟨sixteenPages, []⟩ growingCalls = some use ∧
      use.live = [5 * PAGE_SIZE, 4 * PAGE_SIZE] ∧
      ByteStore.read use.heap.mem (5 * PAGE_SIZE) 3 = [0, 7, 8] ∧ ObjectsIntact use := by
  have hguard : Guarded heapStep HeapAllowed ⟨sixteenPages, []⟩ growingCalls := by decide +kernel
  have hrun : (run heapStep ⟨sixteenPages, []⟩ growingCalls).map
      (fun use => (use.live, ByteStore.read use.heap.mem (5 * PAGE_SIZE) 3)) =
      some ([5 * PAGE_SIZE, 4 * PAGE_SIZE], [0, 7, 8]) := by decide +kernel
  obtain ⟨use, huse, hresult⟩ := Option.map_eq_some_iff.mp hrun
  obtain ⟨hlive, hbytes⟩ := Prod.mk.inj hresult
  exact ⟨use, huse, hlive, hbytes,
    heap_keeps_objects_intact (by decide) (by decide) (by decide) hguard huse⟩

end EchidnaOS.Klib
