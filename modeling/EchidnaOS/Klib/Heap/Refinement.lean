import EchidnaOS.Klib.Heap.Objects
import EchidnaOS.Lib.Simulation

namespace EchidnaOS.Klib

open EchidnaOS.Lib EchidnaOS.Lib.Run EchidnaOS.Lib.Simulation

variable {heap : Heap} {live : Nat → Prop} {ptr other address size newSize page : Nat} {use next : HeapUse}

-- What the heap is for: an object is a size and the bytes from its pointer on, up to the end of
-- its last page.
structure Object where
  size : Nat
  bytes : ByteStore.Store

abbrev Objects := Nat → Option Object

def Object.zeroed (size : Nat) : Object := ⟨size, fun _ => 0⟩

-- A new object with the bytes that both sizes hold.
def Object.moved (object : Object) (newSize : Nat) : Object :=
  ⟨newSize, ByteStore.write (fun _ => 0) 0 (ByteStore.read object.bytes 0 (min object.size newSize))⟩

inductive ObjectStep : Objects → HeapCall → Objects → Prop where
  | allocFails (objects : Objects) (size : Nat) : ObjectStep objects (.alloc size) objects
  | alloc {objects : Objects} {ptr : Nat} (size : Nat) (fresh : objects ptr = none) :
      ObjectStep objects (.alloc size) (Function.update objects ptr (some (.zeroed size)))
  | reallocFails (objects : Objects) (ptr newSize : Nat) :
      ObjectStep objects (.realloc ptr newSize) objects
  | stays {objects : Objects} {ptr : Nat} {object : Object} (newSize : Nat)
      (held : objects ptr = some object)
      (pages : divRoundup object.size PAGE_SIZE = divRoundup newSize PAGE_SIZE) :
      ObjectStep objects (.realloc ptr newSize)
        (Function.update objects ptr (some { object with size := newSize }))
  | moves {objects : Objects} {ptr new : Nat} {object : Object} (newSize : Nat)
      (held : objects ptr = some object) (fresh : objects new = none) :
      ObjectStep objects (.realloc ptr newSize)
        (Function.update (Function.update objects ptr none) new (some (object.moved newSize)))
  | free (objects : Objects) (ptr : Nat) :
      ObjectStep objects (.free ptr) (Function.update objects ptr none)
  | store {objects : Objects} {ptr : Nat} {object : Object} (offset : Nat) (bytes : List UInt8)
      (held : objects ptr = some object) :
      ObjectStep objects (.store ptr offset bytes)
        (Function.update objects ptr
          (some { object with bytes := ByteStore.write object.bytes offset bytes }))

-- The object at a pointer, as the heap has it.
structure Holds (heap : Heap) (ptr : Nat) (object : Object) : Prop where
  size : (heap.metadata ptr).size = object.size
  bytes : ∀ offset, offset < (heap.metadata ptr).pages * PAGE_SIZE →
    heap.mem (ptr + offset) = object.bytes offset

structure Represents (use : HeapUse) (objects : Objects) : Prop where
  intact : UseIntact use
  live : ∀ ptr, objects ptr = none ↔ ptr ∉ use.live
  holds : ∀ ptr object, objects ptr = some object → Holds use.heap ptr object

theorem HeapOk.bytes_in (hok : HeapOk heap live) (hptr : live ptr) {offset : Nat}
    (hoffset : offset < (heap.metadata ptr).pages * PAGE_SIZE) : heap.inObject ptr (ptr + offset) := by
  have halign := hok.aligned ptr hptr
  have hpos := hok.start_pos ptr hptr
  unfold Heap.inObject pageStart Heap.pageEnd at *
  simp only [PAGE_SIZE] at *
  omega

theorem Holds.unchanged {object : Object} (hholds : Holds use.heap ptr object)
    (huse : UseIntact use) (hlive : ptr ∈ use.live) (hsame : Unchanged use next ptr) :
    Holds next.heap ptr object := by
  constructor
  · rw [hsame.metadata]
    exact hholds.size
  · intro offset hoffset
    rw [hsame.metadata] at hoffset
    rw [hsame.mem _ (huse.ok.bytes_in hlive hoffset)]
    exact hholds.bytes offset hoffset

theorem kalloc_holds (hok : HeapOk heap live) (hne : (kalloc heap size).1 ≠ 0) :
    Holds (kalloc heap size).2 (kalloc heap size).1 (.zeroed size) := by
  obtain ⟨-, -, ⟨hnull, -⟩ | ⟨page, -, hptr, -, -, -, hmeta, hmem⟩⟩ := kalloc_taken hok size
  · exact absurd hnull hne
  · constructor
    · rw [hmeta, hptr, Function.update_self]
      rfl
    · intro offset hoffset
      rw [hmeta, hptr, Function.update_self] at hoffset
      dsimp only at hoffset
      rw [hmem, hptr]
      show ByteStore.write heap.mem (page * PAGE_SIZE) _ ((page + 1) * PAGE_SIZE + offset) = 0
      have haddress : (page + 1) * PAGE_SIZE + offset = page * PAGE_SIZE + (PAGE_SIZE + offset) := by
        rw [Nat.add_mul, Nat.one_mul, Nat.add_assoc]
      have hlt : PAGE_SIZE + offset < (divRoundup size PAGE_SIZE + 1) * PAGE_SIZE := by
        rw [Nat.add_mul, Nat.one_mul]
        omega
      rw [haddress, ByteStore.write_inside]
      · simp [List.getD, hlt]
      · rw [List.length_replicate]
        exact hlt

theorem moved_inside (object : Object) {newSize offset : Nat} (hoffset : offset < min object.size newSize) :
    (object.moved newSize).bytes offset = object.bytes offset := by
  have hinside := ByteStore.write_inside (fun _ => 0) 0
    (ByteStore.read object.bytes 0 (min object.size newSize)) offset (by simpa using hoffset)
  rw [Nat.zero_add, ByteStore.read_getD _ _ _ _ hoffset, Nat.zero_add] at hinside
  exact hinside

theorem moved_behind (object : Object) {newSize offset : Nat} (hoffset : min object.size newSize ≤ offset) :
    (object.moved newSize).bytes offset = 0 := by
  apply ByteStore.write_outside
  rw [ByteStore.read_length]
  omega

-- An object that does not fit its pages any more is moved to zeroed memory.
theorem krealloc_holds {object : Object} (hok : HeapOk heap live) (hptr : live ptr)
    (hsize : (heap.metadata ptr).size ≤ MAX_SIZE) (hholds : Holds heap ptr object)
    (hne : (krealloc heap ptr newSize).1 ≠ 0) :
    (krealloc heap ptr newSize).1 = ptr ∧
        divRoundup object.size PAGE_SIZE = divRoundup newSize PAGE_SIZE ∧
        Holds (krealloc heap ptr newSize).2 ptr { object with size := newSize } ∨
      ¬live (krealloc heap ptr newSize).1 ∧
        Holds (krealloc heap ptr newSize).2 (krealloc heap ptr newSize).1 (object.moved newSize) := by
  unfold krealloc at hne ⊢
  rw [if_neg (hok.ne_zero hptr)] at hne ⊢
  by_cases hpages : divRoundup (heap.metadata ptr).size PAGE_SIZE = divRoundup newSize PAGE_SIZE
  · rw [if_pos hpages]
    refine Or.inl ⟨rfl, by rw [← hholds.size, hpages], ?_, ?_⟩
    · dsimp only
      rw [Function.update_self]
    · intro offset hoffset
      dsimp only at hoffset
      rw [Function.update_self] at hoffset
      exact hholds.bytes offset hoffset
  · rw [if_neg hpages] at hne ⊢
    by_cases hnull : (kalloc heap newSize).1 = 0
    · rw [if_pos hnull] at hne
      exact absurd rfl hne
    · rw [if_neg hnull]
      rcases kalloc_ok hok newSize with ⟨hzero, -⟩ | ⟨-, hfresh, -, -⟩
      · exact absurd hzero hnull
      have hzeroed := kalloc_holds hok hnull
      have hpagesNew : ((kalloc heap newSize).2.metadata ptr) = heap.metadata ptr := kalloc_old hok hptr newSize
      refine Or.inr ⟨hfresh, ?_, ?_⟩
      · rw [kfree_metadata]
        exact hzeroed.size
      · intro offset hoffset
        rw [kfree_metadata] at hoffset
        rw [kfree_mem]
        dsimp only at hoffset ⊢
        rw [hpagesNew, hholds.size]
        by_cases hcopied : offset < min object.size newSize
        · have hin := hok.data_in hptr hsize (Nat.le_add_right ptr offset) (by rw [hholds.size]; omega)
          have hcovered := le_divRoundup_mul hsize
          rw [← hok.pages_eq ptr hptr, hholds.size] at hcovered
          rw [ByteStore.write_inside _ _ _ _ (by simpa using hcopied),
            ByteStore.read_getD _ _ _ _ hcopied, kalloc_mem hok newSize hptr hin,
            hholds.bytes offset (by omega), moved_inside object hcopied]
        · rw [ByteStore.write_outside _ _ _ _ (by rw [ByteStore.read_length]; omega),
            hzeroed.bytes offset hoffset, moved_behind object (by omega)]
          rfl

variable {objects : Objects} {object : Object} {new : Nat}

theorem Represents.mem (hrep : Represents use objects) (hheld : objects ptr = some object) :
    ptr ∈ use.live := by
  by_contra hnot
  rw [(hrep.live ptr).mpr hnot] at hheld
  cases hheld

theorem Represents.held (hrep : Represents use objects) (hlive : ptr ∈ use.live) :
    ∃ object, objects ptr = some object := by
  rw [← Option.ne_none_iff_exists', Ne, hrep.live ptr, not_not]
  exact hlive

-- A call that puts an object at a pointer, in the place of the one it had or of another one.
theorem Represents.put (hrep : Represents use objects) (hnext : UseIntact next)
    (hlive : ∀ other, other ∈ next.live ↔ other = new ∨ other ∈ use.live ∧ other ≠ ptr)
    (hholds : Holds next.heap new object)
    (hothers : ∀ other ∈ use.live, other ≠ ptr → Unchanged use next other) :
    Represents next (Function.update (Function.update objects ptr none) new (some object)) := by
  refine ⟨hnext, ?_, ?_⟩
  · intro other
    by_cases he : other = new
    · rw [he, Function.update_self]
      exact iff_of_false (by simp) (not_not.mpr ((hlive new).mpr (Or.inl rfl)))
    · rw [Function.update_of_ne he, hlive other]
      by_cases hold : other = ptr
      · simp [hold, Ne.symm (hold ▸ Ne.symm he : new ≠ ptr)]
      · rw [Function.update_of_ne hold, hrep.live other]
        simp [he, hold]
  · intro other held hheld
    by_cases he : other = new
    · rw [he, Function.update_self] at hheld
      cases hheld
      rw [he]
      exact hholds
    · rw [Function.update_of_ne he] at hheld
      by_cases hold : other = ptr
      · rw [hold, Function.update_self] at hheld
        cases hheld
      · rw [Function.update_of_ne hold] at hheld
        have hmem := hrep.mem hheld
        exact (hrep.holds other held hheld).unchanged hrep.intact hmem (hothers other hmem hold)

theorem Represents.drop (hrep : Represents use objects) (hnext : UseIntact next)
    (hlive : ∀ other, other ∈ next.live ↔ other ∈ use.live ∧ other ≠ ptr)
    (hothers : ∀ other ∈ use.live, other ≠ ptr → Unchanged use next other) :
    Represents next (Function.update objects ptr none) := by
  refine ⟨hnext, ?_, ?_⟩
  · intro other
    by_cases he : other = ptr
    · rw [he, Function.update_self]
      exact iff_of_true rfl fun hmem => ((hlive ptr).mp hmem).2 rfl
    · rw [Function.update_of_ne he, hrep.live other, hlive other]
      simp [he]
  · intro other held hheld
    by_cases he : other = ptr
    · rw [he, Function.update_self] at hheld
      cases hheld
    · rw [Function.update_of_ne he] at hheld
      have hmem := hrep.mem hheld
      exact (hrep.holds other held hheld).unchanged hrep.intact hmem (hothers other hmem he)

theorem Represents.alloc (hrep : Represents use objects) {size : Nat} (hsize : size ≤ MAX_SIZE)
    (hstep : heapStep use (.alloc size) = some next) :
    ∃ after, ObjectStep objects (.alloc size) after ∧ Represents next after := by
  have hnext := hrep.intact.alloc hsize hstep
  have hallowed : HeapAllowed use (.alloc size) := hsize
  have hothers : ∀ other ∈ use.live, Unchanged use next other :=
    fun other hmem => hrep.intact.others hallowed hstep hmem (by simp [HeapCall.target])
  have hok := hrep.intact.ok
  simp only [heapStep, Option.some.injEq] at hstep
  by_cases hnull : (kalloc use.heap size).1 = 0
  · refine ⟨objects, .allocFails objects size, hnext, ?_, ?_⟩
    · intro ptr
      rw [← hstep]
      dsimp only
      rw [if_pos hnull]
      exact hrep.live ptr
    · intro ptr object hheld
      have hmem := hrep.mem hheld
      exact (hrep.holds ptr object hheld).unchanged hrep.intact hmem (hothers ptr hmem)
  · rcases kalloc_ok hok size with ⟨hzero, -⟩ | ⟨-, hfresh, -, -⟩
    · exact absurd hzero hnull
    have hnone := (hrep.live _).mpr hfresh
    refine ⟨_, .alloc size hnone, ?_⟩
    have hlive : ∀ other, other ∈ next.live ↔ other = (kalloc use.heap size).1 ∨
        other ∈ use.live ∧ other ≠ (kalloc use.heap size).1 := by
      intro other
      rw [← hstep]
      dsimp only
      rw [if_neg hnull, List.mem_cons]
      constructor
      · rintro (heq | hmem)
        · exact Or.inl heq
        · exact Or.inr ⟨hmem, fun heq => hfresh (heq ▸ hmem)⟩
      · rintro (heq | ⟨hmem, -⟩)
        · exact Or.inl heq
        · exact Or.inr hmem
    have hholds : Holds next.heap (kalloc use.heap size).1 (.zeroed size) := by
      rw [← hstep]
      exact kalloc_holds hok hnull
    have hput := hrep.put hnext hlive hholds fun other hmem _ => hothers other hmem
    rwa [Function.update_idem] at hput

theorem Represents.realloc (hrep : Represents use objects) (hptr : ptr ∈ use.live)
    (hsize : newSize ≤ MAX_SIZE) (hstep : heapStep use (.realloc ptr newSize) = some next) :
    ∃ after, ObjectStep objects (.realloc ptr newSize) after ∧ Represents next after := by
  have hnext := hrep.intact.realloc hptr hsize hstep
  have hallowed : HeapAllowed use (.realloc ptr newSize) := ⟨hptr, hsize⟩
  have hothers : ∀ other ∈ use.live, other ≠ ptr → Unchanged use next other :=
    fun other hmem hne => hrep.intact.others hallowed hstep hmem fun heq =>
      hne (Option.some.inj heq).symm
  obtain ⟨object, hheld⟩ := hrep.held hptr
  have hok := hrep.intact.ok
  by_cases hnull : (krealloc use.heap ptr newSize).1 = 0
  · have hsame := hrep.intact.refused hptr hsize hnull hstep
    refine ⟨objects, .reallocFails objects ptr newSize, hnext, ?_, ?_⟩
    · intro other
      simp only [heapStep, Option.some.injEq] at hstep
      rw [← hstep]
      dsimp only
      rw [if_pos hnull]
      exact hrep.live other
    · intro other held hother
      have hmem := hrep.mem hother
      apply (hrep.holds other held hother).unchanged hrep.intact hmem
      by_cases he : other = ptr
      · rw [he]
        exact hsame
      · exact hothers other hmem he
  · have hlive : ∀ other, other ∈ next.live ↔ other = (krealloc use.heap ptr newSize).1 ∨
        other ∈ use.live ∧ other ≠ ptr := by
      intro other
      simp only [heapStep, Option.some.injEq] at hstep
      rw [← hstep]
      dsimp only
      rw [if_neg hnull, List.mem_cons, hrep.intact.nodup.mem_erase_iff, and_comm]
    simp only [heapStep, Option.some.injEq] at hstep
    have hheap : next.heap = (krealloc use.heap ptr newSize).2 := by
      rw [← hstep]
    rcases krealloc_holds hok hptr (hrep.intact.sizes ptr hptr) (hrep.holds ptr object hheld) hnull with
      ⟨hsame, hpages, hholds⟩ | ⟨hfresh, hholds⟩
    · rw [← hheap] at hholds
      rw [hsame] at hlive
      have hput := hrep.put hnext hlive hholds hothers
      rw [Function.update_idem] at hput
      exact ⟨_, .stays newSize hheld hpages, hput⟩
    · rw [← hheap] at hholds
      exact ⟨_, .moves newSize hheld ((hrep.live _).mpr hfresh), hrep.put hnext hlive hholds hothers⟩

theorem Represents.free (hrep : Represents use objects) (hptr : ptr ∈ use.live)
    (hstep : heapStep use (.free ptr) = some next) :
    ∃ after, ObjectStep objects (.free ptr) after ∧ Represents next after := by
  have hnext := hrep.intact.free hptr hstep
  have hallowed : HeapAllowed use (.free ptr) := hptr
  refine ⟨_, .free objects ptr, hrep.drop hnext ?_ ?_⟩
  · intro other
    simp only [heapStep, Option.some.injEq] at hstep
    rw [← hstep]
    dsimp only
    rw [hrep.intact.nodup.mem_erase_iff, and_comm]
  · intro other hmem hne
    exact hrep.intact.others hallowed hstep hmem fun heq => hne (Option.some.inj heq).symm

theorem Represents.store (hrep : Represents use objects) {offset : Nat} {bytes : List UInt8}
    (hallowed : HeapAllowed use (.store ptr offset bytes))
    (hstep : heapStep use (.store ptr offset bytes) = some next) :
    ∃ after, ObjectStep objects (.store ptr offset bytes) after ∧ Represents next after := by
  have hnext := hrep.intact.step hallowed hstep
  have hothers : ∀ other ∈ use.live, other ≠ ptr → Unchanged use next other :=
    fun other hmem hne => hrep.intact.others hallowed hstep hmem fun heq =>
      hne (Option.some.inj heq).symm
  obtain ⟨hptr, hfits⟩ := hallowed
  obtain ⟨object, hheld⟩ := hrep.held hptr
  have hholds := hrep.holds ptr object hheld
  simp only [heapStep, Option.some.injEq] at hstep
  subst hstep
  have hlive : ∀ other, other ∈ use.live ↔ other = ptr ∨ other ∈ use.live ∧ other ≠ ptr := by
    intro other
    by_cases he : other = ptr
    · simp [he, hptr]
    · simp [he]
  have hwritten : Holds { use.heap with mem := ByteStore.write use.heap.mem (ptr + offset) bytes } ptr
      { object with bytes := ByteStore.write object.bytes offset bytes } := by
    refine ⟨hholds.size, ?_⟩
    intro index hindex
    have hbyte := hholds.bytes index hindex
    by_cases hin : offset ≤ index ∧ index < offset + bytes.length
    · obtain ⟨position, rfl⟩ := Nat.exists_eq_add_of_le hin.1
      dsimp only
      rw [← Nat.add_assoc, ByteStore.write_inside _ _ _ _ (by omega),
        ByteStore.write_inside _ _ _ _ (by omega)]
    · dsimp only
      rw [ByteStore.write_outside _ _ _ _ (by omega), ByteStore.write_outside _ _ _ _ (by omega)]
      exact hbyte
  have hput := hrep.put hnext hlive hwritten hothers
  rw [Function.update_idem] at hput
  exact ⟨_, .store offset bytes hheld, hput⟩

theorem Represents.step (hrep : Represents use objects) {call : HeapCall}
    (hallowed : HeapAllowed use call) (hstep : heapStep use call = some next) :
    ∃ after, ObjectStep objects call after ∧ Represents next after := by
  cases call with
  | alloc size => exact hrep.alloc hallowed hstep
  | realloc ptr newSize => exact hrep.realloc hallowed.1 hallowed.2 hstep
  | free ptr => exact hrep.free hallowed hstep
  | store ptr offset bytes => exact hrep.store hallowed hstep

-- The heap behaves as a store of byte arrays: each is zero up to the end of its pages until its
-- holder writes it, keeps what was written, and never shows what an earlier owner of the
-- memory left.
theorem heap_refines_objects (hzero : heap.pmm.bitmap 0 = true)
    (hlast : heap.pmm.lastUsedIndex ≤ heap.pmm.pageLimit) (hhigh : heap.pmm.highestPage < 2 ^ 32)
    {calls : List HeapCall} (hguard : Guarded heapStep HeapAllowed ⟨heap, []⟩ calls)
    (hrun : run heapStep ⟨heap, []⟩ calls = some use) :
    ∃ objects, Follows ObjectStep (fun _ => none) calls objects ∧ Represents use objects := by
  have hstart : Represents ⟨heap, []⟩ fun _ => none := by
    refine ⟨.start hzero hlast hhigh, fun _ => iff_of_true rfl List.not_mem_nil, ?_⟩
    intro ptr object hheld
    cases hheld
  exact simulation (fun _ _ _ _ hrep hallowed hstep => hrep.step hallowed hstep) hstart hguard hrun

theorem growing_calls_follow : ∃ use objects, run heapStep ⟨sixteenPages, []⟩ growingCalls = some use ∧
    Follows ObjectStep (fun _ => none) growingCalls objects ∧ Represents use objects := by
  have hguard : Guarded heapStep HeapAllowed ⟨sixteenPages, []⟩ growingCalls := by decide +kernel
  have hsome : (run heapStep ⟨sixteenPages, []⟩ growingCalls).isSome = true := by decide +kernel
  obtain ⟨use, huse⟩ := Option.isSome_iff_exists.mp hsome
  obtain ⟨objects, hfollows, hrep⟩ :=
    heap_refines_objects (by decide) (by decide) (by decide) hguard huse
  exact ⟨use, objects, huse, hfollows, hrep⟩

-- The pages in use are those of the start and those of the live objects.
structure Accounts (first : Pmm) (heap : Heap) (live : Nat → Prop) : Prop where
  bits : ∀ page, heap.pmm.bitmap page = true ↔ first.bitmap page = true ∨
    ∃ ptr, live ptr ∧ pageStart ptr ≤ page ∧ page < heap.pageEnd ptr
  clear : ∀ ptr, live ptr → ∀ page, pageStart ptr ≤ page → page < heap.pageEnd ptr →
    first.bitmap page = false

variable {first : Pmm}

theorem Accounts.congr {after : Heap} {others : Nat → Prop} (haccounts : Accounts first heap live)
    (hbits : after.pmm.bitmap = heap.pmm.bitmap) (hlive : ∀ ptr, others ptr ↔ live ptr)
    (hends : ∀ ptr, live ptr → after.pageEnd ptr = heap.pageEnd ptr) :
    Accounts first after others := by
  constructor
  · intro page
    rw [hbits, haccounts.bits page]
    apply or_congr_right
    apply exists_congr
    intro ptr
    rw [hlive]
    apply and_congr_right
    intro hptr
    rw [hends ptr hptr]
  · intro ptr hptr page hlow hend
    rw [hlive] at hptr
    rw [hends ptr hptr] at hend
    exact haccounts.clear ptr hptr page hlow hend

theorem Accounts.kalloc (haccounts : Accounts first heap live) (hok : HeapOk heap live)
    (hne : (kalloc heap size).1 ≠ 0) :
    Accounts first (kalloc heap size).2 fun ptr => live ptr ∨ ptr = (kalloc heap size).1 := by
  rcases kalloc_ok hok size with ⟨hzero, -⟩ | ⟨-, hfresh, -, -⟩
  · exact absurd hzero hne
  obtain ⟨-, -, ⟨hnull, -⟩ | ⟨start, hstart, hptr, -, hfree, hbitmap, hmeta, -⟩⟩ := kalloc_taken hok size
  · exact absurd hnull hne
  have hends : ∀ ptr, live ptr → (Klib.kalloc heap size).2.pageEnd ptr = heap.pageEnd ptr := by
    intro ptr hlive
    rw [Heap.pageEnd, Heap.pageEnd, kalloc_old hok hlive]
  have hrange : ∀ page, (pageStart (Klib.kalloc heap size).1 ≤ page ∧
      page < (Klib.kalloc heap size).2.pageEnd (Klib.kalloc heap size).1) ↔
      start ≤ page ∧ page < start + (divRoundup size PAGE_SIZE + 1) := by
    intro page
    rw [Heap.pageEnd, pageStart, hmeta, hptr, Function.update_self, PAGE_SIZE,
      Nat.mul_div_cancel _ (by decide : 0 < 4096)]
    dsimp only
    omega
  constructor
  · intro page
    rw [hbitmap]
    by_cases hin : start ≤ page ∧ page < start + (divRoundup size PAGE_SIZE + 1)
    · rw [mark_inside _ _ _ _ _ hin.1 hin.2]
      exact iff_of_true rfl (Or.inr ⟨_, Or.inr rfl, (hrange page).mpr hin⟩)
    · rw [mark_outside _ _ _ _ _ (by omega), haccounts.bits page]
      apply or_congr_right
      constructor
      · rintro ⟨ptr, hlive, hlow, hend⟩
        exact ⟨ptr, Or.inl hlive, hlow, by rw [hends ptr hlive]; exact hend⟩
      · rintro ⟨ptr, hlive | rfl, hlow, hend⟩
        · exact ⟨ptr, hlive, hlow, by rw [← hends ptr hlive]; exact hend⟩
        · exact absurd ((hrange page).mp ⟨hlow, hend⟩) hin
  · rintro ptr (hlive | rfl) page hlow hend
    · rw [hends ptr hlive] at hend
      exact haccounts.clear ptr hlive page hlow hend
    · obtain ⟨hlow', hend'⟩ := (hrange page).mp ⟨hlow, hend⟩
      -- a page that was in use at first is not free
      have hclear := hfree page hlow' hend'
      by_contra hset
      rw [(haccounts.bits page).mpr (Or.inl (Bool.not_eq_false _ ▸ hset))] at hclear
      cases hclear

theorem Accounts.kfree (haccounts : Accounts first heap live) (hok : HeapOk heap live) (hptr : live ptr) :
    Accounts first (kfree heap ptr) fun other => live other ∧ other ≠ ptr := by
  constructor
  · intro page
    rw [kfree_bits hok hptr]
    by_cases hin : pageStart ptr ≤ page ∧ page < heap.pageEnd ptr
    · rw [mark_inside _ _ _ _ _ hin.1 hin.2, haccounts.clear ptr hptr page hin.1 hin.2]
      refine iff_of_false (by simp) ?_
      rintro (hfalse | ⟨other, ⟨hother, hne⟩, hlow, hend⟩)
      · cases hfalse
      · rw [kfree_pageEnd] at hend
        have hsep := hok.disjoint other ptr hother hptr hne
        omega
    · rw [mark_outside _ _ _ _ _ (by omega), haccounts.bits page]
      apply or_congr_right
      constructor
      · rintro ⟨other, hother, hlow, hend⟩
        refine ⟨other, ⟨hother, ?_⟩, hlow, by rw [kfree_pageEnd]; exact hend⟩
        rintro rfl
        exact hin ⟨hlow, hend⟩
      · rintro ⟨other, ⟨hother, -⟩, hlow, hend⟩
        rw [kfree_pageEnd] at hend
        exact ⟨other, hother, hlow, hend⟩
  · rintro other ⟨hother, -⟩ page hlow hend
    rw [kfree_pageEnd] at hend
    exact haccounts.clear other hother page hlow hend

theorem kalloc_null (hok : HeapOk heap live) (hnull : (kalloc heap size).1 = 0) :
    (kalloc heap size).2.pmm.bitmap = heap.pmm.bitmap ∧
      (kalloc heap size).2.metadata = heap.metadata := by
  obtain ⟨-, -, ⟨-, hbitmap, hmeta, -⟩ | ⟨start, hstart, hptr, -⟩⟩ := kalloc_taken hok size
  · exact ⟨hbitmap, hmeta⟩
  · rw [hnull] at hptr
    simp only [PAGE_SIZE] at hptr
    omega

theorem Accounts.krealloc (haccounts : Accounts first heap live) (hok : HeapOk heap live)
    (hptr : live ptr) :
    Accounts first (krealloc heap ptr newSize).2 fun other =>
      if (krealloc heap ptr newSize).1 = 0 then live other
      else other = (krealloc heap ptr newSize).1 ∨ live other ∧ other ≠ ptr := by
  have hne := hok.ne_zero hptr
  unfold Klib.krealloc
  rw [if_neg hne]
  by_cases hpages : divRoundup (heap.metadata ptr).size PAGE_SIZE = divRoundup newSize PAGE_SIZE
  · rw [if_pos hpages]
    refine haccounts.congr rfl ?_ ?_
    · intro other
      dsimp only
      rw [if_neg hne]
      by_cases he : other = ptr
      · simp [he, hptr]
      · simp [he]
    · intro other _
      unfold Heap.pageEnd
      dsimp only
      by_cases he : other = ptr
      · rw [he, Function.update_self]
      · rw [Function.update_of_ne he]
  · rw [if_neg hpages]
    by_cases hnull : (Klib.kalloc heap newSize).1 = 0
    · obtain ⟨hbitmap, hmeta⟩ := kalloc_null hok hnull
      rw [if_pos hnull]
      refine haccounts.congr hbitmap (fun other => by simp) fun other _ => ?_
      rw [Heap.pageEnd, Heap.pageEnd, hmeta]
    · rw [if_neg hnull]
      dsimp only
      rcases kalloc_ok hok newSize with ⟨hzero, -⟩ | ⟨-, hfresh, hnext, -⟩
      · exact absurd hzero hnull
      let copied : Heap := { Klib.kalloc heap newSize |>.2 with
        mem := ByteStore.write (Klib.kalloc heap newSize).2.mem (Klib.kalloc heap newSize).1
          (ByteStore.read (Klib.kalloc heap newSize).2.mem ptr
            (min ((Klib.kalloc heap newSize).2.metadata ptr).size newSize)) }
      have hcopied : HeapOk copied fun other => live other ∨ other = (Klib.kalloc heap newSize).1 :=
        hnext.of_same rfl rfl hnext.last_le (fun _ => rfl) hnext.pages_eq
      have hgrown : Accounts first copied fun other => live other ∨ other = (Klib.kalloc heap newSize).1 :=
        (haccounts.kalloc hok hnull).congr rfl (fun _ => Iff.rfl) fun _ _ => rfl
      have hnewPtr : (Klib.kalloc heap newSize).1 ≠ ptr := fun he => hfresh (he ▸ hptr)
      refine (hgrown.kfree hcopied (Or.inl hptr)).congr rfl ?_ fun _ _ => rfl
      intro other
      rw [if_neg hnull]
      by_cases he : other = (Klib.kalloc heap newSize).1
      · simp [he, hnewPtr]
      · simp [he]

theorem Accounts.step (haccounts : Accounts first use.heap (· ∈ use.live)) (huse : UseIntact use)
    {call : HeapCall} (hallowed : HeapAllowed use call) (hstep : heapStep use call = some next) :
    Accounts first next.heap (· ∈ next.live) := by
  cases call with
  | alloc size =>
      simp only [heapStep, Option.some.injEq] at hstep
      subst hstep
      dsimp only
      split
      · rename_i hnull
        obtain ⟨hbitmap, hmeta⟩ := kalloc_null huse.ok hnull
        refine haccounts.congr hbitmap (fun _ => Iff.rfl) fun other _ => ?_
        rw [Heap.pageEnd, Heap.pageEnd, hmeta]
      · rename_i hne
        refine (haccounts.kalloc huse.ok hne).congr rfl ?_ fun _ _ => rfl
        intro other
        rw [List.mem_cons, or_comm]
  | realloc ptr newSize =>
      simp only [heapStep, Option.some.injEq] at hstep
      subst hstep
      refine (haccounts.krealloc huse.ok hallowed.1).congr rfl ?_ fun _ _ => rfl
      intro other
      dsimp only
      split
      · exact Iff.rfl
      · rw [List.mem_cons, huse.nodup.mem_erase_iff, and_comm]
  | free ptr =>
      simp only [heapStep, Option.some.injEq] at hstep
      subst hstep
      refine (haccounts.kfree huse.ok hallowed).congr rfl ?_ fun _ _ => rfl
      intro other
      rw [huse.nodup.mem_erase_iff, and_comm]
  | store ptr offset bytes =>
      simp only [heapStep, Option.some.injEq] at hstep
      subst hstep
      exact haccounts.congr rfl (fun _ => Iff.rfl) fun _ _ => rfl

-- No page is lost: the pages in use are those that were at first and those of the live objects,
-- with their metadata pages, so once everything is freed the bitmap is as it was at first.
theorem heap_loses_no_page (hzero : heap.pmm.bitmap 0 = true)
    (hlast : heap.pmm.lastUsedIndex ≤ heap.pmm.pageLimit) (hhigh : heap.pmm.highestPage < 2 ^ 32)
    {calls : List HeapCall} (hguard : Guarded heapStep HeapAllowed ⟨heap, []⟩ calls)
    (hrun : run heapStep ⟨heap, []⟩ calls = some use) :
    Accounts heap.pmm use.heap (· ∈ use.live) ∧
      (use.live = [] → use.heap.pmm.bitmap = heap.pmm.bitmap) := by
  have hstart : UseIntact ⟨heap, []⟩ ∧ Accounts heap.pmm heap (· ∈ ([] : List Nat)) := by
    refine ⟨.start hzero hlast hhigh, ?_, ?_⟩
    · simp
    · simp
  have hkeep : ∀ use call next, UseIntact use ∧ Accounts heap.pmm use.heap (· ∈ use.live) →
      HeapAllowed use call → heapStep use call = some next →
      UseIntact next ∧ Accounts heap.pmm next.heap (· ∈ next.live) :=
    fun use call next hinv hallowed hstep =>
      ⟨hinv.1.step hallowed hstep, hinv.2.step hinv.1 hallowed hstep⟩
  have hfinal := run_invariant hkeep hstart hguard hrun
  refine ⟨hfinal.2, ?_⟩
  intro hempty
  funext page
  have hbits := hfinal.2.bits page
  simp only [hempty, List.not_mem_nil, false_and, exists_false, or_false] at hbits
  exact Bool.eq_iff_iff.mpr hbits

-- The grown object and the empty one are given back.
theorem grown_objects_given_back :
    ∃ use, run heapStep ⟨sixteenPages, []⟩
        (growingCalls ++ [.free (5 * PAGE_SIZE), .free (4 * PAGE_SIZE)]) = some use ∧
      use.heap.pmm.bitmap = sixteenPages.pmm.bitmap := by
  have hguard : Guarded heapStep HeapAllowed ⟨sixteenPages, []⟩
      (growingCalls ++ [.free (5 * PAGE_SIZE), .free (4 * PAGE_SIZE)]) := by decide +kernel
  have hrun : (run heapStep ⟨sixteenPages, []⟩
      (growingCalls ++ [.free (5 * PAGE_SIZE), .free (4 * PAGE_SIZE)])).map (·.live) = some [] := by
    decide +kernel
  obtain ⟨use, huse, hlive⟩ := Option.map_eq_some_iff.mp hrun
  exact ⟨use, huse, (heap_loses_no_page (by decide) (by decide) (by decide) hguard huse).2 hlive⟩

end EchidnaOS.Klib
