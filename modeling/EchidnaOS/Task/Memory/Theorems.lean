import EchidnaOS.Lib.Run
import EchidnaOS.Task.Memory
import EchidnaOS.Task.Table

namespace EchidnaOS

open EchidnaOS.Lib EchidnaOS.Lib.Run EchidnaOS.Klib

variable {k next : Kernel} {owner owner' : Nat → Option Owner} {pid address ptr : Nat} {task : Task}
  {ldts : Nat → Prop}

theorem MemoryOk.ne_zero (hok : MemoryOk ldts k) (hactive : k.isActive pid = true) : pid ≠ 0 := by
  rintro rfl
  obtain ⟨address, task, hslot, hstatus⟩ := hok.kernelTask
  simp [Kernel.isActive, hslot, Slot.status, hstatus] at hactive

-- The invariant gives the property: the tags of two tasks differ, so their blocks do.
theorem MemoryOk.segmentsOwned (hok : MemoryOk ldts k) : SegmentsOwned k := by
  obtain ⟨owner, howned⟩ := hok.owned
  have hheap : HeapOk k.heap fun ptr => owner ptr ≠ none := howned.tagged
  have hbounds : ∀ pid address task, pid ≠ 0 → k.taskTable pid = .task address task →
      owner task.base ≠ none ∧ task.base = task.base / PAGE_SIZE * PAGE_SIZE ∧
      task.base + (k.heap.metadata task.base).size = k.heap.pageEnd task.base * PAGE_SIZE ∧
      pageStart task.base * PAGE_SIZE ≤ task.base := by
    intro pid address task hpid hslot
    have htask := howned.tasks pid address task hslot
    have hsized := htask.sized hpid
    have hlive : owner task.base ≠ none := by
      rw [htask.image hpid]
      exact Option.some_ne_none _
    have haligned := hheap.aligned task.base hlive
    have hpages := hheap.pages_eq task.base hlive
    have hmod := hsized.size_mod
    have hlt := hsized.size_lt
    simp only [pageStart, Heap.pageEnd, divRoundup, PAGE_SIZE] at *
    refine ⟨hlive, by omega, by omega, by omega⟩
  intro pid address task hpid hslot
  obtain ⟨hlive, hbase, hend, hstart⟩ := hbounds pid address task hpid hslot
  refine ⟨((howned.tasks pid address task hslot).sized hpid).pages_le, ?_, ?_⟩
  · intro page hlow hhigh
    apply hheap.used task.base hlive page
    · simp only [PAGE_SIZE] at *
      omega
    · rw [hend] at hhigh
      exact Nat.lt_of_mul_lt_mul_right hhigh
  · intro other address' task' hother hne hslot'
    obtain ⟨hlive', hbase', hend', hstart'⟩ := hbounds other address' task' hother hslot'
    have hbases : task.base ≠ task'.base := by
      intro he
      have htag := (howned.tasks pid address task hslot).image hpid
      rw [he, (howned.tasks other address' task' hslot').image hother] at htag
      cases htag
      exact hne rfl
    rw [hend, hend']
    rcases hheap.disjoint task.base task'.base hlive hlive' hbases with hbefore | hafter
    · left
      exact (Nat.mul_le_mul_right PAGE_SIZE hbefore).trans hstart'
    · right
      exact (Nat.mul_le_mul_right PAGE_SIZE hafter).trans hstart

theorem ImageSized.of_metadata {heap other : Heap} {task' : Task} (hsized : ImageSized heap task)
    (hmeta : other.metadata task'.base = heap.metadata task.base)
    (hpages : task'.pages = task.pages) (hbase : task'.heapBase = task.heapBase) :
    ImageSized other task' where
  pages_le := by rw [hmeta, hpages]; exact hsized.pages_le
  size_mod := by rw [hmeta]; exact hsized.size_mod
  size_lt := by rw [hmeta]; exact hsized.size_lt
  heapBase_mod := by rw [hbase]; exact hsized.heapBase_mod

theorem TaskOwned.keep {heap other : Heap} (htask : TaskOwned heap owner pid address task)
    (hkept : Kept (fun tag => tag.pid = some pid) heap other owner owner') :
    TaskOwned other owner' pid address task where
  entry := (hkept _ _ rfl htask.entry).1
  handles h := (hkept _ _ rfl (htask.handles h)).1
  handlesV2 h := (hkept _ _ rfl (htask.handlesV2 h)).1
  image h := (hkept _ _ rfl (htask.image h)).1
  sized h := (htask.sized h).of_metadata (hkept _ _ rfl (htask.image h)).2 rfl rfl
  record := by rw [(hkept _ _ rfl htask.entry).2]; exact htask.record

theorem Owner.inTable_of_pid {tag : Owner} (hpid : tag.pid = some pid) : tag.inTable = true := by
  cases tag <;> simp_all [Owner.pid, Owner.inTable]

theorem Owned.kept_arrays (howned : Owned ldts k owner) {heap : Heap} {keep : Owner → Prop}
    (hkept : Kept keep k.heap heap owner owner') (hkeep : ∀ ptr, keep (.ldt ptr)) :
    ∀ ptr, ldts ptr → owner' ptr = some (.ldt ptr) ∧
      divRoundup (heap.metadata ptr).size PAGE_SIZE = 1 := by
  intro ptr hldt
  obtain ⟨htag, hone⟩ := howned.arrays ptr hldt
  obtain ⟨htag', hmeta⟩ := hkept ptr (.ldt ptr) (hkeep ptr) htag
  exact ⟨htag', by rw [hmeta]; exact hone⟩

-- Whatever happens to the heap, the tasks own what they owned if their objects were kept.
theorem Owned.of_kept (howned : Owned ldts k owner) {heap : Heap} {others : Nat → Nat}
    (htagged : Tagged heap owner')
    (hkept : Kept (fun tag => tag.inTable = true) k.heap heap owner owner')
    (hothers : ∀ name, others name ≠ 0 → owner' (others name) = some (.other name)) :
    Owned ldts ⟨heap, k.taskTable, others⟩ owner' where
  tagged := htagged
  others := hothers
  tasks pid address task hslot := (howned.tasks pid address task hslot).keep
    (hkept.mono fun _ htag => Owner.inTable_of_pid htag)
  arrays := howned.kept_arrays hkept fun _ => rfl

theorem Owner.named_eq_false {tag : Owner} (htable : tag.inTable = true) : tag.named = false := by
  cases tag <;> simp_all [Owner.inTable, Owner.named]

theorem Owned.kept_others (howned : Owned ldts k owner) {heap : Heap} {name : Nat}
    (hkept : Kept (· ≠ Owner.other name) k.heap heap owner owner') (other : Nat)
    (hne : other ≠ name) (hother : k.others other ≠ 0) :
    owner' (k.others other) = some (.other other) :=
  (hkept _ _ (fun he => hne (Owner.other.inj he)) (howned.others other hother)).1

theorem Owned.request (howned : Owned ldts k owner) (req : Request) :
    ∃ owner', Owned ldts (k.request req) owner' ∧
      Kept (fun tag => tag.named = false) k.heap (k.request req).heap owner owner' := by
  have hnamed : ∀ name tag, Owner.named tag = false → tag ≠ .other name := by
    intro name tag htag he
    simp [he, Owner.named] at htag
  cases req with
  | alloc name size =>
      simp only [Kernel.request]
      split
      · rename_i hnull
        rcases howned.tagged.alloc size (.other name) with
          ⟨hzero, htagged, hmeta⟩ | ⟨hne, hfresh, htagged, -, hkept⟩
        · have hkept : Kept (fun _ => True) k.heap (kalloc k.heap size).2 owner owner :=
            fun ptr tag _ h => ⟨h, by rw [hmeta]⟩
          refine ⟨owner, howned.of_kept htagged (hkept.mono fun _ _ => trivial) ?_,
            hkept.mono fun _ _ => trivial⟩
          intro other hother
          by_cases he : other = name
          · simp [he, hzero] at hother
          · rw [Function.update_of_ne he] at hother ⊢
            exact howned.others other hother
        · refine ⟨_, howned.of_kept htagged (hkept.mono fun _ _ => trivial) ?_,
            hkept.mono fun _ _ => trivial⟩
          intro other hother
          by_cases he : other = name
          · subst he
            simp
          · rw [Function.update_of_ne he] at hother ⊢
            exact (hkept _ _ trivial (howned.others other hother)).1
      · exact ⟨owner, howned, .refl _ _ _⟩
  | resize name size =>
      simp only [Kernel.request]
      split
      · exact ⟨owner, howned, .refl _ _ _⟩
      · rename_i hname
        rcases howned.tagged.realloc (howned.others name hname) size with
          ⟨hzero, htagged, hmeta⟩ | ⟨hne, htagged, -, hkept⟩
        · rw [if_pos hzero]
          have hkept : Kept (fun _ => True) k.heap (krealloc k.heap (k.others name) size).2
            owner owner := fun ptr tag _ h => ⟨h, by rw [hmeta]⟩
          exact ⟨owner, howned.of_kept htagged (hkept.mono fun _ _ => trivial) howned.others,
            hkept.mono fun _ _ => trivial⟩
        · rw [if_neg hne]
          refine ⟨_, howned.of_kept htagged (hkept.mono fun tag htag =>
            hnamed name tag (Owner.named_eq_false htag)) ?_, hkept.mono (hnamed name)⟩
          intro other hother
          by_cases he : other = name
          · subst he
            simp
          · rw [Function.update_of_ne he] at hother ⊢
            exact howned.kept_others hkept other he hother
  | free name =>
      simp only [Kernel.request]
      split
      · exact ⟨owner, howned, .refl _ _ _⟩
      · rename_i hname
        have htag := howned.others name hname
        have hkept : Kept (· ≠ Owner.other name) k.heap (kfree k.heap (k.others name)) owner
            (Function.update owner (k.others name) none) := by
          intro ptr tag hne howner
          have hptr : ptr ≠ k.others name := by
            rintro rfl
            rw [htag] at howner
            exact hne (Option.some.inj howner).symm
          exact ⟨by rw [Function.update_of_ne hptr, howner], by rw [kfree_metadata]⟩
        refine ⟨_, howned.of_kept (howned.tagged.free (by rw [htag]; exact Option.some_ne_none _))
          (hkept.mono fun tag htag => hnamed name tag (Owner.named_eq_false htag)) ?_,
          hkept.mono (hnamed name)⟩
        intro other hother
        by_cases he : other = name
        · simp [he] at hother
        · rw [Function.update_of_ne he] at hother ⊢
          exact howned.kept_others hkept other he hother

theorem Owned.requests (howned : Owned ldts k owner) (reqs : List Request) :
    ∃ owner', Owned ldts (k.requests reqs) owner' ∧
      Kept (fun tag => tag.named = false) k.heap (k.requests reqs).heap owner owner' := by
  induction reqs generalizing k owner with
  | nil => exact ⟨owner, howned, .refl _ _ _⟩
  | cons req rest ih =>
      obtain ⟨middle, howned', hkept⟩ := howned.request req
      obtain ⟨last, howned'', hkept'⟩ := ih howned'
      exact ⟨last, howned'', hkept.trans hkept'⟩

theorem TaskOwned.congr {heap : Heap} {task' : Task}
    (htask : TaskOwned heap owner pid address task) (hbase : task'.base = task.base)
    (hpages : task'.pages = task.pages) (hheap : task'.heapBase = task.heapBase)
    (hhandles : task'.fileHandles = task.fileHandles)
    (hhandlesV2 : task'.fileHandlesV2 = task.fileHandlesV2) :
    TaskOwned heap owner pid address task' where
  entry := htask.entry
  handles h := by rw [hhandles] at h ⊢; exact htask.handles h
  handlesV2 h := by rw [hhandlesV2] at h ⊢; exact htask.handlesV2 h
  image h := by rw [hbase]; exact htask.image h
  sized h := (htask.sized h).of_metadata (by rw [hbase]) hpages hheap
  record := htask.record

theorem Owned.setMem (howned : Owned ldts k owner) (mem : ByteStore.Store) :
    Owned ldts { k with heap.mem := mem } owner :=
  howned.of_kept (howned.tagged.setMem mem) (fun _ _ _ h => ⟨h, rfl⟩) howned.others

theorem Owned.setTask (howned : Owned ldts k owner)
    (htask : TaskOwned k.heap owner pid address task) : Owned ldts (k.setTask pid address task) owner where
  tagged := howned.tagged
  others := howned.others
  tasks other address' task' hslot := by
    by_cases he : other = pid
    · subst he
      rw [setTask_same] at hslot
      cases hslot
      exact htask
    · rw [setTask_other he] at hslot
      exact howned.tasks other address' task' hslot
  arrays := howned.arrays

-- A new object starts out in a local variable.
theorem Owned.alloc (howned : Owned ldts k owner) (size : Nat) :
    ((kalloc k.heap size).1 = 0 ∧ Owned ldts { k with heap := (kalloc k.heap size).2 } owner ∧
      Kept (fun _ => True) k.heap (kalloc k.heap size).2 owner owner) ∨
    ((kalloc k.heap size).1 ≠ 0 ∧ owner (kalloc k.heap size).1 = none ∧
      Owned ldts { k with heap := (kalloc k.heap size).2 }
        (Function.update owner (kalloc k.heap size).1 (some .loose)) ∧
      ((kalloc k.heap size).2.metadata (kalloc k.heap size).1).size = size ∧
      Kept (fun _ => True) k.heap (kalloc k.heap size).2 owner
        (Function.update owner (kalloc k.heap size).1 (some .loose))) := by
  rcases howned.tagged.alloc size .loose with
    ⟨hzero, htagged, hmeta⟩ | ⟨hne, hfresh, htagged, hsize, hkept⟩
  · have hkept : Kept (fun _ => True) k.heap (kalloc k.heap size).2 owner owner :=
      fun ptr tag _ h => ⟨h, by rw [hmeta]⟩
    exact Or.inl ⟨hzero, howned.of_kept htagged (hkept.mono fun _ _ => trivial) howned.others, hkept⟩
  · refine Or.inr ⟨hne, hfresh, howned.of_kept htagged (hkept.mono fun _ _ => trivial) ?_,
      hsize, hkept⟩
    intro name hname
    exact (hkept _ _ trivial (howned.others name hname)).1

-- An object may be freed when no table entry refers to it any more.
theorem Owned.free (howned : Owned ldts k owner) {tag : Owner} (htag : owner ptr = some tag)
    (hnamed : tag.named = false) (hldt : ∀ array, tag ≠ .ldt array)
    (hgone : ∀ pid, tag.pid = some pid → (k.taskTable pid).status = none) :
    Owned ldts { k with heap := kfree k.heap ptr } (Function.update owner ptr none) where
  tagged := howned.tagged.free (by rw [htag]; exact Option.some_ne_none tag)
  others name hname := by
    have hother := howned.others name hname
    have hne : k.others name ≠ ptr := by
      intro he
      rw [he, htag] at hother
      simp [Option.some.inj hother, Owner.named] at hnamed
    rw [Function.update_of_ne hne, hother]
  tasks pid address task hslot := by
    refine (howned.tasks pid address task hslot).keep ?_
    intro other tag' hpid hother
    have hne : other ≠ ptr := by
      rintro rfl
      rw [htag] at hother
      cases hother
      exact free_ne_task (hgone pid hpid) address task hslot
    exact ⟨by rw [Function.update_of_ne hne, hother], by rw [kfree_metadata]⟩
  arrays array harray := by
    obtain ⟨harrayTag, hone⟩ := howned.arrays array harray
    have hne : array ≠ ptr := by
      rintro rfl
      rw [htag] at harrayTag
      exact hldt array (Option.some.inj harrayTag)
    exact ⟨by rw [Function.update_of_ne hne, harrayTag], by rw [kfree_metadata]; exact hone⟩

theorem Owned.freeNull (howned : Owned ldts k owner) :
    Owned ldts { k with heap := kfree k.heap 0 } owner :=
  howned.of_kept (kfree_null_ok howned.tagged) (fun _ _ _ h => ⟨h, by rw [kfree_metadata]⟩)
    howned.others

theorem give_self {tag : Owner} (hne : ptr ≠ 0) : give owner ptr tag ptr = some tag := by
  simp [give, hne]

theorem give_keeps {tag tag' : Owner} {other : Nat} (hloose : ptr ≠ 0 → owner ptr = some .loose)
    (hother : owner other = some tag') (hne : tag' ≠ .loose) :
    give owner ptr tag other = some tag' := by
  unfold give
  split
  · exact hother
  · rename_i hnull
    have hptr : other ≠ ptr := by
      rintro rfl
      rw [hloose hnull] at hother
      exact hne (Option.some.inj hother).symm
    rw [Function.update_of_ne hptr, hother]

theorem Owned.given (howned : Owned ldts k owner) (hloose : ptr ≠ 0 → owner ptr = some .loose)
    (tag : Owner) : Owned ldts k (give owner ptr tag) := by
  have htagged : Tagged k.heap (give owner ptr tag) := by
    unfold give
    split
    · exact howned.tagged
    · rename_i hnull
      exact howned.tagged.retag (by rw [hloose hnull]; exact Option.some_ne_none _) tag
  apply howned.of_kept htagged
  · intro other tag' hpid hother
    exact ⟨give_keeps hloose hother (by rintro rfl; cases hpid), rfl⟩
  · intro name hname
    exact give_keeps hloose (howned.others name hname) (by simp)

theorem Held.cons {ptrs : List Nat} (hheld : Held owner ptrs) (hfresh : owner ptr = none) :
    Held (Function.update owner ptr (some .loose)) (ptr :: ptrs) := by
  have hne : ∀ other ∈ ptrs, other ≠ 0 → other ≠ ptr := by
    rintro other hmem hnull rfl
    rw [hheld.loose other hmem hnull] at hfresh
    cases hfresh
  constructor
  · intro other hmem hnull
    rcases List.mem_cons.mp hmem with rfl | hmem
    · simp
    · rw [Function.update_of_ne (hne other hmem hnull)]
      exact hheld.loose other hmem hnull
  · by_cases hnull : ptr = 0
    · simpa [hnull] using hheld.nodup
    · rw [List.filter_cons_of_pos (by simpa using hnull), List.nodup_cons]
      refine ⟨?_, hheld.nodup⟩
      intro hmem
      rw [List.mem_filter] at hmem
      exact hne ptr hmem.1 hnull rfl

theorem Held.consNull {ptrs : List Nat} (hheld : Held owner ptrs) : Held owner (0 :: ptrs) := by
  constructor
  · intro other hmem hnull
    rcases List.mem_cons.mp hmem with rfl | hmem
    · exact absurd rfl hnull
    · exact hheld.loose other hmem hnull
  · simpa using hheld.nodup

theorem Held.sublist {ptrs fewer : List Nat} (hheld : Held owner ptrs)
    (hsub : fewer.Sublist ptrs) : Held owner fewer :=
  ⟨fun ptr hmem => hheld.loose ptr (hsub.subset hmem),
    hheld.nodup.sublist (hsub.filter _)⟩

theorem Held.perm {ptrs others : List Nat} (hheld : Held owner ptrs) (hperm : ptrs.Perm others) :
    Held owner others :=
  ⟨fun ptr hmem => hheld.loose ptr (hperm.mem_iff.mpr hmem),
    (hperm.filter _).nodup_iff.mp hheld.nodup⟩

theorem Held.nil (owner : Nat → Option Owner) : Held owner [] :=
  ⟨fun _ hmem => absurd hmem List.not_mem_nil, List.nodup_nil⟩

theorem Held.kept {heap other : Heap} {ptrs : List Nat} (hheld : Held owner ptrs)
    (hkept : Kept (fun tag => tag.named = false) heap other owner owner') : Held owner' ptrs :=
  ⟨fun ptr hmem hnull => (hkept ptr .loose rfl (hheld.loose ptr hmem hnull)).1, hheld.nodup⟩

theorem Held.head {ptrs : List Nat} (hheld : Held owner (ptr :: ptrs)) :
    ptr ≠ 0 → owner ptr = some .loose :=
  hheld.loose ptr List.mem_cons_self

theorem Held.given {ptrs : List Nat} (hheld : Held owner (ptr :: ptrs)) (tag : Owner) :
    Held (give owner ptr tag) ptrs := by
  have htail := hheld.sublist (List.sublist_cons_self ptr ptrs)
  refine ⟨?_, htail.nodup⟩
  intro other hmem hnull
  unfold give
  split
  · exact htail.loose other hmem hnull
  · rename_i hptr
    have hne : other ≠ ptr := by
      rintro rfl
      have hnodup := hheld.nodup
      rw [List.filter_cons_of_pos (by simpa using hptr), List.nodup_cons] at hnodup
      exact hnodup.1 (List.mem_filter.mpr ⟨hmem, by simpa using hptr⟩)
    rw [Function.update_of_ne hne]
    exact htail.loose other hmem hnull

theorem Owned.freeLoose (howned : Owned ldts k owner) (hloose : owner ptr = some .loose) :
    Owned ldts { k with heap := kfree k.heap ptr } (Function.update owner ptr none) :=
  howned.free hloose rfl nofun (fun _ hpid => by cases hpid)

theorem Held.freed {ptrs : List Nat} (hheld : Held owner (ptr :: ptrs)) (hnull : ptr ≠ 0) :
    Held (Function.update owner ptr none) ptrs := by
  have htail := hheld.sublist (List.sublist_cons_self ptr ptrs)
  have hnodup := hheld.nodup
  rw [List.filter_cons_of_pos (by simpa using hnull), List.nodup_cons] at hnodup
  refine ⟨?_, htail.nodup⟩
  intro other hmem hother
  have hne : other ≠ ptr := by
    rintro rfl
    exact hnodup.1 (List.mem_filter.mpr ⟨hmem, by simpa using hnull⟩)
  rw [Function.update_of_ne hne]
  exact htail.loose other hmem hother

theorem Owned.freeAll {ptrs : List Nat} (howned : Owned ldts k owner) (hheld : Held owner ptrs) :
    ∃ owner', Owned ldts { k with heap := kfreeAll k.heap ptrs } owner' := by
  induction ptrs generalizing k owner with
  | nil => exact ⟨owner, howned⟩
  | cons ptr rest ih =>
      by_cases hnull : ptr = 0
      · subst hnull
        exact ih howned.freeNull (hheld.sublist (List.sublist_cons_self 0 rest))
      · exact ih (howned.freeLoose (hheld.head hnull)) (hheld.freed hnull)

-- A new array of descriptors is apart from those there are.
theorem Owned.newArray (howned : Owned ldts k owner)
    {size : Nat} (hone : divRoundup size PAGE_SIZE = 1) :
    ((kalloc k.heap size).1 = 0 ∧ Owned ldts { k with heap := (kalloc k.heap size).2 } owner) ∨
    ((kalloc k.heap size).1 ≠ 0 ∧ ¬ldts (kalloc k.heap size).1 ∧
      ∃ owner', Owned (fun ptr => ldts ptr ∨ ptr = (kalloc k.heap size).1)
        { k with heap := (kalloc k.heap size).2 } owner') := by
  rcases howned.alloc size with ⟨hzero, hnext, -⟩ | ⟨hne, hfresh, hnext, hsize, -⟩
  · exact Or.inl ⟨hzero, hnext⟩
  · have hloose : Function.update owner (kalloc k.heap size).1 (some Owner.loose)
        (kalloc k.heap size).1 = some .loose := Function.update_self _ _ _
    have hgiven := hnext.given (fun _ => hloose) (.ldt (kalloc k.heap size).1)
    refine Or.inr ⟨hne, ?_, _, ⟨hgiven.tagged, hgiven.others, hgiven.tasks, ?_⟩⟩
    · intro hldt
      rw [(howned.arrays _ hldt).1] at hfresh
      cases hfresh
    · rintro ptr (hold | rfl)
      · exact hgiven.arrays ptr hold
      · exact ⟨give_self hne, by rw [hsize]; exact hone⟩

-- An array never outgrows its page, so krealloc leaves it where it is.
theorem Owned.growArray (howned : Owned ldts k owner)
    {size : Nat} (hldt : ldts ptr) (hone : divRoundup size PAGE_SIZE = 1) :
    (krealloc k.heap ptr size).1 = ptr ∧
      ∃ owner', Owned ldts { k with heap := (krealloc k.heap ptr size).2 } owner' := by
  obtain ⟨htag, holdOne⟩ := howned.arrays ptr hldt
  have hptr : ptr ≠ 0 := howned.tagged.ne_zero htag
  have hinPlace : (krealloc k.heap ptr size).1 = ptr := by
    rw [krealloc, if_neg hptr, if_pos (holdOne.trans hone.symm)]
  refine ⟨hinPlace, ?_⟩
  rcases howned.tagged.realloc htag size with ⟨hzero, -⟩ | ⟨-, htagged, hsize, hkept⟩
  · exact absurd (hinPlace.symm.trans hzero) hptr
  · rw [hinPlace] at htagged hsize hkept
    refine ⟨_, htagged, ?_, ?_, ?_⟩
    · intro name hname
      exact (hkept _ _ (by simp) (howned.others name hname)).1
    · intro pid address task hslot
      refine (howned.tasks pid address task hslot).keep (hkept.mono ?_)
      rintro tag htag rfl
      cases htag
    · intro array harray
      by_cases he : array = ptr
      · subst he
        exact ⟨Function.update_self _ _ _, by rw [hsize]; exact hone⟩
      · obtain ⟨harrayTag, harrayOne⟩ := howned.arrays array harray
        obtain ⟨htag', hmeta⟩ := hkept _ _ (by simpa using he) harrayTag
        exact ⟨htag', by rw [hmeta]; exact harrayOne⟩

-- The block of a task ends inside the address space.
theorem Owned.block_lt (howned : Owned ldts k owner)
    (hpid : pid ≠ 0) (hslot : k.taskTable pid = .task address task) :
    task.base + task.pages * PAGE_SIZE < 2 ^ 32 := by
  have htask := howned.tasks pid address task hslot
  have hsized := htask.sized hpid
  have hheap : HeapOk k.heap fun ptr => owner ptr ≠ none := howned.tagged
  have hlive : owner task.base ≠ none := by
    rw [htask.image hpid]
    exact Option.some_ne_none _
  have haligned := hheap.aligned task.base hlive
  have hend := hheap.end_le task.base hlive
  have hlimit := hheap.limit_lt
  have hpages := hheap.pages_eq task.base hlive
  have hle := hsized.pages_le
  have hlt := hsized.size_lt
  have hmod := hsized.size_mod
  simp only [Heap.pageEnd, divRoundup, PAGE_SIZE] at *
  omega

theorem MemoryOk.setTask {ldts' : Nat → Prop} {heap : Heap} {owner : Nat → Option Owner}
    {task' : Task} (hmemory : MemoryOk ldts k) (hpid : pid ≠ 0)
    (howned : Owned ldts' { k with heap := heap } owner)
    (hslot : k.taskTable pid = .task address task)
    (hsame : TaskOwned heap owner pid address task → TaskOwned heap owner pid address task') :
    MemoryOk ldts' (Kernel.setTask { k with heap := heap } pid address task') := by
  obtain ⟨kernelAddress, kernelTask, hkernel, hstatus⟩ := hmemory.kernelTask
  refine ⟨⟨kernelAddress, kernelTask, ?_, hstatus⟩, owner, howned.setTask ?_⟩
  · rw [setTask_other hpid.symm]
    exact hkernel
  · exact hsame (howned.tasks pid address task hslot)

end EchidnaOS
