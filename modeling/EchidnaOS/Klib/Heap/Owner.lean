import EchidnaOS.Klib.Heap.Theorems

namespace EchidnaOS.Klib

open EchidnaOS.Lib

variable {τ : Type*} {heap : Heap} {owner : Nat → Option τ} {ptr : Nat} {tag : τ}

-- Every live object carries the tag of whoever holds the pointer to it.
def Tagged (heap : Heap) (owner : Nat → Option τ) : Prop :=
  HeapOk heap fun ptr => owner ptr ≠ none

-- Objects whose tag satisfies `keep` stay with their holder and keep their metadata.
def Kept (keep : τ → Prop) (heap next : Heap) (owner owner' : Nat → Option τ) : Prop :=
  ∀ ptr tag, keep tag → owner ptr = some tag →
    owner' ptr = some tag ∧ next.metadata ptr = heap.metadata ptr

theorem Kept.refl (keep : τ → Prop) (heap : Heap) (owner : Nat → Option τ) :
    Kept keep heap heap owner owner :=
  fun _ _ _ h => ⟨h, rfl⟩

theorem Kept.trans {keep : τ → Prop} {middle next : Heap} {owner' owner'' : Nat → Option τ}
    (hfirst : Kept keep heap middle owner owner')
    (hsecond : Kept keep middle next owner' owner'') : Kept keep heap next owner owner'' := by
  intro ptr tag hkeep howner
  obtain ⟨howner', hmeta⟩ := hfirst ptr tag hkeep howner
  obtain ⟨howner'', hmeta'⟩ := hsecond ptr tag hkeep howner'
  exact ⟨howner'', hmeta'.trans hmeta⟩

theorem Kept.mono {keep more : τ → Prop} {next : Heap} {owner' : Nat → Option τ}
    (hkept : Kept more heap next owner owner') (hmono : ∀ tag, keep tag → more tag) :
    Kept keep heap next owner owner' :=
  fun ptr tag hkeep howner => hkept ptr tag (hmono tag hkeep) howner

theorem Tagged.ne_zero (htagged : Tagged heap owner) (howner : owner ptr = some tag) : ptr ≠ 0 :=
  HeapOk.ne_zero htagged (by rw [howner]; exact Option.some_ne_none tag)

theorem Tagged.retag (htagged : Tagged heap owner) (howner : owner ptr ≠ none) (tag : τ) :
    Tagged heap (Function.update owner ptr (some tag)) := by
  refine HeapOk.congr htagged ?_
  intro other hother
  by_cases he : other = ptr
  · exact he ▸ howner
  · simpa [he] using hother

theorem Tagged.setMem (htagged : Tagged heap owner) (mem : ByteStore.Store) :
    Tagged { heap with mem := mem } owner :=
  HeapOk.of_same htagged rfl rfl htagged.last_le (fun _ => rfl) htagged.pages_eq

-- The fresh object gets the tag; nothing else is touched.
theorem Tagged.alloc (htagged : Tagged heap owner) (size : Nat) (tag : τ) :
    ((kalloc heap size).1 = 0 ∧ Tagged (kalloc heap size).2 owner ∧
      (kalloc heap size).2.metadata = heap.metadata) ∨
    ((kalloc heap size).1 ≠ 0 ∧ owner (kalloc heap size).1 = none ∧
      Tagged (kalloc heap size).2
        (Function.update owner (kalloc heap size).1 (some tag)) ∧
      ((kalloc heap size).2.metadata (kalloc heap size).1).size = size ∧
      Kept (fun _ => True) heap (kalloc heap size).2 owner
        (Function.update owner (kalloc heap size).1 (some tag))) := by
  rcases kalloc_ok htagged size with hnull | ⟨hne, hfresh, hok, hmeta⟩
  · exact Or.inl hnull
  · have hnone : owner (kalloc heap size).1 = none := not_not.mp hfresh
    refine Or.inr ⟨hne, hnone, ?_, by rw [hmeta, Function.update_self], ?_⟩
    · refine HeapOk.congr hok ?_
      intro other hother
      by_cases he : other = (kalloc heap size).1
      · exact Or.inr he
      · exact Or.inl (by simpa [he] using hother)
    · intro other tag' _ howner
      have he : other ≠ (kalloc heap size).1 := by
        rintro rfl
        rw [hnone] at howner
        cases howner
      exact ⟨by simpa [he] using howner, by rw [hmeta, Function.update_of_ne he]⟩

theorem Tagged.free (htagged : Tagged heap owner) (howner : owner ptr ≠ none) :
    Tagged (kfree heap ptr) (Function.update owner ptr none) := by
  refine HeapOk.congr (kfree_ok htagged ptr howner) ?_
  intro other hother
  by_cases he : other = ptr
  · subst he
    simp at hother
  · exact ⟨by simpa [he] using hother, he⟩

-- The holder of an object is the holder of what krealloc makes of it.
theorem Tagged.realloc (htagged : Tagged heap owner) (howner : owner ptr = some tag)
    (newSize : Nat) :
    ((krealloc heap ptr newSize).1 = 0 ∧ Tagged (krealloc heap ptr newSize).2 owner ∧
      (krealloc heap ptr newSize).2.metadata = heap.metadata) ∨
    ((krealloc heap ptr newSize).1 ≠ 0 ∧
      Tagged (krealloc heap ptr newSize).2 (Function.update (Function.update owner ptr none)
        (krealloc heap ptr newSize).1 (some tag)) ∧
      ((krealloc heap ptr newSize).2.metadata (krealloc heap ptr newSize).1).size = newSize ∧
      Kept (· ≠ tag) heap (krealloc heap ptr newSize).2 owner (Function.update
        (Function.update owner ptr none) (krealloc heap ptr newSize).1 (some tag))) := by
  have hlive : owner ptr ≠ none := by
    rw [howner]
    exact Option.some_ne_none tag
  rcases krealloc_ok htagged ptr newSize hlive with hnull | ⟨hne, hwhere, hok, hsize, hmeta⟩
  · exact Or.inl hnull
  · refine Or.inr ⟨hne, ?_, hsize, ?_⟩
    · refine HeapOk.congr hok ?_
      intro other hother
      by_cases he : other = (krealloc heap ptr newSize).1
      · exact Or.inr he
      · rw [Function.update_of_ne he] at hother
        by_cases hptr : other = ptr
        · subst hptr
          simp at hother
        · exact Or.inl ⟨by simpa [hptr] using hother, hptr⟩
    · intro other tag' hother htag
      have hold : other ≠ ptr := by
        rintro rfl
        rw [howner] at htag
        exact hother (Option.some.inj htag).symm
      have hnew : other ≠ (krealloc heap ptr newSize).1 := by
        rintro rfl
        rcases hwhere with hsame | hfresh
        · exact hold hsame
        · rw [not_not.mp hfresh] at htag
          cases htag
      exact ⟨by rw [Function.update_of_ne hnew, Function.update_of_ne hold, htag],
        hmeta other hnew⟩

-- The object krealloc makes of one that may be NULL, with the tag of its holder.
def moved (owner : Nat → Option τ) (old new : Nat) (tag : τ) : Nat → Option τ :=
  Function.update (Function.update owner old none) new (some tag)

theorem Tagged.moved (htagged : Tagged heap owner) (howner : ptr ≠ 0 → owner ptr = some tag)
    (newSize : Nat) (hne : (krealloc heap ptr newSize).1 ≠ 0) :
    Tagged (krealloc heap ptr newSize).2 (moved owner ptr (krealloc heap ptr newSize).1 tag) ∧
      ((krealloc heap ptr newSize).2.metadata (krealloc heap ptr newSize).1).size = newSize ∧
      Kept (· ≠ tag) heap (krealloc heap ptr newSize).2 owner
        (Klib.moved owner ptr (krealloc heap ptr newSize).1 tag) := by
  unfold Klib.moved
  by_cases hnull : ptr = 0
  · have heq : krealloc heap ptr newSize = kalloc heap newSize := by
      rw [krealloc, if_pos hnull]
    have hzero : Function.update owner ptr none = owner := by
      rw [Function.update_eq_self_iff, hnull]
      by_contra hsome
      obtain ⟨other, hother⟩ := Option.ne_none_iff_exists'.mp (Ne.symm hsome)
      exact htagged.ne_zero hother rfl
    rw [heq] at hne ⊢
    rw [hzero]
    rcases htagged.alloc newSize tag with ⟨hfail, -⟩ | ⟨-, -, hnext, hsize, hkept⟩
    · exact absurd hfail hne
    · exact ⟨hnext, hsize, hkept.mono fun _ _ => trivial⟩
  · rcases htagged.realloc (howner hnull) newSize with ⟨hfail, -⟩ | ⟨-, hnext, hsize, hkept⟩
    · exact absurd hfail hne
    · exact ⟨hnext, hsize, hkept⟩

-- The copy is made with both blocks allocated, so there was room for both.
theorem krealloc_room {live : Nat → Prop} (hok : HeapOk heap live) (hlive : live ptr) {newSize : Nat}
    (hmoves : divRoundup (heap.metadata ptr).size PAGE_SIZE ≠ divRoundup newSize PAGE_SIZE)
    (hne : (krealloc heap ptr newSize).1 ≠ 0) :
    (heap.metadata ptr).pages + divRoundup newSize PAGE_SIZE < 2 ^ 20 := by
  unfold krealloc at hne
  rw [if_neg (hok.ne_zero hlive), if_neg hmoves] at hne
  have hnew : (kalloc heap newSize).1 ≠ 0 := by
    intro hnull
    rw [if_pos hnull] at hne
    exact hne rfl
  rcases kalloc_ok hok newSize with ⟨hnull, -⟩ | ⟨-, hfresh, hnext, hmeta⟩
  · exact absurd hnull hnew
  · have hother : ptr ≠ (kalloc heap newSize).1 := fun heq => hfresh (heq ▸ hlive)
    have hapart := hnext.disjoint ptr _ (Or.inl hlive) (Or.inr rfl) hother
    have hend := hnext.end_le ptr (Or.inl hlive)
    have hend' := hnext.end_le _ (Or.inr rfl)
    have hstart := hnext.start_pos ptr (Or.inl hlive)
    have hstart' := hnext.start_pos _ (Or.inr rfl)
    have hlimit := hnext.limit_lt
    unfold Heap.pageEnd pageStart at *
    rw [hmeta, Function.update_self] at hapart hend'
    rw [Function.update_of_ne hother] at hapart
    rw [hmeta, Function.update_of_ne hother] at hend
    dsimp only at hapart hend'
    omega

-- krealloc on a pointer that may be NULL: what it returns goes to the same holder.
theorem Tagged.realloc_field (htagged : Tagged heap owner)
    (howner : ptr ≠ 0 → owner ptr = some tag) (newSize : Nat) :
    ∃ owner', Tagged (krealloc heap ptr newSize).2 owner' ∧
      Kept (· ≠ tag) heap (krealloc heap ptr newSize).2 owner owner' ∧
      ((krealloc heap ptr newSize).1 ≠ 0 → owner' (krealloc heap ptr newSize).1 = some tag) := by
  by_cases hnull : ptr = 0
  · have heq : krealloc heap ptr newSize = kalloc heap newSize := by
      rw [krealloc, if_pos hnull]
    rw [heq]
    rcases htagged.alloc newSize tag with ⟨hzero, hnext, hmeta⟩ | ⟨-, -, hnext, -, hkept⟩
    · exact ⟨owner, hnext, fun _ _ _ h => ⟨h, by rw [hmeta]⟩, fun hne => absurd hzero hne⟩
    · exact ⟨_, hnext, hkept.mono fun _ _ => trivial, fun _ => Function.update_self _ _ _⟩
  · rcases htagged.realloc (howner hnull) newSize with ⟨hzero, hnext, hmeta⟩ | ⟨-, hnext, -, hkept⟩
    · exact ⟨owner, hnext, fun _ _ _ h => ⟨h, by rw [hmeta]⟩, fun hne => absurd hzero hne⟩
    · exact ⟨_, hnext, hkept, fun _ => Function.update_self _ _ _⟩

end EchidnaOS.Klib
