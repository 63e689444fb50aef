import EchidnaOS.Echfs.File.Lockstep

namespace EchidnaOS.Echfs

open EchidnaOS.Lib.ByteStore

variable {σ : Type} {io : Access σ} {m : Mount} {limit : Nat} {ok : σ → Prop} {table : σ → Nat → Nat}
  {dev : σ} {file : CachedFile} {i count loc old new : Nat} {origin : Nat → Nat}

-- The entry of the file is one of the directory.
def InDirectory (m : Mount) (result : PathResult) : Prop :=
  result.targetEntry < capacity m ∧ result.target.name.length < FILENAME_LEN

-- An access that reaches the first `limit` entries of the allocation table.
structure FatAccess (io : Access σ) (m : Mount) (limit : Nat) (ok : σ → Prop) (table : σ → Nat → Nat) :
    Prop where
  rdQword : ∀ {dev block}, ok dev → block < limit →
    (io.rdQword dev (fatLoc m block)).1 = table dev block ∧ ok (io.rdQword dev (fatLoc m block)).2 ∧
      ∀ other, table (io.rdQword dev (fatLoc m block)).2 other = table dev other
  wrQword : ∀ {dev block x}, ok dev → block < limit → x < 2 ^ 64 →
    ok (io.wrQword dev (fatLoc m block) x) ∧ ∀ other, other < limit →
      table (io.wrQword dev (fatLoc m block) x) other = if other = block then x else table dev other
  wrTarget : ∀ {dev result}, ok dev → InDirectory m result →
    ok (io.wrTarget dev result) ∧ ∀ other, other < limit →
      table (io.wrTarget dev result) other = table dev other

def zeros (limit : Nat) (table : Nat → Nat) : Nat := (List.range limit).countP fun block => table block = 0

-- The state of the loop that adds blocks, of which `count` free ones below `limit` are left.
-- What is free has been so from the start.
structure Taking (m : Mount) (limit : Nat) (ok : σ → Prop) (table : σ → Nat → Nat) (origin : Nat → Nat)
    (i count : Nat) (state : σ × CachedFile) : Prop where
  device : ok state.1
  entry : InDirectory m state.2.pathResult
  length : i ≤ state.2.allocMap.length
  last : i ≠ 0 → state.2.block (i - 1) < limit
  space : count ≤ zeros limit (table state.1)
  free : ∀ block, block < limit → table state.1 block = 0 → origin block = 0

-- With a free block below `limit` the search ends below it.
theorem FatAccess.found (haccess : FatAccess io m limit ok table) {fuel start block : Nat} {found : Nat × σ}
    (hdev : ok dev) (hfree : table dev block = 0) (hblock : block < limit) (hlow : start ≤ block)
    (hfound : freeBlockFrom io m fuel dev start = some found) :
    found.1 < limit ∧ table dev found.1 = 0 ∧ ok found.2 ∧
      ∀ other, table found.2 other = table dev other := by
  induction fuel generalizing dev start with
  | zero => cases hfound
  | succ fuel ih =>
      obtain ⟨hvalue, hnext, hsame⟩ := haccess.rdQword hdev (Nat.lt_of_le_of_lt hlow hblock)
      rw [freeBlockFrom, hvalue] at hfound
      by_cases hzero : table dev start = 0
      · rw [if_pos hzero] at hfound
        cases hfound
        exact ⟨by omega, hzero, hnext, hsame⟩
      · rw [if_neg hzero] at hfound
        have hne : start ≠ block := by
          intro heq
          rw [heq] at hzero
          exact hzero hfree
        obtain ⟨hlt, hfoundFree, hok, hkept⟩ :=
          ih hnext ((hsame block).trans hfree) (by omega) hfound
        exact ⟨hlt, (hsame _).symm.trans hfoundFree, hok, fun other => (hkept other).trans (hsame other)⟩

theorem exists_zero {table : Nat → Nat} (hspace : 0 < zeros limit table) :
    ∃ block, block < limit ∧ table block = 0 := by
  obtain ⟨block, hmem, hzero⟩ := List.countP_pos_iff.mp hspace
  exact ⟨block, List.mem_range.mp hmem, of_decide_eq_true hzero⟩

-- Linking a block changes the table in at most one entry, to that block.
theorem FatAccess.link (haccess : FatAccess io m limit ok table) {tBlock : Nat} (hdev : ok dev)
    (hentry : InDirectory m file.pathResult) (hlast : i ≠ 0 → file.block (i - 1) < limit)
    (htBlock : tBlock < 2 ^ 64) :
    ok (Echfs.link io m dev file i tBlock).1 ∧
      InDirectory m (Echfs.link io m dev file i tBlock).2.pathResult ∧
      ∃ changed, ∀ other, other < limit → table (Echfs.link io m dev file i tBlock).1 other =
        if other = changed ∧ i ≠ 0 then tBlock else table dev other := by
  unfold Echfs.link
  by_cases hi : i = 0
  · obtain ⟨hwritten, hkept⟩ := @FatAccess.wrTarget _ _ _ _ _ _ haccess dev
      { file.pathResult with target := { file.pathResult.target with payload := tBlock } } hdev hentry
    rw [if_pos hi]
    refine ⟨hwritten, hentry, 0, fun other hother => ?_⟩
    rw [if_neg fun h => h.2 hi]
    exact hkept other hother
  · obtain ⟨hwritten, hkept⟩ := haccess.wrQword hdev (hlast hi) htBlock
    rw [if_neg hi]
    refine ⟨hwritten, hentry, file.block (i - 1), fun other hother => ?_⟩
    rw [hkept other hother]
    by_cases heq : other = file.block (i - 1)
    · rw [if_pos heq, if_pos ⟨heq, hi⟩]
    · rw [if_neg heq, if_neg fun h => heq h.1]

-- One turn takes a block that was free.
theorem Taking.turn (haccess : FatAccess io m limit ok table) (hfat : limit < 2 ^ 64)
    (hfirst : origin 0 ≠ 0) (htaking : Taking m limit ok table origin i (count + 1) (dev, file))
    {after : σ × CachedFile} (hturn : growBlock io m dev file i = some after) :
    (∃ tBlock, after.2.allocMap = file.allocMap.take i ++ [tBlock] ∧ tBlock < limit ∧
      origin tBlock = 0) ∧ Taking m limit ok table origin (i + 1) count after := by
  obtain ⟨hdev, hentry, hlength, hlast, hspace, hfree⟩ := htaking
  dsimp only at *
  obtain ⟨block, hblock, hzero⟩ := @exists_zero limit (table dev) (by omega)
  obtain ⟨⟨tBlock, found⟩, hfound, rfl⟩ := Option.map_eq_some_iff.mp hturn
  obtain ⟨htBlock, htFree, hok, hsame⟩ := haccess.found hdev hzero hblock (Nat.zero_le _) hfound
  dsimp only at htBlock htFree hok hsame ⊢
  have horigin : origin tBlock = 0 := hfree tBlock htBlock htFree
  have hne : tBlock ≠ 0 := by
    intro heq
    rw [heq] at horigin
    exact hfirst horigin
  have htake : (file.allocMap.take i).length = i := List.length_take_of_le hlength
  have hnew : (file.allocMap.take i ++ [tBlock]).getD i 0 = tBlock := by
    rw [List.getD_append_right _ _ _ _ (by omega), htake, Nat.sub_self]
    rfl
  have hbefore : i ≠ 0 → CachedFile.block { file with allocMap := file.allocMap.take i ++ [tBlock] }
      (i - 1) < limit := by
    intro hi
    rw [CachedFile.block, List.getD_append _ _ _ _ (by omega), List.getD_eq_getElem?_getD,
      List.getElem?_take_of_lt (by omega), ← List.getD_eq_getElem?_getD]
    exact hlast hi
  have hmap : (Echfs.link io m found { file with allocMap := file.allocMap.take i ++ [tBlock] } i
      tBlock).2.allocMap = file.allocMap.take i ++ [tBlock] := link_allocMap io found i
  obtain ⟨hok', hentry', changed, htable⟩ := @FatAccess.link _ _ _ _ _ _ found
    { file with allocMap := file.allocMap.take i ++ [tBlock] } i haccess tBlock hok hentry hbefore
    (by omega)
  generalize Echfs.link io m found { file with allocMap := file.allocMap.take i ++ [tBlock] } i tBlock =
    linked at *
  refine ⟨⟨tBlock, hmap, htBlock, horigin⟩, hok', hentry', ?_, ?_, ?_, ?_⟩
  · rw [hmap, List.length_append, htake, List.length_singleton]
  · intro _
    rw [Nat.add_sub_cancel, CachedFile.block, hmap, hnew]
    exact htBlock
  · have hle : zeros limit (table dev) ≤ zeros limit (table linked.1) + 1 := by
      refine zeros_le_succ changed fun other hother hchanged => ?_
      rw [htable other hother, if_neg fun h => hchanged h.1, hsame other]
    omega
  · intro other hother hfreed
    rw [htable other hother] at hfreed
    split at hfreed
    · exact absurd hfreed hne
    · exact hfree other hother ((hsame other).symm.trans hfreed)

-- The whole loop: the new blocks of the file were free.
theorem Taking.growBlocks (haccess : FatAccess io m limit ok table) (hfat : limit < 2 ^ 64)
    (hfirst : origin 0 ≠ 0) (htaking : Taking m limit ok table origin i count (dev, file))
    {after : σ × CachedFile} (hgrown : growBlocks io m count dev file i = some after) :
    i + count ≤ after.2.allocMap.length ∧ ∀ j, i ≤ j → j < i + count →
      after.2.block j < limit ∧ origin (after.2.block j) = 0 := by
  induction count generalizing dev file i with
  | zero =>
      cases hgrown
      exact ⟨htaking.length, fun j hlow hhigh => absurd hhigh (by omega)⟩
  | succ count ih =>
      rw [Echfs.growBlocks] at hgrown
      obtain ⟨middle, hturn, hrest⟩ := Option.bind_eq_some_iff.mp hgrown
      obtain ⟨⟨tBlock, hmap, htBlock, horigin⟩, hnext⟩ := htaking.turn haccess hfat hfirst hturn
      obtain ⟨hlength, hlater⟩ := ih hnext hrest
      refine ⟨by omega, fun j hlow hhigh => ?_⟩
      by_cases hj : j = i
      · have hkept := growBlocks_take io hrest hnext.length
        have htake : (file.allocMap.take i).length = i := List.length_take_of_le htaking.length
        have hblock : after.2.block i = tBlock := by
          have hget := congrArg (fun blocks => blocks[i]?) hkept
          rw [List.getElem?_take_of_lt (Nat.lt_succ_self i), List.getElem?_take_of_lt (Nat.lt_succ_self i),
            hmap, List.getElem?_append_right (by omega), htake, Nat.sub_self] at hget
          rw [CachedFile.block, List.getD_eq_getElem?_getD, hget]
          rfl
        rw [hj, hblock]
        exact ⟨htBlock, horigin⟩
      · exact hlater j (by omega) (by omega)

-- A file record whose blocks the code can go by.
structure Recorded (m : Mount) (file : CachedFile) : Prop where
  entry : InDirectory m file.pathResult
  length : blockCount file.pathResult.target.size ≤ file.allocMap.length
  blocks : ∀ j, j < blockCount file.pathResult.target.size → file.block j < m.blocks

-- The blocks that a byte beyond the end of a file adds to its allocation map.
theorem writeByte_takes (haccess : FatAccess io m limit ok table) (hfat : limit < 2 ^ 64)
    (hdev : ok dev) (hrecorded : Recorded m file) (hfirst : table dev 0 ≠ 0)
    (hlast : blockCount file.pathResult.target.size ≠ 0 →
      file.block (blockCount file.pathResult.target.size - 1) < limit)
    (hloc : loc + 1 < 2 ^ 64)
    (hspace : blockCount (loc + 1) - blockCount file.pathResult.target.size ≤ zeros limit (table dev))
    {val : UInt8} {after : σ × CachedFile} (hafter : writeByte io m dev file val loc = some after) :
    ∀ j, blockCount file.pathResult.target.size ≤ j → j < blockCount (loc + 1) →
      after.2.block j < limit ∧ table dev (after.2.block j) = 0 := by
  obtain ⟨hentry, hlength, -⟩ := hrecorded
  -- the size is set first, which leaves the table and the blocks
  have hextend : ok (extend io dev file loc).1 ∧ InDirectory m (extend io dev file loc).2.pathResult ∧
      (extend io dev file loc).2.allocMap = file.allocMap ∧
      ∀ other, other < limit → table (extend io dev file loc).1 other = table dev other := by
    unfold extend
    by_cases hend : file.pathResult.target.size ≤ loc
    · obtain ⟨hwritten, hkept⟩ := @FatAccess.wrTarget _ _ _ _ _ _ haccess dev
        { file.pathResult with target :=
          { file.pathResult.target with size := (loc + 1) % 2 ^ 64 } } hdev hentry
      rw [if_pos hend]
      exact ⟨hwritten, hentry, rfl, hkept⟩
    · rw [if_neg hend]
      exact ⟨hdev, hentry, rfl, fun _ _ => rfl⟩
  unfold writeByte at hafter
  rw [Nat.mod_eq_of_lt hloc] at hafter
  dsimp only at hafter
  generalize blockCount file.pathResult.target.size = old at *
  generalize extend io dev file loc = extended at *
  obtain ⟨hok, hinside, hmap, hsame⟩ := hextend
  obtain ⟨grown, hgrown, rfl⟩ := Option.map_eq_some_iff.mp hafter
  intro j hlow hhigh
  rw [if_pos (show old < blockCount (loc + 1) by omega)] at hgrown
  obtain ⟨added, hadded, rfl⟩ := Option.map_eq_some_iff.mp hgrown
  have htaking : Taking m limit ok table (table dev) old (blockCount (loc + 1) - old) (extended.1, extended.2) := by
    refine ⟨hok, hinside, by rw [hmap]; exact hlength, ?_, ?_, ?_⟩
    · intro hne
      rw [CachedFile.block, hmap]
      exact hlast hne
    · refine hspace.trans (Nat.le_of_eq (List.countP_congr fun block hblock => ?_))
      rw [hsame block (List.mem_range.mp hblock)]
    · intro block hblock hzero
      rw [← hsame block hblock]
      exact hzero
  obtain ⟨hlong, htaken⟩ := htaking.growBlocks haccess hfat hfirst hadded
  have hplace : ∀ dev, (putByte io dev { added.2 with
      allocMap := added.2.allocMap.take (blockCount (loc + 1)) ++ [END_OF_CHAIN] } val loc).2.block j =
        added.2.block j := by
    intro dev
    rw [CachedFile.block, putByte_allocMap]
    dsimp only
    rw [List.getD_append _ _ _ _ (by rw [List.length_take]; omega), CachedFile.block,
      List.getD_eq_getElem?_getD, List.getD_eq_getElem?_getD, List.getElem?_take_of_lt hhigh]
  dsimp only
  rw [hplace]
  exact htaken j hlow (by omega)

end EchidnaOS.Echfs
