import EchidnaOS.Echfs.Image

namespace EchidnaOS.Echfs

open EchidnaOS.Lib.ByteStore

variable {disk : Store} {m : Mount} {file : CachedFile} {chain blocks more : List Nat} {tBlock : Nat}
  {before middle after : Store × CachedFile}

-- What a change to one file leaves alone, when the file has `chain` before it and `blocks`
-- after it. The entry of the file in the directory is not written.
structure Frame (m : Mount) (chain blocks : List Nat) (before after : Store × CachedFile) : Prop where
  kept : ∀ block ∈ chain, block ∈ blocks
  fresh : ∀ block ∈ blocks, block ∈ chain ∨ fat before.1 m block = 0
  fat : ∀ block, block < m.blocks → block ∉ blocks → fat after.1 m block = fat before.1 m block
  directory : ∀ address, m.dirstart * BYTES_PER_BLOCK ≤ address →
    address < m.datastart * BYTES_PER_BLOCK → after.1 address = before.1 address
  data : ∀ block, DataBlock m block → block ∉ blocks → ∀ offset, offset < BYTES_PER_BLOCK →
    after.1 (blockLoc block + offset) = before.1 (blockLoc block + offset)
  linked : Linked before.1 m before.2.pathResult.target.payload chain →
    Linked after.1 m after.2.pathResult.target.payload blocks
  target : after.2.pathResult = { before.2.pathResult with target := { before.2.pathResult.target with
    size := after.2.pathResult.target.size
    payload := after.2.pathResult.target.payload } }
  path : after.2.path = before.2.path

namespace Frame

theorem refl (chain : List Nat) (before : Store × CachedFile) : Frame m chain chain before before :=
  ⟨fun _ h => h, fun _ h => Or.inl h, fun _ _ _ => rfl, fun _ _ _ => rfl, fun _ _ _ _ _ => rfl, id,
    rfl, rfl⟩

theorem trans (hdata : ∀ block ∈ more, block < m.blocks) (hfirst : Frame m chain blocks before middle)
    (hsecond : Frame m blocks more middle after) : Frame m chain more before after where
  kept block hmem := hsecond.kept block (hfirst.kept block hmem)
  fresh block hmem := by
    by_cases hmiddle : block ∈ blocks
    · exact hfirst.fresh block hmiddle
    · have hzero := (hsecond.fresh block hmem).resolve_left hmiddle
      rw [hfirst.fat block (hdata block hmem) hmiddle] at hzero
      exact Or.inr hzero
  fat block hlt hout := by
    have hmiddle : block ∉ blocks := fun hmem => hout (hsecond.kept block hmem)
    rw [hsecond.fat block hlt hout, hfirst.fat block hlt hmiddle]
  directory address hlow hhigh := by
    rw [hsecond.directory address hlow hhigh, hfirst.directory address hlow hhigh]
  data block hblock hout offset hoffset := by
    have hmiddle : block ∉ blocks := fun hmem => hout (hsecond.kept block hmem)
    rw [hsecond.data block hblock hout offset hoffset, hfirst.data block hblock hmiddle offset hoffset]
  linked hlinked := hsecond.linked (hfirst.linked hlinked)
  target := by
    rw [hsecond.target, hfirst.target]
  path := hsecond.path.trans hfirst.path

end Frame

-- A new size in the record is no change of the image.
theorem frame_setSize (chain : List Nat) (size : Nat) :
    Frame m chain chain (disk, file) (disk, file.setTarget { file.pathResult.target with size := size }) :=
  ⟨fun _ h => h, fun _ h => Or.inl h, fun _ _ _ => rfl, fun _ _ _ => rfl, fun _ _ _ _ _ => rfl, id,
    rfl, rfl⟩

theorem SameOutside.frame (hgeometry : Geometry m) (hdata : ∀ block ∈ chain, DataBlock m block)
    (hsame : SameOutside chain before.1 after.1) (hresult : after.2.pathResult = before.2.pathResult)
    (hpath : after.2.path = before.2.path) : Frame m chain chain before after := by
  have habove : ∀ block ∈ chain, m.datastart * BYTES_PER_BLOCK ≤ blockLoc block ∧
      m.dirstart * BYTES_PER_BLOCK ≤ blockLoc block :=
    fun block hmem => data_above_directory hgeometry (hdata block hmem)
  have hfat : ∀ block, block < m.blocks → fat after.1 m block = fat before.1 m block := by
    intro block hlt
    refine fat_congr hgeometry hlt fun address hlow => hsame address ?_
    intro other hmem
    have := (habove other hmem).2
    omega
  refine ⟨fun _ h => h, fun _ h => Or.inl h, fun block hlt _ => hfat block hlt, ?_, ?_, ?_, ?_, hpath⟩
  · intro address _ hhigh
    apply hsame address
    intro other hmem
    have := (habove other hmem).1
    omega
  · intro block hblock hout offset hoffset
    apply hsame
    intro other hmem
    have hne : block ≠ other := fun heq => hout (heq ▸ hmem)
    have hapart := hblock.apart hgeometry (hdata other hmem) hne
    omega
  · intro hlinked
    rw [hresult]
    exact hlinked.congr fun block hmem => hfat block (hdata block hmem).2
  · rw [hresult]

-- A new block at the end, linked in the record only when it is the first one.
theorem Grew.frame (hgrew : Grew m (fun disk _ => disk) chain tBlock before after)
    (hdata : ∀ block ∈ chain, DataBlock m block) (hnodup : chain.Nodup) (hblock : DataBlock m tBlock)
    (hzero : Echfs.fat before.1 m tBlock = 0) (hfresh : tBlock ∉ chain) :
    Frame m chain (chain ++ [tBlock]) before after := by
  have hfat := hgrew.fat
  have hresult := hgrew.pathResult
  refine ⟨fun block hmem => List.mem_append_left _ hmem, ?_, ?_, ?_, ?_, ?_, ?_, hgrew.path⟩
  · intro block hmem
    rcases List.mem_append.mp hmem with hold | hnew
    · exact Or.inl hold
    · rw [List.mem_singleton.mp hnew]
      exact Or.inr hzero
  · intro block hlt hout
    rw [List.mem_append, List.mem_singleton, not_or] at hout
    rw [hfat block hlt, if_neg hout.2, if_neg]
    intro hlast
    exact hout.1 (List.mem_of_getLast? hlast)
  · intro address hlow hhigh
    rw [hgrew.directory address hlow hhigh]
    simp
  · intro block hother hout
    rw [List.mem_append, List.mem_singleton, not_or] at hout
    exact hgrew.data block hother hout.2
  · intro hlinked
    have hsuccessors : ∀ block ∈ chain, Echfs.fat after.1 m block =
        if chain.getLast? = some block then tBlock else Echfs.fat before.1 m block := by
      intro block hmem
      rw [hfat block (hdata block hmem).2, if_neg]
      intro heq
      exact hfresh (heq ▸ hmem)
    have happend := hlinked.append hnodup hsuccessors (by rw [hfat tBlock hblock.2, if_pos rfl])
    rw [hresult]
    by_cases hnil : chain = []
    · rw [if_pos hnil] at happend ⊢
      exact happend
    · rw [if_neg hnil] at happend ⊢
      exact happend
  · rw [hresult]
    split
    · rfl
    · rfl

end EchidnaOS.Echfs
