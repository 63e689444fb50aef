import EchidnaOS.Echfs.Handle

namespace EchidnaOS.Echfs

open EchidnaOS.Lib.ByteStore EchidnaOS.Devfs

section

variable {σ β : Type} {io : Access σ} {m : Mount} {f : σ → β} {dev : σ} {file : CachedFile}

-- A part of the state that no access changes.
structure Access.Keeps (io : Access σ) (f : σ → β) : Prop where
  rdQword : ∀ dev loc, f (io.rdQword dev loc).2 = f dev
  wrQword : ∀ dev loc x, f (io.wrQword dev loc x) = f dev
  zeroBlock : ∀ dev loc, f (io.zeroBlock dev loc) = f dev
  rdBlock : ∀ dev loc, f (io.rdBlock dev loc).2 = f dev
  wrBlock : ∀ dev loc cache, f (io.wrBlock dev loc cache) = f dev
  wrTarget : ∀ dev result, f (io.wrTarget dev result) = f dev

theorem Access.Keeps.fetch (hkeeps : io.Keeps f) (dev : σ) (file : CachedFile) (block : Nat)
    (status : CacheStatus) : f (fetch io dev file block status).1 = f dev := by
  unfold Echfs.fetch
  dsimp only
  rw [hkeeps.rdBlock]
  by_cases hdirty : file.cacheStatus = .dirty
  · rw [if_pos hdirty, hkeeps.wrBlock]
  · rw [if_neg hdirty]

theorem Access.Keeps.readByte (hkeeps : io.Keeps f) (dev : σ) (file : CachedFile) (loc : Nat) :
    f (readByte io dev file loc).2.1 = f dev := by
  unfold Echfs.readByte
  dsimp only
  by_cases hcached : cached file (loc / BYTES_PER_BLOCK) = true
  · rw [if_pos hcached]
  · rw [if_neg hcached]
    exact hkeeps.fetch dev file _ _

theorem Access.Keeps.freeBlockFrom (hkeeps : io.Keeps f) {fuel tBlock : Nat} {found : Nat × σ}
    (hfound : freeBlockFrom io m fuel dev tBlock = some found) : f found.2 = f dev := by
  induction fuel generalizing dev tBlock with
  | zero => cases hfound
  | succ fuel ih =>
      rw [Echfs.freeBlockFrom] at hfound
      split at hfound
      · cases hfound
        exact hkeeps.rdQword dev _
      · exact (ih hfound).trans (hkeeps.rdQword dev _)

theorem Access.Keeps.growBlock (hkeeps : io.Keeps f) {i : Nat} {grown : σ × CachedFile}
    (hgrown : growBlock io m dev file i = some grown) : f grown.1 = f dev := by
  obtain ⟨found, hfound, rfl⟩ := Option.map_eq_some_iff.mp hgrown
  rw [← hkeeps.freeBlockFrom hfound]
  unfold link
  by_cases hfirst : i = 0
  · rw [if_pos hfirst]
    exact hkeeps.wrTarget _ _
  · rw [if_neg hfirst]
    exact hkeeps.wrQword _ _ _

theorem Access.Keeps.growBlocks (hkeeps : io.Keeps f) {count i : Nat} {grown : σ × CachedFile}
    (hgrown : growBlocks io m count dev file i = some grown) : f grown.1 = f dev := by
  induction count generalizing dev file i with
  | zero =>
      cases hgrown
      rfl
  | succ count ih =>
      obtain ⟨next, hnext, hrest⟩ := Option.bind_eq_some_iff.mp hgrown
      exact (ih hrest).trans (hkeeps.growBlock hnext)

theorem Access.Keeps.zeroBlocks (hkeeps : io.Keeps f) (blocks : List Nat) (dev : σ) :
    f (blocks.foldl (fun dev block => io.zeroBlock dev (blockLoc block)) dev) = f dev := by
  induction blocks generalizing dev with
  | nil => rfl
  | cons block rest ih =>
      rw [List.foldl_cons, ih, hkeeps.zeroBlock]

theorem Access.Keeps.grow (hkeeps : io.Keeps f) {old new : Nat} {grown : σ × CachedFile}
    (hgrown : grow io m dev file old new = some grown) : f grown.1 = f dev := by
  obtain ⟨added, hadded, rfl⟩ := Option.map_eq_some_iff.mp hgrown
  rw [← hkeeps.growBlocks hadded]
  dsimp only
  rw [hkeeps.zeroBlocks, hkeeps.wrQword]

theorem Access.Keeps.writeByte (hkeeps : io.Keeps f) {val : UInt8} {loc : Nat}
    {next : σ × CachedFile} (hnext : writeByte io m dev file val loc = some next) :
    f next.1 = f dev := by
  obtain ⟨grown, hgrown, rfl⟩ := Option.map_eq_some_iff.mp hnext
  have hextend : f (extend io dev file loc).1 = f dev := by
    unfold extend
    split
    · exact hkeeps.wrTarget _ _
    · rfl
  have hput : f (putByte io grown.1 grown.2 val loc).1 = f grown.1 := by
    unfold putByte
    dsimp only
    split
    · rfl
    · exact hkeeps.fetch _ _ _ _
  rw [hput, ← hextend]
  split at hgrown
  · exact hkeeps.grow hgrown
  · cases hgrown
    rfl

end

@[simp] theorem DevFile.rdAt_still (dev : DevFile) (loc count : Nat) :
    (dev.rdAt loc count).2.handle.still = dev.handle.still := by
  simp [DevFile.rdAt, DevFile.seek, devfsUread]

@[simp] theorem DevFile.wrAt_still (dev : DevFile) (loc count : Nat) (source : Store) :
    (dev.wrAt loc count source).handle.still = dev.handle.still := by
  simp [DevFile.wrAt, DevFile.seek, devfsUwrite]

theorem DevFile.zeroBytes_still (dev : DevFile) (loc count : Nat) :
    (dev.zeroBytes loc count).handle.still = dev.handle.still := by
  unfold DevFile.zeroBytes
  generalize List.range count = offsets
  induction offsets generalizing dev with
  | nil => rfl
  | cons offset rest ih =>
      rw [List.foldl_cons, ih, DevFile.wrAt_still]

theorem handleAccess_still : handleAccess.Keeps fun dev => dev.handle.still where
  rdQword dev loc := dev.rdAt_still loc 8
  wrQword dev loc _ := dev.wrAt_still loc 8 _
  zeroBlock dev loc := dev.zeroBytes_still loc _
  rdBlock dev loc := dev.rdAt_still loc _
  wrBlock dev loc cache := dev.wrAt_still loc _ cache
  wrTarget _ _ := rfl

theorem ureadBytes_still (finish : Int) (len : Nat) (dev : DevFile) (file : CachedFile) (curLoc : Int) :
    (ureadBytes finish len dev file curLoc).2.1.handle.still = dev.handle.still := by
  induction len generalizing dev file curLoc with
  | zero => rfl
  | succ len ih =>
      rw [ureadBytes]
      split
      · rfl
      · dsimp only
        rw [ih]
        exact handleAccess_still.readByte dev file curLoc.toNat

theorem uwriteBytes_still {m : Mount} {data : List UInt8} {dev : DevFile} {file : CachedFile}
    {curLoc : Int} {result : DevFile × CachedFile × Int}
    (hresult : uwriteBytes m data dev file curLoc = some result) :
    result.1.handle.still = dev.handle.still := by
  induction data generalizing dev file curLoc with
  | nil =>
      cases hresult
      rfl
  | cons val rest ih =>
      obtain ⟨next, hnext, hrest⟩ := Option.bind_eq_some_iff.mp hresult
      exact (ih hrest).trans (handleAccess_still.writeByte hnext)

-- A transfer moves the device handle and changes nothing else of it.
theorem echfsUread_still (h : OpenFile) (len : Nat) :
    (echfsUread h len).2.dev.handle.still = h.dev.handle.still :=
  ureadBytes_still h.finish len h.dev h.file h.ptr

theorem echfsUwrite_still {m : Mount} {h : OpenFile} {data : List UInt8} {result : Nat × OpenFile}
    (hresult : echfsUwrite m h data = some result) :
    result.2.dev.handle.still = h.dev.handle.still := by
  obtain ⟨written, hwritten, rfl⟩ := Option.map_eq_some_iff.mp hresult
  rw [← uwriteBytes_still hwritten]
  exact written.1.wrAt_still _ _ _

end EchidnaOS.Echfs
