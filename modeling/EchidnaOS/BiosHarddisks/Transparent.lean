import EchidnaOS.BiosHarddisks
import EchidnaOS.Lib.Machine
import EchidnaOS.Lib.WriteBack

namespace EchidnaOS.BiosHarddisks

open EchidnaOS.Lib.ByteStore EchidnaOS.Devfs EchidnaOS.Lib.Machine EchidnaOS.Lib.WriteBack

variable {s : BdState} {drive : UInt8} {loc : Nat}

-- A byte of a drive, by drive and location.
abbrev Bytes := UInt8 × Nat → UInt8

def byteAt (drives : UInt8 → Sectors) : Bytes := fun a =>
  drives a.1 (a.2 / BYTES_PER_SECT) (a.2 % BYTES_PER_SECT)

-- The sectors with the cached block over them.
def BdState.overlay (s : BdState) : Bytes := fun a =>
  if s.cacheStatus ≠ CACHE_NOT_READY ∧ a.1 = s.cachedDrive ∧ a.2 / CACHE_SIZE = s.cachedBlock then
    s.diskCache (a.2 % CACHE_SIZE)
  else byteAt s.drives a

-- The same calls on a plain array for each drive.
def plainStep (bytes : Bytes) : DiskCall → Int × Bytes
  | .read drive loc => ((bytes (drive, loc.toNat)).toNat, bytes)
  | .write drive loc payload => (0, Function.update bytes (drive, loc.toNat) payload)

section Sectors

variable (drives : UInt8 → Sectors) (drive : UInt8) (buf : Store) {block : Nat}

theorem diskReadSectors_apply {count offset : Nat} (hblock : block + count ≤ 2 ^ 64)
    (hoffset : offset < BYTES_PER_SECT * count) :
    diskReadSectors drives drive buf block count offset =
      byteAt drives (drive, block * BYTES_PER_SECT + offset) := by
  simp only [BYTES_PER_SECT] at hoffset
  induction count with
  | zero => omega
  | succ count ih =>
      rw [diskReadSectors]
      by_cases hlow : offset < 512 * count
      · rw [blit_outside _ _ _ _ _ (by left; exact hlow), ih (by omega) hlow]
      · obtain ⟨rest, rfl⟩ := Nat.exists_eq_add_of_le (Nat.le_of_not_lt hlow)
        rw [show 512 * count + rest = BYTES_PER_SECT * count + rest by rfl,
          blit_inside _ _ _ _ _ (by simp only [BYTES_PER_SECT]; omega)]
        have hsector : (block * 512 + (512 * count + rest)) / 512 = block + count := by omega
        have hinside : (block * 512 + (512 * count + rest)) % 512 = rest := by omega
        have hlba : (block + count) % 2 ^ 64 = block + count := Nat.mod_eq_of_lt (by omega)
        simp only [byteAt, readInt13, BYTES_PER_SECT, hsector, hinside, hlba]

theorem byteAt_writeInt13 (lba : Nat) (tmp : Store) (a : UInt8 × Nat) :
    byteAt (writeInt13 drives drive lba tmp) a =
      if a.1 = drive ∧ a.2 / BYTES_PER_SECT = lba then tmp (a.2 % BYTES_PER_SECT)
      else byteAt drives a := by
  have hinside := blit_inside (drives a.1 (a.2 / BYTES_PER_SECT)) 0 BYTES_PER_SECT tmp
    (a.2 % BYTES_PER_SECT) (Nat.mod_lt _ (by decide))
  rw [Nat.zero_add] at hinside
  unfold byteAt writeInt13
  split
  · exact hinside
  · rfl

theorem byteAt_diskWriteSectors {count : Nat} (hblock : block + count ≤ 2 ^ 64) (a : UInt8 × Nat) :
    byteAt (diskWriteSectors drives drive buf block count) a =
      if a.1 = drive ∧ block ≤ a.2 / BYTES_PER_SECT ∧ a.2 / BYTES_PER_SECT < block + count then
        buf (a.2 - block * BYTES_PER_SECT)
      else byteAt drives a := by
  induction count with
  | zero =>
      rw [if_neg (by omega)]
      rfl
  | succ count ih =>
      rw [diskWriteSectors, byteAt_writeInt13, ih (by omega),
        Nat.mod_eq_of_lt (show block + count < 2 ^ 64 by omega)]
      by_cases hlast : a.1 = drive ∧ a.2 / BYTES_PER_SECT = block + count
      · rw [if_pos hlast, if_pos ⟨hlast.1, by omega, by omega⟩]
        congr 1
        have hsector := hlast.2
        simp only [BYTES_PER_SECT] at hsector ⊢
        omega
      · rw [if_neg hlast]
        by_cases hearlier : a.1 = drive ∧ block ≤ a.2 / BYTES_PER_SECT ∧
            a.2 / BYTES_PER_SECT < block + count
        · rw [if_pos hearlier, if_pos ⟨hearlier.1, hearlier.2.1, by omega⟩]
        · rw [if_neg hearlier, if_neg]
          rintro ⟨hdrive, hlow, hhigh⟩
          have hne : a.2 / BYTES_PER_SECT ≠ block + count := fun heq => hlast ⟨hdrive, heq⟩
          exact hearlier ⟨hdrive, hlow, by omega⟩

end Sectors

-- The cache as a write-back cache over the bytes of the drives.
def blockOf (a : UInt8 × Nat) : UInt8 × Nat := (a.1, a.2 / CACHE_SIZE)

def BdState.cached (s : BdState) : Cache (UInt8 × Nat) (UInt8 × Nat) UInt8 where
  status := Status.ofCode s.cacheStatus
  key := (s.cachedDrive, s.cachedBlock)
  data a := s.diskCache (a.2 % CACHE_SIZE)

theorem holds_iff {a : UInt8 × Nat} : s.cached.Holds blockOf a ↔
    s.cacheStatus ≠ CACHE_NOT_READY ∧ a.1 = s.cachedDrive ∧ a.2 / CACHE_SIZE = s.cachedBlock := by
  simp [Cache.Holds, BdState.cached, blockOf, CACHE_NOT_READY]

theorem overlay_eq_view (s : BdState) : s.overlay = s.cached.view blockOf (byteAt s.drives) := by
  funext a
  unfold BdState.overlay
  by_cases hholds : s.cached.Holds blockOf a
  · rw [Cache.view_hit hholds, if_pos (holds_iff.mp hholds)]
    rfl
  · rw [Cache.view_miss hholds, if_neg (mt holds_iff.mpr hholds)]

structure Sound (s : BdState) : Prop where
  coherent : s.cached.Coherent blockOf (byteAt s.drives)
  -- A block of locations below 2^64.
  block_lt : s.cacheStatus ≠ CACHE_NOT_READY → s.cachedBlock < 2 ^ 64 / CACHE_SIZE

theorem sound_of_cold (hcold : s.cacheStatus = CACHE_NOT_READY) : Sound s := by
  constructor
  · apply Cache.coherent_of_notReady
    simp [BdState.cached, hcold, CACHE_NOT_READY]
  · intro hready
    exact absurd hcold hready

theorem hit_iff : s.hit drive (loc / CACHE_SIZE) = true ↔ s.cached.Holds blockOf (drive, loc) := by
  rw [holds_iff, BdState.hit, decide_eq_true_iff]
  tauto

theorem byteAt_flush (hs : Sound s) :
    byteAt s.flush.drives = s.cached.flushed blockOf (byteAt s.drives) := by
  unfold BdState.flush
  by_cases hdirty : s.cacheStatus = CACHE_DIRTY
  · have hlt := hs.block_lt (by simp [hdirty, CACHE_DIRTY, CACHE_NOT_READY])
    have hstatus : s.cached.status = .dirty := by simp [BdState.cached, hdirty, CACHE_DIRTY]
    simp only [CACHE_SIZE, BYTES_PER_SECT, CACHE_SECTS] at hlt
    have hmod : s.cachedBlock * CACHE_SECTS % 2 ^ 64 = s.cachedBlock * CACHE_SECTS := by
      simp only [CACHE_SECTS]
      omega
    rw [if_pos hdirty]
    funext a
    rw [hmod, diskWriteSector, byteAt_diskWriteSectors _ _ _ (by simp only [CACHE_SECTS]; omega)]
    by_cases hkey : blockOf a = s.cached.key
    · have hdrive : a.1 = s.cachedDrive := congrArg Prod.fst hkey
      have hblock : a.2 / CACHE_SIZE = s.cachedBlock := congrArg Prod.snd hkey
      simp only [CACHE_SIZE, BYTES_PER_SECT, CACHE_SECTS] at hblock
      rw [Cache.flushed_dirty hstatus hkey, if_pos]
      · simp only [BdState.cached, CACHE_SIZE, BYTES_PER_SECT, CACHE_SECTS]
        congr 1
        omega
      · simp only [BYTES_PER_SECT, CACHE_SECTS]
        exact ⟨hdrive, by omega, by omega⟩
    · rw [Cache.flushed_other hkey, if_neg]
      rintro ⟨hdrive, hlow, hhigh⟩
      apply hkey
      simp only [BYTES_PER_SECT, CACHE_SECTS] at hlow hhigh
      simp only [blockOf, BdState.cached, CACHE_SIZE, BYTES_PER_SECT, CACHE_SECTS, hdrive,
        Prod.mk.injEq, true_and]
      omega
  · have hstatus : s.cached.status ≠ .dirty := by
      simpa [BdState.cached, CACHE_DIRTY] using hdirty
    rw [if_neg hdirty, Cache.flushed_of_clean hstatus]

theorem load_data (hloc : loc < 2 ^ 64) {a : UInt8 × Nat}
    (hkey : blockOf a = blockOf (drive, loc)) :
    (s.load drive (loc / CACHE_SIZE)).cached.data a =
      byteAt (s.load drive (loc / CACHE_SIZE)).drives a := by
  have hdrive : a.1 = drive := congrArg Prod.fst hkey
  have hblock : a.2 / CACHE_SIZE = loc / CACHE_SIZE := congrArg Prod.snd hkey
  simp only [CACHE_SIZE, BYTES_PER_SECT, CACHE_SECTS] at hblock
  have hmod : loc / CACHE_SIZE * CACHE_SECTS % 2 ^ 64 = loc / CACHE_SIZE * CACHE_SECTS := by
    simp only [CACHE_SIZE, BYTES_PER_SECT, CACHE_SECTS]
    omega
  show diskReadSector s.flush.drives drive s.flush.diskCache
    (loc / CACHE_SIZE * CACHE_SECTS % 2 ^ 64) (a.2 % CACHE_SIZE) = byteAt s.flush.drives a
  rw [hmod, diskReadSector, diskReadSectors_apply]
  · rw [← hdrive]
    congr 2
    simp only [CACHE_SIZE, BYTES_PER_SECT, CACHE_SECTS]
    omega
  · simp only [CACHE_SIZE, BYTES_PER_SECT, CACHE_SECTS]
    omega
  · exact Nat.mod_lt _ (by decide)

theorem load_holds : (s.load drive (loc / CACHE_SIZE)).cached.Holds blockOf (drive, loc) := by
  rw [holds_iff]
  simp [BdState.load, BdState.fetch, CACHE_READY, CACHE_NOT_READY]

-- A miss shows no user another byte.
theorem load_overlay (hs : Sound s) (hloc : loc < 2 ^ 64) :
    (s.load drive (loc / CACHE_SIZE)).overlay = s.overlay := by
  rw [overlay_eq_view, overlay_eq_view]
  exact Cache.view_of_miss hs.coherent (byteAt_flush hs) fun a hkey => load_data hloc hkey

-- A byte put into the block that is held.
theorem put_overlay {payload : UInt8} (hholds : s.cached.Holds blockOf (drive, loc)) :
    (s.put (loc % CACHE_SIZE) payload).overlay = Function.update s.overlay (drive, loc) payload := by
  rw [overlay_eq_view, overlay_eq_view]
  apply Cache.view_of_put hholds
  · simp [BdState.cached, BdState.put, CACHE_DIRTY]
  · rfl
  · intro b hkey
    have hdrive : b.1 = drive := (congrArg Prod.fst hkey).trans (congrArg Prod.fst hholds.2).symm
    have hblock : b.2 / CACHE_SIZE = loc / CACHE_SIZE :=
      (congrArg Prod.snd hkey).trans (congrArg Prod.snd hholds.2).symm
    have hsame : b.2 % CACHE_SIZE = loc % CACHE_SIZE ↔ b.2 = loc := by
      simp only [CACHE_SIZE, BYTES_PER_SECT, CACHE_SECTS] at hblock ⊢
      omega
    simp only [BdState.cached, BdState.put, Function.update_apply, Prod.ext_iff, hdrive, true_and,
      hsame]

theorem put_coherent (s : BdState) (offset : Nat) (payload : UInt8) :
    (s.put offset payload).cached.Coherent blockOf (byteAt (s.put offset payload).drives) := by
  apply Cache.coherent_of_dirty
  simp [BdState.cached, BdState.put, CACHE_DIRTY]

theorem block_lt_of_loc (hloc : loc < 2 ^ 64) : loc / CACHE_SIZE < 2 ^ 64 / CACHE_SIZE := by
  simp only [CACHE_SIZE, BYTES_PER_SECT, CACHE_SECTS]
  omega

theorem biosHarddiskRead_spec (hs : Sound s) (drive : UInt8) (hloc : loc < 2 ^ 64) :
    (biosHarddiskRead s drive loc).1 = s.overlay (drive, loc) ∧
      (biosHarddiskRead s drive loc).2.overlay = s.overlay ∧
      Sound (biosHarddiskRead s drive loc).2 := by
  unfold biosHarddiskRead
  by_cases hhit : s.hit drive (loc / CACHE_SIZE) = true
  · rw [if_pos hhit]
    refine ⟨?_, rfl, hs⟩
    rw [overlay_eq_view, Cache.view_hit (hit_iff.mp hhit)]
    rfl
  · rw [if_neg hhit]
    refine ⟨?_, load_overlay hs hloc, fun _ a hkey => load_data hloc hkey,
      fun _ => block_lt_of_loc hloc⟩
    rw [← load_overlay hs hloc, overlay_eq_view, Cache.view_hit load_holds]
    rfl

@[simp] theorem biosHarddiskWrite_result (s : BdState) (drive : UInt8) (loc : Nat)
    (payload : UInt8) : (biosHarddiskWrite s drive loc payload).1 = 0 := by
  by_cases hhit : s.hit drive (loc / CACHE_SIZE) = true <;> simp [biosHarddiskWrite, hhit]

theorem biosHarddiskWrite_spec (hs : Sound s) (drive : UInt8) (hloc : loc < 2 ^ 64) (payload : UInt8) :
    (biosHarddiskWrite s drive loc payload).2.overlay =
        Function.update s.overlay (drive, loc) payload ∧
      Sound (biosHarddiskWrite s drive loc payload).2 := by
  unfold biosHarddiskWrite
  by_cases hhit : s.hit drive (loc / CACHE_SIZE) = true
  · rw [if_pos hhit]
    have hholds := hit_iff.mp hhit
    exact ⟨put_overlay hholds, put_coherent s _ _, fun _ => hs.block_lt (holds_iff.mp hholds).1⟩
  · rw [if_neg hhit]
    refine ⟨?_, put_coherent _ _ _, fun _ => block_lt_of_loc hloc⟩
    -- The put sets the status that the load would have set.
    have hput : ((s.load drive (loc / CACHE_SIZE)).put (loc % CACHE_SIZE) payload).overlay =
        Function.update s.overlay (drive, loc) payload := by
      rw [put_overlay load_holds, load_overlay hs hloc]
    exact hput

-- For the code above it, one drive is a byte array.
theorem biosHarddisks_byteDevice (disk : Nat) : ByteDevice (biosHarddisksIoWrapper disk) (2 ^ 64) Sound
    fun s loc => s.overlay (UInt8.ofNat disk, loc) := by
  constructor
  · intro s loc _ hs hloc
    obtain ⟨hvalue, hoverlay, hnext⟩ := biosHarddiskRead_spec hs (UInt8.ofNat disk) hloc
    simp only [biosHarddisksIoWrapper, hvalue, hoverlay, hnext, and_self]
  · intro s loc payload hs hloc
    obtain ⟨hoverlay, hnext⟩ := biosHarddiskWrite_spec hs (UInt8.ofNat disk) hloc payload
    simp only [biosHarddisksIoWrapper, biosHarddiskWrite_result, hoverlay, hnext, true_and, and_true]
    funext other
    simp [Function.update_apply]

-- The machine and the plain arrays, side by side.
theorem step_plain (hs : Sound s) (call : DiskCall) :
    (step s call).1 = (plainStep s.overlay call).1 ∧
      (step s call).2.overlay = (plainStep s.overlay call).2 ∧ Sound (step s call).2 := by
  cases call with
  | read drive loc =>
      obtain ⟨hvalue, hoverlay, hnext⟩ := biosHarddiskRead_spec hs drive loc.toNat_lt
      simp only [step, plainStep]
      exact ⟨by rw [hvalue], hoverlay, hnext⟩
  | write drive loc payload =>
      obtain ⟨hoverlay, hnext⟩ := biosHarddiskWrite_spec hs drive loc.toNat_lt payload
      exact ⟨biosHarddiskWrite_result s _ _ _, hoverlay, hnext⟩

theorem trace_sound (hs : Sound s) (calls : List DiskCall) : Sound (trace step s calls).2 := by
  induction calls generalizing s with
  | nil => exact hs
  | cons call rest ih => exact ih (step_plain hs call).2.2

-- The cache never shows: every call returns what plain arrays return, and the
-- sectors under the cached block are those arrays.
theorem disk_cache_transparent (s : BdState) (calls : List DiskCall)
    (hcold : s.cacheStatus = CACHE_NOT_READY) :
    (trace step s calls).1 = (trace plainStep (byteAt s.drives) calls).1 ∧
      (trace step s calls).2.overlay = (trace plainStep (byteAt s.drives) calls).2 := by
  have hinit : s.overlay = byteAt s.drives := by
    rw [overlay_eq_view]
    apply Cache.view_of_notReady
    simp [BdState.cached, hcold, CACHE_NOT_READY]
  have hstep : ∀ t bytes, ∀ call ∈ calls, t.overlay = bytes ∧ Sound t →
      (step t call).1 = (plainStep bytes call).1 ∧
        ((step t call).2.overlay = (plainStep bytes call).2 ∧ Sound (step t call).2) := by
    intro t bytes call _ ht
    rw [← ht.1]
    exact step_plain ht.2 call
  obtain ⟨hresults, hfinal, -⟩ := trace_simulates (fun t bytes => t.overlay = bytes ∧ Sound t) hstep
    ⟨hinit, sound_of_cold hcold⟩
  exact ⟨hresults, hfinal⟩

def blankDisk : BdState where
  drives _ _ _ := 0
  cacheStatus := CACHE_NOT_READY
  cachedDrive := 0
  cachedBlock := 0
  diskCache _ := 0

-- A byte written on one drive comes back after another drive took the cache.
theorem disk_cache_transparent_switch :
    (trace step blankDisk [.write 0x80 5 7, .write 0x81 40000 9, .read 0x80 5]).1 =
      [0, 0, 7] := by
  have hruns := disk_cache_transparent blankDisk
    [.write 0x80 5 7, .write 0x81 40000 9, .read 0x80 5] (by rfl)
  rw [hruns.1]
  decide

end EchidnaOS.BiosHarddisks
