import EchidnaOS.BiosHarddisks.Transparent
import EchidnaOS.Lib.Requests

namespace EchidnaOS.BiosHarddisks

open EchidnaOS.Lib.ByteStore EchidnaOS.Lib.Requests Asking

def DiskCall.drive : DiskCall → UInt8
  | .read drive _ | .write drive _ _ => drive

def DiskCall.loc : DiskCall → UInt64
  | .read _ loc | .write _ loc _ => loc

-- A sector that the BIOS is asked for.
structure Request where
  drive : UInt8
  lba : Nat

-- The code with the carry flag, which is clear where `works`. A set flag is the panic.
namespace Int13

variable (works : Request → Bool)

def diskReadSectors (drives : UInt8 → Sectors) (drive : UInt8) (buf : Store) (block : Nat) :
    Nat → Asking Request Store
  | 0 => done buf
  | i + 1 => (diskReadSectors drives drive buf block i).andThen fun buf =>
      (ask works ⟨drive, (block + i) % 2 ^ 64⟩).andThen fun _ =>
        done (blit buf (BYTES_PER_SECT * i) BYTES_PER_SECT
          (readInt13 drives drive ((block + i) % 2 ^ 64)))

def diskWriteSectors (drives : UInt8 → Sectors) (drive : UInt8) (buf : Store) (block : Nat) :
    Nat → Asking Request (UInt8 → Sectors)
  | 0 => done drives
  | i + 1 => (diskWriteSectors drives drive buf block i).andThen fun drives =>
      (ask works ⟨drive, (block + i) % 2 ^ 64⟩).andThen fun _ =>
        done (writeInt13 drives drive ((block + i) % 2 ^ 64)
          fun offset => buf (BYTES_PER_SECT * i + offset))

def diskReadSector (drives : UInt8 → Sectors) (drive : UInt8) (buf : Store) (block : Nat) :
    Asking Request Store :=
  diskReadSectors works drives drive buf block CACHE_SECTS

def diskWriteSector (drives : UInt8 → Sectors) (drive : UInt8) (buf : Store) (block : Nat) :
    Asking Request (UInt8 → Sectors) :=
  diskWriteSectors works drives drive buf block CACHE_SECTS

def flush (s : BdState) : Asking Request BdState :=
  if s.cacheStatus = CACHE_DIRTY then
    (diskWriteSector works s.drives s.cachedDrive s.diskCache
      (s.cachedBlock * CACHE_SECTS % 2 ^ 64)).andThen fun drives => done { s with drives := drives }
  else done s

def fetch (s : BdState) (drive : UInt8) (block : Nat) : Asking Request BdState :=
  (diskReadSector works s.drives drive s.diskCache (block * CACHE_SECTS % 2 ^ 64)).andThen fun buf =>
    done { s with diskCache := buf, cachedDrive := drive, cachedBlock := block }

def biosHarddiskRead (s : BdState) (drive : UInt8) (loc : Nat) : Asking Request (UInt8 × BdState) :=
  let block := loc / CACHE_SIZE
  let offset := loc % CACHE_SIZE
  if s.hit drive block then done (s.diskCache offset, s)
  else (flush works s).andThen fun s => (fetch works s drive block).andThen fun s =>
    done (s.diskCache offset, { s with cacheStatus := CACHE_READY })

def biosHarddiskWrite (s : BdState) (drive : UInt8) (loc : Nat) (payload : UInt8) :
    Asking Request (Int × BdState) :=
  let block := loc / CACHE_SIZE
  let offset := loc % CACHE_SIZE
  if s.hit drive block then done (0, s.put offset payload)
  else (flush works s).andThen fun s => (fetch works s drive block).andThen fun s =>
    done (0, s.put offset payload)

def step (s : BdState) : DiskCall → Asking Request (Int × BdState)
  | .read drive loc => (biosHarddiskRead works s drive loc.toNat).andThen fun result =>
      done (result.1.toNat, result.2)
  | .write drive loc payload => biosHarddiskWrite works s drive loc.toNat payload

end Int13

-- The BIOS is asked for sectors of the drives only, and no call of the run panics.
def Accessible (lbaCount : UInt8 → Nat) (works : Request → Bool) : BdState → List DiskCall → Prop
  | _, [] => True
  | s, call :: rest =>
      (Int13.step works s call).Served (fun request => request.lba < lbaCount request.drive) ∧
        ∀ result, (Int13.step works s call).result = some result →
          Accessible lbaCount works result.2 rest

-- A location of the drive.
def DiskCall.InRange (lbaCount : UInt8 → Nat) (call : DiskCall) : Prop :=
  call.loc.toNat < lbaCount call.drive * BYTES_PER_SECT

-- The whole group of sectors of the location is on the drive.
def GroupInside (lbaCount : UInt8 → Nat) (drive : UInt8) (block : Nat) : Prop :=
  (block + 1) * CACHE_SECTS ≤ lbaCount drive

variable {lbaCount : UInt8 → Nat} {works : Request → Bool} {s : BdState}
  {drives : UInt8 → Sectors} {drive : UInt8} {buf : Store} {block count loc : Nat} {payload : UInt8}

-- Every sector of the drives works.
def Works (lbaCount : UInt8 → Nat) (works : Request → Bool) : Prop :=
  ∀ request : Request, request.lba < lbaCount request.drive → works request = true

theorem groupInside_iff (hblock : block < 2 ^ 64 / CACHE_SIZE) :
    (∀ i < CACHE_SECTS, (block * CACHE_SECTS % 2 ^ 64 + i) % 2 ^ 64 < lbaCount drive) ↔
      GroupInside lbaCount drive block := by
  simp only [CACHE_SIZE, BYTES_PER_SECT, CACHE_SECTS, GroupInside] at *
  constructor
  · intro hall
    have hlast := hall 63 (by omega)
    omega
  · intro hinside i hi
    omega

section Sectors

variable (hworks : Works lbaCount works)

include hworks

theorem diskReadSectors_spec :
    Spec (fun request => request.lba < lbaCount request.drive)
      (Int13.diskReadSectors works drives drive buf block count)
      (∀ i < count, (block + i) % 2 ^ 64 < lbaCount drive)
      (diskReadSectors drives drive buf block count) := by
  induction count with
  | zero => exact (spec_done _ buf).congr (by simp)
  | succ count ih =>
      exact (ih.andThen (spec_ask_done hworks _ _)).congr Nat.forall_lt_succ_right.symm

theorem diskWriteSectors_spec :
    Spec (fun request => request.lba < lbaCount request.drive)
      (Int13.diskWriteSectors works drives drive buf block count)
      (∀ i < count, (block + i) % 2 ^ 64 < lbaCount drive)
      (diskWriteSectors drives drive buf block count) := by
  induction count with
  | zero => exact (spec_done _ drives).congr (by simp)
  | succ count ih =>
      exact (ih.andThen (spec_ask_done hworks _ _)).congr Nat.forall_lt_succ_right.symm

theorem fetch_spec (hblock : block < 2 ^ 64 / CACHE_SIZE) :
    Spec (fun request => request.lba < lbaCount request.drive) (Int13.fetch works s drive block)
      (GroupInside lbaCount drive block) (s.fetch drive block) :=
  ((diskReadSectors_spec hworks).andThen_done _).congr (groupInside_iff hblock)

end Sectors

-- The cached group can be written back.
def CachedInside (lbaCount : UInt8 → Nat) (s : BdState) : Prop :=
  s.cacheStatus ≠ CACHE_NOT_READY →
    s.cachedBlock < 2 ^ 64 / CACHE_SIZE ∧ GroupInside lbaCount s.cachedDrive s.cachedBlock

theorem groupInside_of_hit (hs : CachedInside lbaCount s) (hhit : s.hit drive block = true) :
    GroupInside lbaCount drive block := by
  obtain ⟨rfl, rfl, hready⟩ := of_decide_eq_true hhit
  exact (hs hready).2

section Calls

variable (hworks : Works lbaCount works) (hs : CachedInside lbaCount s)

include hworks hs

theorem flush_spec : Spec (fun request => request.lba < lbaCount request.drive)
    (Int13.flush works s) True s.flush := by
  unfold Int13.flush BdState.flush
  by_cases hdirty : s.cacheStatus = CACHE_DIRTY
  · obtain ⟨hblock, hinside⟩ := hs (by simp [hdirty, CACHE_DIRTY, CACHE_NOT_READY])
    rw [if_pos hdirty, if_pos hdirty]
    apply ((diskWriteSectors_spec hworks).andThen_done _).congr
    rw [groupInside_iff hblock]
    exact iff_of_true hinside trivial
  · rw [if_neg hdirty, if_neg hdirty]
    exact spec_done _ s

-- A miss, and what the caller does with the group.
theorem miss_spec {α : Type} (hblock : block < 2 ^ 64 / CACHE_SIZE) (f : BdState → α) :
    Spec (fun request => request.lba < lbaCount request.drive)
      ((Int13.flush works s).andThen fun s => (Int13.fetch works s drive block).andThen fun s =>
        done (f s))
      (GroupInside lbaCount drive block) (f (s.flush.fetch drive block)) := by
  apply ((flush_spec hworks hs).andThen ((fetch_spec hworks hblock).andThen_done f)).congr
  simp

theorem biosHarddiskRead_requests (hloc : loc < 2 ^ 64) :
    Spec (fun request => request.lba < lbaCount request.drive)
      (Int13.biosHarddiskRead works s drive loc) (GroupInside lbaCount drive (loc / CACHE_SIZE))
      (biosHarddiskRead s drive loc) := by
  unfold Int13.biosHarddiskRead biosHarddiskRead
  by_cases hhit : s.hit drive (loc / CACHE_SIZE) = true
  · simp only [hhit, if_true]
    exact (spec_done _ _).congr (iff_of_true trivial (groupInside_of_hit hs hhit))
  · simp only [hhit, Bool.false_eq_true, if_false]
    exact miss_spec hworks hs (block_lt_of_loc hloc) _

theorem biosHarddiskWrite_requests (hloc : loc < 2 ^ 64) :
    Spec (fun request => request.lba < lbaCount request.drive)
      (Int13.biosHarddiskWrite works s drive loc payload)
      (GroupInside lbaCount drive (loc / CACHE_SIZE)) (biosHarddiskWrite s drive loc payload) := by
  unfold Int13.biosHarddiskWrite biosHarddiskWrite
  by_cases hhit : s.hit drive (loc / CACHE_SIZE) = true
  · simp only [hhit, if_true]
    exact (spec_done _ _).congr (iff_of_true trivial (groupInside_of_hit hs hhit))
  · simp only [hhit, Bool.false_eq_true, if_false]
    exact miss_spec hworks hs (block_lt_of_loc hloc) _

theorem step_requests (call : DiskCall) :
    Spec (fun request => request.lba < lbaCount request.drive) (Int13.step works s call)
      (GroupInside lbaCount call.drive (call.loc.toNat / CACHE_SIZE)) (step s call) := by
  cases call with
  | read drive loc => exact (biosHarddiskRead_requests hworks hs loc.toNat_lt).andThen_done _
  | write drive loc payload => exact biosHarddiskWrite_requests hworks hs loc.toNat_lt

end Calls

-- The group of the last access is the cached one.
theorem step_group (s : BdState) (call : DiskCall) :
    (step s call).2.cachedDrive = call.drive ∧
      (step s call).2.cachedBlock = call.loc.toNat / CACHE_SIZE := by
  cases call with
  | read drive loc =>
      by_cases hhit : s.hit drive (loc.toNat / CACHE_SIZE) = true
      · obtain ⟨hblock, hdrive, -⟩ := of_decide_eq_true hhit
        simp only [step, biosHarddiskRead, hhit, if_true]
        exact ⟨hdrive.symm, hblock.symm⟩
      · simp [step, biosHarddiskRead, hhit, DiskCall.drive, DiskCall.loc, BdState.load, BdState.fetch]
  | write drive loc payload =>
      by_cases hhit : s.hit drive (loc.toNat / CACHE_SIZE) = true
      · obtain ⟨hblock, hdrive, -⟩ := of_decide_eq_true hhit
        simp only [step, biosHarddiskWrite, hhit, if_true]
        exact ⟨hdrive.symm, hblock.symm⟩
      · simp [step, biosHarddiskWrite, hhit, DiskCall.drive, DiskCall.loc, BdState.fetch, BdState.put]

theorem step_cachedInside {call : DiskCall}
    (hinside : GroupInside lbaCount call.drive (call.loc.toNat / CACHE_SIZE)) :
    CachedInside lbaCount (step s call).2 := by
  intro _
  obtain ⟨hdrive, hblock⟩ := step_group s call
  rw [hdrive, hblock]
  exact ⟨block_lt_of_loc call.loc.toNat_lt, hinside⟩

-- An access to a group that is not whole misses the cache.
theorem accessible_iff_of_cachedInside (hworks : Works lbaCount works) (hs : CachedInside lbaCount s)
    (calls : List DiskCall) : Accessible lbaCount works s calls ↔
      ∀ call ∈ calls, GroupInside lbaCount call.drive (call.loc.toNat / CACHE_SIZE) := by
  induction calls generalizing s with
  | nil => simp [Accessible]
  | cons call rest ih =>
      have hspec := step_requests hworks hs call
      rw [Accessible, hspec.served, List.forall_mem_cons]
      apply and_congr_right
      intro hinside
      rw [hspec.result_eq hinside]
      simp [ih (step_cachedInside hinside)]

theorem accessible_iff (hworks : Works lbaCount works) (hcold : s.cacheStatus = CACHE_NOT_READY)
    (calls : List DiskCall) : Accessible lbaCount works s calls ↔
      ∀ call ∈ calls, GroupInside lbaCount call.drive (call.loc.toNat / CACHE_SIZE) :=
  accessible_iff_of_cachedInside hworks (fun hready => absurd hcold hready) calls

theorem accessible_of_groupInside : Accessible (fun _ => 128) (fun request => request.lba < 128)
    blankDisk [.write 0x80 51199 7, .read 0x81 65535] :=
  (accessible_iff (by simp [Works]) (by rfl) _).mpr
    (by simp [GroupInside, DiskCall.loc, CACHE_SIZE, BYTES_PER_SECT, CACHE_SECTS])

-- The last byte of a drive of 100 sectors: its group begins with sector 64.
theorem last_byte_panics : ¬∀ (lbaCount : UInt8 → Nat) (works : Request → Bool) (s : BdState)
    (calls : List DiskCall), Works lbaCount works → s.cacheStatus = CACHE_NOT_READY →
      (∀ call ∈ calls, call.InRange lbaCount) → Accessible lbaCount works s calls := by
  intro hall
  have hworks : Works (fun _ => 100) fun request => decide (request.lba < 100) := by
    simp [Works]
  have hrange : (DiskCall.read 0x80 51199).InRange fun _ => 100 := by
    simp [DiskCall.InRange, DiskCall.loc, BYTES_PER_SECT]
  have hgroup : ¬GroupInside (fun _ => 100) (DiskCall.read 0x80 51199).drive
      ((DiskCall.read 0x80 51199).loc.toNat / CACHE_SIZE) := by
    simp [GroupInside, DiskCall.loc, CACHE_SIZE, BYTES_PER_SECT, CACHE_SECTS]
  have hcached : CachedInside (fun _ => 100) blankDisk := by
    simp [CachedInside, blankDisk]
  have haccessible := (accessible_iff_of_cachedInside hworks hcached _).mp
    (hall _ _ blankDisk [.read 0x80 51199] hworks rfl (List.forall_mem_singleton.mpr hrange))
  exact hgroup (haccessible _ List.mem_cons_self)

end EchidnaOS.BiosHarddisks
