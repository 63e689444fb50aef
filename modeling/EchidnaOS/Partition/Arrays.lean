import EchidnaOS.BiosHarddisks.Transparent
import EchidnaOS.Partition.Access
import Mathlib.Tactic.Linarith

namespace EchidnaOS.Partition

open EchidnaOS.Lib.ByteStore EchidnaOS.Devfs EchidnaOS.Lib.Machine EchidnaOS.Lib.WriteBack

-- The bytes of a partition on its medium.
def Part.bytes (part : Part) (content : Store) : Store := fun loc =>
  content (part.firstSect * 512 + loc)

def sectorOf (loc : Nat) : Nat := loc / 512

def Part.cached (part : Part) : Cache Nat Nat UInt8 where
  status := Status.ofCode part.cacheState
  key := part.inCache
  data loc := part.cache (loc % 512)

-- The bytes of a partition as its users see them.
def Part.view (part : Part) (content : Store) : Store :=
  part.cached.view sectorOf (part.bytes content)

structure Part.Sound (part : Part) (content : Store) : Prop where
  coherent : part.cached.Coherent sectorOf (part.bytes content)
  inside : part.cacheState ≠ CACHE_NOTREADY → part.inCache < part.sectCount

structure Part.Fits (part : Part) (size : Nat) : Prop where
  inside : (part.firstSect + part.sectCount) * 512 ≤ size
  small : size < 2 ^ 31

section One

variable {part next : Part} {size loc sect address : Nat} {bytes after : Store}

-- What an access leaves alone.
structure Kept (part next : Part) (bytes after : Store) : Prop where
  fd : next.fd = part.fd
  firstSect : next.firstSect = part.firstSect
  sectCount : next.sectCount = part.sectCount
  outside : ∀ address, part.Outside address → after address = bytes address

theorem Part.Fits.position_eq (hfits : part.Fits size) (hsect : sect < part.sectCount) :
    part.position sect = part.firstSect * 512 + sect * 512 := by
  have hinside := hfits.inside
  have hsmall := hfits.small
  have hloc : part.sectorLoc sect = part.firstSect * 512 + sect * 512 := by
    unfold Part.sectorLoc
    omega
  have hbound : part.firstSect * 512 + sect * 512 + 1 ≤ 2 ^ 31 := by linarith
  rw [position_of_addressable, hloc]
  rw [hloc]
  exact Or.inl hbound

theorem Part.Fits.reaches (hfits : part.Fits size) (hsect : sect < part.sectCount) :
    part.position sect + 512 ≤ size := by
  have hinside := hfits.inside
  rw [hfits.position_eq hsect]
  linarith

theorem Part.Fits.inside_part (hfits : part.Fits size) (hsect : sect < part.sectCount) :
    part.Inside sect := by
  unfold Part.Inside
  rw [hfits.position_eq hsect]
  constructor
  · exact Nat.le_add_right _ _
  · linarith

theorem dirty_inside (hsound : part.Sound bytes) (hdirty : part.cacheState = CACHE_DIRTY) :
    part.inCache < part.sectCount := by
  apply hsound.inside
  simp [hdirty, CACHE_DIRTY, CACHE_NOTREADY]

-- The sector that goes back to the medium is the block of the write-back cache.
theorem flushBytes_apply (hfits : part.Fits size) (hsound : part.Sound bytes) :
    part.bytes (part.flushBytes bytes) = part.cached.flushed sectorOf (part.bytes bytes) := by
  unfold Part.flushBytes
  by_cases hdirty : part.cacheState = CACHE_DIRTY
  · have hstatus : part.cached.status = .dirty := by simp [Part.cached, hdirty, CACHE_DIRTY]
    rw [if_pos hdirty, hfits.position_eq (dirty_inside hsound hdirty)]
    funext a
    by_cases hkey : sectorOf a = part.cached.key
    · have hsector : a / 512 = part.inCache := hkey
      have hindex : part.firstSect * 512 + a =
          part.firstSect * 512 + part.inCache * 512 + a % 512 := by omega
      have hoffset := blit_inside bytes (part.firstSect * 512 + part.inCache * 512) 512 part.cache
        (a % 512) (Nat.mod_lt a (by decide))
      rw [Cache.flushed_dirty hstatus hkey, Part.bytes, hindex, hoffset]
      simp only [Part.cached]
    · have hsector : a / 512 ≠ part.inCache := hkey
      rw [Cache.flushed_other hkey]
      apply blit_outside
      omega
  · have hstatus : part.cached.status ≠ .dirty := by
      simpa [Part.cached, CACHE_DIRTY] using hdirty
    rw [if_neg hdirty, Cache.flushed_of_clean hstatus]

-- The sector that is fetched is a copy.
theorem fetchBytes_apply (hfits : part.Fits size) (hsect : sect < part.sectCount) {a : Nat}
    (ha : sectorOf a = sect) : (part.fetchBytes bytes sect).cached.data a = part.bytes bytes a := by
  have hsector : a / 512 = sect := ha
  have hoffset := blit_inside part.cache 0 512
    (fun offset => bytes (part.firstSect * 512 + sect * 512 + offset)) (a % 512)
    (Nat.mod_lt a (by decide))
  have hindex : part.firstSect * 512 + sect * 512 + a % 512 = part.firstSect * 512 + a := by omega
  rw [Nat.zero_add] at hoffset
  simp only [Part.cached, Part.fetchBytes, hfits.position_eq hsect, hoffset, hindex, Part.bytes]

theorem put_view (hholds : part.cached.Holds sectorOf loc) (payload : UInt8) (bytes : Store) :
    (part.put (loc % 512) payload).view bytes = Function.update (part.view bytes) loc payload := by
  apply Cache.view_of_put hholds
  · simp [Part.cached, Part.put, CACHE_DIRTY]
  · rfl
  · intro b hb
    have hsector : b / 512 = loc / 512 := hb.trans hholds.2.symm
    have hsame : b % 512 = loc % 512 ↔ b = loc := by omega
    simp only [Part.cached, Part.put, Function.update_apply, hsame]

theorem put_sound (hholds : part.cached.Holds sectorOf loc) (hsound : part.Sound bytes)
    (payload : UInt8) : (part.put (loc % 512) payload).Sound bytes := by
  constructor
  · apply Cache.coherent_of_dirty
    simp [Part.cached, Part.put, CACHE_DIRTY]
  · intro _
    apply hsound.inside
    simpa [Part.cached, CACHE_NOTREADY] using hholds.1

-- What a byte array answers, and what it is afterwards.
def plainResult (bytes : Store) (loc : Nat) : IoType → Int
  | .read => (bytes loc).toNat
  | .write => 0

def plainNext (bytes : Store) (loc : Nat) (payload : UInt8) : IoType → Store
  | .read => bytes
  | .write => Function.update bytes loc payload

theorem plainResult_congr {loc : Nat} (type : IoType) (heq : bytes loc = after loc) :
    plainResult bytes loc type = plainResult after loc type := by
  cases type <;> simp [plainResult, heq]

theorem plainNext_congr {address : Nat} (loc : Nat) (payload : UInt8) (type : IoType)
    (heq : bytes address = after address) :
    plainNext bytes loc payload type address = plainNext after loc payload type address := by
  cases type <;> simp [plainNext, Function.update_apply, heq]

-- The sector of the access is in the cache afterwards, and nothing else has changed.
theorem accessBytes_spec (hfits : part.Fits size) (hsound : part.Sound bytes)
    (hloc : loc < part.sectCount * 512) (type : IoType) (payload : UInt8) :
    let result := part.accessBytes bytes loc type payload
    result.1 = plainResult (part.view bytes) loc type ∧
      result.2.1.view result.2.2 = plainNext (part.view bytes) loc payload type ∧
      result.2.1.Sound result.2.2 ∧ Kept part result.2.1 bytes result.2.2 := by
  have hsect : loc / 512 < part.sectCount := by omega
  -- What holds of the loaded sector settles both types of access.
  have hloaded : ∀ loaded : Part × Store, loaded.1.cached.Holds sectorOf loc →
      loaded.1.view loaded.2 = part.view bytes → loaded.1.Sound loaded.2 →
      Kept part loaded.1 bytes loaded.2 →
      let result := match type with
        | .read => (((loaded.1.cache (loc % 512)).toNat : Int), loaded)
        | .write => (0, loaded.1.put (loc % 512) payload, loaded.2)
      result.1 = plainResult (part.view bytes) loc type ∧
        result.2.1.view result.2.2 = plainNext (part.view bytes) loc payload type ∧
        result.2.1.Sound result.2.2 ∧ Kept part result.2.1 bytes result.2.2 := by
    intro loaded hholds hview hnext hkept
    cases type with
    | read =>
        refine ⟨?_, hview, hnext, hkept⟩
        rw [plainResult, ← hview, Part.view, Cache.view_hit hholds]
        rfl
    | write =>
        refine ⟨rfl, ?_, put_sound hholds hnext payload, ?_⟩
        · rw [plainNext, ← hview]
          exact put_view hholds payload _
        · exact ⟨hkept.fd, hkept.firstSect, hkept.sectCount, hkept.outside⟩
  unfold Part.accessBytes
  by_cases hmiss : part.Misses (loc / 512)
  · rw [if_pos hmiss]
    have hdata : ∀ a, sectorOf a = loc / 512 →
        (part.fetchBytes (part.flushBytes bytes) (loc / 512)).cached.data a =
          part.bytes (part.flushBytes bytes) a :=
      fun a ha => fetchBytes_apply hfits hsect ha
    apply hloaded
    · exact ⟨by simp [Part.cached, Part.fetchBytes, CACHE_READY], rfl⟩
    · exact Cache.view_of_miss hsound.coherent (flushBytes_apply hfits hsound) hdata
    · exact ⟨fun _ => hdata, fun _ => hsect⟩
    · exact ⟨rfl, rfl, rfl, fun _ ha => flushBytes_outside
        (fun hdirty => hfits.inside_part (dirty_inside hsound hdirty)) ha⟩
  · rw [if_neg hmiss]
    unfold Part.Misses at hmiss
    push Not at hmiss
    apply hloaded
    · exact ⟨by simpa [Part.cached, CACHE_NOTREADY] using hmiss.1, hmiss.2⟩
    · rfl
    · exact hsound
    · exact ⟨rfl, rfl, rfl, fun _ _ => rfl⟩

-- Another partition sees nothing of what happens outside it.
theorem view_congr (hagree : ∀ a, a < part.sectCount * 512 → part.bytes after a = part.bytes bytes a)
    (hloc : loc < part.sectCount * 512) : part.view after loc = part.view bytes loc := by
  simp only [Part.view, Cache.view, hagree loc hloc]

theorem sound_congr (hsound : part.Sound bytes)
    (hagree : ∀ a, a < part.sectCount * 512 → part.bytes after a = part.bytes bytes a) :
    part.Sound after := by
  refine ⟨fun hready a ha => ?_, hsound.inside⟩
  have hsect : a / 512 = part.inCache := ha
  have hnotReady : part.cacheState ≠ CACHE_NOTREADY := by
    intro hcold
    simp [Part.cached, hcold, CACHE_NOTREADY, Status.ofCode] at hready
  have hinside := hsound.inside hnotReady
  rw [hagree a (by omega)]
  exact hsound.coherent hready a ha

end One

section Disk

variable {ι : Type*} [DecidableEq ι]

-- The partitions of one BIOS disk.
structure Disk (ι : Type*) where
  parts : ι → Part
  medium : Medium BiosHarddisks.BdState

structure PartCall (ι : Type*) where
  part : ι
  loc : Nat
  type : IoType
  payload : UInt8

def step (disk : Nat) (s : Disk ι) (call : PartCall ι) : Int × Disk ι :=
  let result := partitionedMediumIoWrapper (BiosHarddisks.biosHarddisksIoWrapper disk)
    (s.parts call.part) s.medium call.loc call.type call.payload
  (result.1,
    { parts := Function.update s.parts call.part result.2.1, medium := result.2.2 })

-- The same calls on an array for each partition.
def plainStep (arrays : ι → Store) (call : PartCall ι) : Int × (ι → Store) :=
  (plainResult (arrays call.part) call.loc call.type,
    Function.update arrays call.part
      (plainNext (arrays call.part) call.loc call.payload call.type))

-- The bytes of the disk, as the disk cache shows them.
def diskBytes (disk : Nat) (s : BiosHarddisks.BdState) : Store := fun loc =>
  s.overlay (UInt8.ofNat disk, loc)

def Apart (first second : Part) : Prop :=
  first.firstSect + first.sectCount ≤ second.firstSect ∨
    second.firstSect + second.sectCount ≤ first.firstSect

structure DiskSound (disk size : Nat) (s : Disk ι) : Prop where
  fits : ∀ i, (s.parts i).Fits size
  opened : ∀ i, OpenOn size s.medium (s.parts i).fd
  apart : ∀ i j, i ≠ j → Apart (s.parts i) (s.parts j)
  sound : ∀ i, (s.parts i).Sound (diskBytes disk s.medium.device)
  device : BiosHarddisks.Sound s.medium.device

-- Every array is what the users of its partition see.
def Shows (disk : Nat) (s : Disk ι) (arrays : ι → Store) : Prop :=
  ∀ i loc, loc < (s.parts i).sectCount * 512 →
    (s.parts i).view (diskBytes disk s.medium.device) loc = arrays i loc

-- The bytes of the other partitions lie outside the one that is accessed.
theorem apart_bytes {part other next : Part} {bytes after : Store}
    (hkept : Kept part next bytes after) (hapart : Apart part other) :
    ∀ a, a < other.sectCount * 512 → other.bytes after a = other.bytes bytes a := by
  intro a ha
  apply hkept.outside
  unfold Apart at hapart
  unfold Part.Outside
  omega

section Step

variable {disk size : Nat} {s : Disk ι} {call : PartCall ι}

def Disk.access (disk : Nat) (s : Disk ι) (call : PartCall ι) :
    Int × Part × Medium BiosHarddisks.BdState :=
  partitionedMediumIoWrapper (BiosHarddisks.biosHarddisksIoWrapper disk) (s.parts call.part)
    s.medium call.loc call.type call.payload

theorem step_parts (i : ι) : (step disk s call).2.parts i =
    if i = call.part then (s.access disk call).2.1 else s.parts i :=
  Function.update_apply _ _ _ _

theorem plainStep_arrays (arrays : ι → Store) (i : ι) : (plainStep arrays call).2 i =
    if i = call.part then plainNext (arrays call.part) call.loc call.payload call.type
    else arrays i :=
  Function.update_apply _ _ _ _

omit [DecidableEq ι] in
-- One access to the disk, seen from its partition.
theorem access_sound (hsound : DiskSound disk size s)
    (hloc : call.loc < (s.parts call.part).sectCount * 512) :
    (s.access disk call).1 =
        plainResult ((s.parts call.part).view (diskBytes disk s.medium.device)) call.loc call.type ∧
      (s.access disk call).2.1.view (diskBytes disk (s.access disk call).2.2.device) =
        plainNext ((s.parts call.part).view (diskBytes disk s.medium.device)) call.loc call.payload
          call.type ∧
      (s.access disk call).2.1.Sound (diskBytes disk (s.access disk call).2.2.device) ∧
      Kept (s.parts call.part) (s.access disk call).2.1 (diskBytes disk s.medium.device)
        (diskBytes disk (s.access disk call).2.2.device) ∧
      BiosHarddisks.Sound (s.access disk call).2.2.device ∧
      s.medium.Still (s.access disk call).2.2 := by
  have hfits := hsound.fits call.part
  have hsmall := hfits.small
  have hdev := (BiosHarddisks.biosHarddisks_byteDevice disk).mono (show size ≤ 2 ^ 64 by omega)
  obtain ⟨heq, hkeep, hstill⟩ := access_eq hdev (hsound.opened call.part) hsound.device
    (fun hdirty => hfits.reaches (dirty_inside (hsound.sound call.part) hdirty))
    (hfits.reaches (show call.loc / 512 < _ by omega)) call.type call.payload
  obtain ⟨hresult, hview, hnext, hkept⟩ :=
    accessBytes_spec hfits (hsound.sound call.part) hloc call.type call.payload
  have haccess : (s.parts call.part).accessBytes (diskBytes disk s.medium.device) call.loc call.type
      call.payload = ((s.access disk call).1, (s.access disk call).2.1,
        diskBytes disk (s.access disk call).2.2.device) := heq.symm
  rw [haccess] at hresult hview hnext hkept
  exact ⟨hresult, hview, hnext, hkept, hkeep, hstill⟩

theorem step_extent (hsound : DiskSound disk size s)
    (hloc : call.loc < (s.parts call.part).sectCount * 512) (i : ι) :
    ((step disk s call).2.parts i).fd = (s.parts i).fd ∧
      ((step disk s call).2.parts i).firstSect = (s.parts i).firstSect ∧
      ((step disk s call).2.parts i).sectCount = (s.parts i).sectCount := by
  obtain ⟨-, -, -, hkept, -, -⟩ := access_sound hsound hloc
  rw [step_parts]
  split
  · next heq =>
      subst heq
      exact ⟨hkept.fd, hkept.firstSect, hkept.sectCount⟩
  · exact ⟨rfl, rfl, rfl⟩

omit [DecidableEq ι] in
theorem step_others (hsound : DiskSound disk size s)
    (hloc : call.loc < (s.parts call.part).sectCount * 512) {i : ι} (hi : i ≠ call.part) :
    ∀ a, a < (s.parts i).sectCount * 512 →
      (s.parts i).bytes (diskBytes disk (s.access disk call).2.2.device) a =
        (s.parts i).bytes (diskBytes disk s.medium.device) a := by
  obtain ⟨-, -, -, hkept, -, -⟩ := access_sound hsound hloc
  exact apart_bytes hkept (hsound.apart call.part i (Ne.symm hi))

theorem step_sound (hsound : DiskSound disk size s)
    (hloc : call.loc < (s.parts call.part).sectCount * 512) :
    DiskSound disk size (step disk s call).2 := by
  obtain ⟨-, -, hnext, -, hkeep, hstill⟩ := access_sound hsound hloc
  have hextent := step_extent hsound hloc
  refine ⟨?_, ?_, ?_, ?_, hkeep⟩
  · intro i
    obtain ⟨-, hfirst, hcount⟩ := hextent i
    exact ⟨by rw [hfirst, hcount]; exact (hsound.fits i).inside, (hsound.fits i).small⟩
  · intro i
    rw [(hextent i).1]
    exact (hsound.opened i).of_still hstill
  · intro i j hij
    unfold Apart
    rw [(hextent i).2.1, (hextent i).2.2, (hextent j).2.1, (hextent j).2.2]
    exact hsound.apart i j hij
  · intro i
    rw [step_parts]
    split
    · exact hnext
    · next hi => exact sound_congr (hsound.sound i) (step_others hsound hloc hi)

theorem step_shows (hsound : DiskSound disk size s)
    (hloc : call.loc < (s.parts call.part).sectCount * 512) {arrays : ι → Store}
    (hshows : Shows disk s arrays) :
    (step disk s call).1 = (plainStep arrays call).1 ∧
      Shows disk (step disk s call).2 (plainStep arrays call).2 := by
  obtain ⟨hresult, hview, -⟩ := access_sound hsound hloc
  constructor
  · exact hresult.trans (plainResult_congr call.type (hshows call.part call.loc hloc))
  · intro i loc hi
    rw [(step_extent hsound hloc i).2.2] at hi
    rw [step_parts, plainStep_arrays]
    by_cases hpart : i = call.part
    · subst hpart
      rw [if_pos rfl, if_pos rfl, ← plainNext_congr call.loc call.payload call.type (hshows _ loc hi),
        ← hview]
      rfl
    · rw [if_neg hpart, if_neg hpart, ← hshows i loc hi]
      exact view_congr (step_others hsound hloc hpart) hi

end Step

-- The state of the disk driver after any calls since the kernel started.
def Reached (s : BiosHarddisks.BdState) : Prop :=
  ∃ boot calls, boot.cacheStatus = BiosHarddisks.CACHE_NOT_READY ∧
    s = (trace BiosHarddisks.step boot calls).2

theorem Reached.sound {s : BiosHarddisks.BdState} (hreached : Reached s) : BiosHarddisks.Sound s := by
  obtain ⟨boot, calls, hboot, rfl⟩ := hreached
  exact BiosHarddisks.trace_sound (BiosHarddisks.sound_of_cold hboot) calls

-- Partitions that lie apart on one disk are arrays of their own.
theorem partitions_independent {disk size : Nat} {s : Disk ι} {calls : List (PartCall ι)}
    (hsize : size < 2 ^ 31)
    (hinside : ∀ i, ((s.parts i).firstSect + (s.parts i).sectCount) * 512 ≤ size)
    (hapart : ∀ i j, i ≠ j → Apart (s.parts i) (s.parts j))
    (hopen : ∀ i, OpenOn size s.medium (s.parts i).fd)
    (hcold : ∀ i, (s.parts i).cacheState = CACHE_NOTREADY)
    (hdisk : Reached s.medium.device)
    (hcalls : ∀ call ∈ calls, call.loc < (s.parts call.part).sectCount * 512) :
    (trace (step disk) s calls).1 =
      (trace plainStep (fun i => (s.parts i).bytes (diskBytes disk s.medium.device)) calls).1 := by
  have hstatus : ∀ i, (s.parts i).cached.status = .notReady := by
    intro i
    simp [Part.cached, hcold i, CACHE_NOTREADY]
  have hsound : DiskSound disk size s := by
    refine ⟨fun i => ⟨hinside i, hsize⟩, hopen, hapart, fun i => ⟨?_, ?_⟩, hdisk.sound⟩
    · exact Cache.coherent_of_notReady (hstatus i)
    · intro hready
      exact absurd (hcold i) hready
  have hshows : Shows disk s fun i => (s.parts i).bytes (diskBytes disk s.medium.device) := by
    intro i loc _
    rw [Part.view, Cache.view_of_notReady (hstatus i)]
  refine (trace_simulates (fun t arrays => DiskSound disk size t ∧ Shows disk t arrays ∧
    ∀ i, (t.parts i).sectCount = (s.parts i).sectCount) ?_
      ⟨hsound, hshows, fun _ => rfl⟩).1
  rintro t arrays call hcall ⟨ht, hview, hcount⟩
  have hloc : call.loc < (t.parts call.part).sectCount * 512 := by
    rw [hcount]
    exact hcalls call hcall
  obtain ⟨hresult, hnext⟩ := step_shows ht hloc hview
  exact ⟨hresult, step_sound ht hloc, hnext,
    fun i => (step_extent ht hloc i).2.2.trans (hcount i)⟩

end Disk

-- One sector for each of two partitions, beside one another.
def twoParts : Disk Bool where
  parts i :=
    { fd := if i then 1 else 0
      firstSect := if i then 2 else 1
      sectCount := 1
      inCache := 0
      cache := fun _ => 0
      cacheState := CACHE_NOTREADY }
  medium :=
    { handles := fun _ => { finish := 2048 }
      handlesPtr := 2
      device := BiosHarddisks.blankDisk }

theorem partitions_independent_pair :
    (trace (step 0x80) twoParts [⟨false, 5, .write, 7⟩, ⟨true, 5, .write, 9⟩, ⟨false, 5, .read, 0⟩]).1 =
      [0, 0, 7] := by
  have hruns := @partitions_independent Bool _ 0x80 2048 twoParts
    [⟨false, 5, .write, 7⟩, ⟨true, 5, .write, 9⟩, ⟨false, 5, .read, 0⟩]
    (by decide) (by decide) (by unfold Apart; decide)
    (fun i => ⟨by cases i <;> decide, rfl, rfl, rfl, rfl⟩) (fun _ => rfl)
    ⟨BiosHarddisks.blankDisk, [], rfl, rfl⟩ (by decide)
  rw [hruns]
  decide

end EchidnaOS.Partition
