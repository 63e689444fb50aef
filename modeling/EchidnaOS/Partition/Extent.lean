import EchidnaOS.Partition.Arrays

namespace EchidnaOS.Partition

open EchidnaOS.Lib.ByteStore EchidnaOS.Devfs EchidnaOS.Lib.Machine

section One

variable {part : Part} {loc sect address : Nat} {bytes after : Store}

-- The bytes of such a sector are not outside.
theorem Part.Inside.not_outside (hinside : part.Inside sect) {offset : Nat} (hoffset : offset < 512) :
    ¬ part.Outside (part.position sect + offset) := by
  have hsector := hinside.sector
  have hfirst := hinside.1
  unfold Part.Outside
  omega

theorem flushBytes_congr (hagree : ∀ address, ¬ part.Outside address → after address = bytes address)
    (hinside : ¬ part.Outside address) :
    part.flushBytes after address = part.flushBytes bytes address := by
  unfold Part.flushBytes
  split
  · simp only [blit, hagree address hinside]
  · exact hagree address hinside

theorem fetchBytes_congr (hagree : ∀ address, ¬ part.Outside address → after address = bytes address)
    (hsect : part.Inside sect) : part.fetchBytes after sect = part.fetchBytes bytes sect := by
  have hcache : blit part.cache 0 512 (fun offset => after (part.position sect + offset)) =
      blit part.cache 0 512 fun offset => bytes (part.position sect + offset) := by
    funext address
    by_cases hrange : 0 ≤ address ∧ address < 0 + 512
    · simp only [blit, if_pos hrange]
      exact hagree _ (hsect.not_outside (by omega))
    · simp only [blit, if_neg hrange]
  unfold Part.fetchBytes
  rw [hcache]

-- Nothing outside the partition changes, and a dirty sector lies inside it.
structure Stays (part next : Part) (bytes after : Store) : Prop where
  fd : next.fd = part.fd
  firstSect : next.firstSect = part.firstSect
  sectCount : next.sectCount = part.sectCount
  outside : ∀ address, part.Outside address → after address = bytes address
  dirty : next.cacheState = CACHE_DIRTY → part.Inside next.inCache

theorem accessBytes_stays (bytes : Store)
    (hdirty : part.cacheState = CACHE_DIRTY → part.Inside part.inCache)
    (hsect : part.Inside (loc / 512)) (type : IoType) (payload : UInt8) :
    Stays part (part.accessBytes bytes loc type payload).2.1 bytes
      (part.accessBytes bytes loc type payload).2.2 := by
  unfold Part.accessBytes
  by_cases hmiss : part.Misses (loc / 512)
  · rw [if_pos hmiss]
    have hready : (part.fetchBytes (part.flushBytes bytes) (loc / 512)).cacheState = CACHE_DIRTY →
        part.Inside (loc / 512) := fun _ => hsect
    cases type with
    | read => exact ⟨rfl, rfl, rfl, fun _ ha => flushBytes_outside hdirty ha, hready⟩
    | write => exact ⟨rfl, rfl, rfl, fun _ ha => flushBytes_outside hdirty ha, fun _ => hsect⟩
  · rw [if_neg hmiss]
    unfold Part.Misses at hmiss
    push Not at hmiss
    have hheld : part.Inside part.inCache := hmiss.2 ▸ hsect
    cases type with
    | read => exact ⟨rfl, rfl, rfl, fun _ _ => rfl, fun _ => hheld⟩
    | write => exact ⟨rfl, rfl, rfl, fun _ _ => rfl, fun _ => hheld⟩

-- The bytes outside have no part in it either.
theorem accessBytes_congr (hagree : ∀ address, ¬ part.Outside address → after address = bytes address)
    (hsect : part.Inside (loc / 512)) (type : IoType) (payload : UInt8) :
    (part.accessBytes after loc type payload).1 = (part.accessBytes bytes loc type payload).1 ∧
      (part.accessBytes after loc type payload).2.1 = (part.accessBytes bytes loc type payload).2.1 ∧
      ∀ address, ¬ part.Outside address → (part.accessBytes after loc type payload).2.2 address =
        (part.accessBytes bytes loc type payload).2.2 address := by
  have hflush : ∀ address, ¬ part.Outside address →
      part.flushBytes after address = part.flushBytes bytes address :=
    fun _ ha => flushBytes_congr hagree ha
  have hfetch := fetchBytes_congr hflush hsect
  unfold Part.accessBytes
  by_cases hmiss : part.Misses (loc / 512)
  · rw [if_pos hmiss, if_pos hmiss, hfetch]
    cases type <;> exact ⟨rfl, rfl, hflush⟩
  · rw [if_neg hmiss, if_neg hmiss]
    cases type <;> exact ⟨rfl, rfl, hagree⟩

end One

section Accesses

open BiosHarddisks (BdState biosHarddisksIoWrapper biosHarddisks_byteDevice)

abbrev PartState := Part × Medium BdState

-- The driver of a partition device on one BIOS disk.
def partIo (disk : Nat) : IoWrapper PartState := fun s loc type payload =>
  partitionedMediumIoWrapper (biosHarddisksIoWrapper disk) s.1 s.2 loc type payload

-- A call of vfs_kread or vfs_kwrite.
structure KernelAccess where
  path : CString
  loc : UInt64
  type : IoType
  payload : UInt8

variable (resolve : CString → Option CString) (devices : List (Device PartState))

def kernelStep (s : PartState) (access : KernelAccess) : Int × PartState :=
  match access.type with
  | .read => vfsKread resolve devices access.path access.loc.toNat s
  | .write => vfsKwrite resolve devices access.path access.loc.toNat access.payload s

-- The states of a partition that lies on its medium.
structure PartSafe (disk size : Nat) (s : PartState) : Prop where
  extent : (s.1.firstSect + s.1.sectCount) * 512 ≤ size
  small : size ≤ 2 ^ 64
  opened : OpenOn size s.2 s.1.fd
  device : BiosHarddisks.Sound s.2.device
  dirty : s.1.cacheState = CACHE_DIRTY → s.1.Inside s.1.inCache

variable {resolve devices} {disk size : Nat} {s t : PartState} {device : Device PartState}
  {access : KernelAccess} {accesses : List KernelAccess}

theorem inside_congr {part next : Part} (hfirst : next.firstSect = part.firstSect)
    (hcount : next.sectCount = part.sectCount) (sect : Nat) : next.Inside sect ↔ part.Inside sect := by
  simp only [Part.Inside, Part.position, Part.sectorLoc, hfirst, hcount]

theorem kernelStep_eq (hpath : deviceOf resolve devices access.path = some device)
    (hdevice : device.ioWrapper = partIo disk) : ∃ payload,
    ∀ s, kernelStep resolve devices s access = partIo disk s access.loc.toNat access.type payload := by
  unfold kernelStep vfsKread vfsKwrite
  rw [hpath, ← hdevice]
  cases access.type with
  | read => exact ⟨0, fun _ => rfl⟩
  | write => exact ⟨access.payload, fun _ => rfl⟩

theorem partIo_eq {loc : Nat} (hopen : OpenOn size s.2 s.1.fd) (hsize : size ≤ 2 ^ 64)
    (hdisk : BiosHarddisks.Sound s.2.device)
    (hdirty : s.1.cacheState = CACHE_DIRTY → s.1.position s.1.inCache + 512 ≤ size)
    (hreach : s.1.position (loc / 512) + 512 ≤ size) (type : IoType) (payload : UInt8) :
    let result := partIo disk s loc type payload
    (result.1, result.2.1, diskBytes disk result.2.2.device) =
        s.1.accessBytes (diskBytes disk s.2.device) loc type payload ∧
      BiosHarddisks.Sound result.2.2.device ∧ s.2.Still result.2.2 :=
  access_eq ((biosHarddisks_byteDevice disk).mono hsize) hopen hdisk hdirty hreach type payload

theorem partIo_spec (hs : PartSafe disk size s) {loc : Nat} (hsect : s.1.Inside (loc / 512))
    (type : IoType) (payload : UInt8) :
    let result := partIo disk s loc type payload
    (result.1, result.2.1, diskBytes disk result.2.2.device) =
        s.1.accessBytes (diskBytes disk s.2.device) loc type payload ∧
      PartSafe disk size result.2 ∧
      Stays s.1 result.2.1 (diskBytes disk s.2.device) (diskBytes disk result.2.2.device) := by
  obtain ⟨heq, hkeep, hstill⟩ :=
    partIo_eq hs.opened hs.small hs.device (fun hstate => (hs.dirty hstate).sector.trans hs.extent)
      (hsect.sector.trans hs.extent) type payload
  have hstays : Stays s.1 (partIo disk s loc type payload).2.1 (diskBytes disk s.2.device)
      (diskBytes disk (partIo disk s loc type payload).2.2.device) := by
    have hpure := accessBytes_stays (diskBytes disk s.2.device) hs.dirty hsect type payload
    rw [show s.1.accessBytes (diskBytes disk s.2.device) loc type payload = _ from heq.symm] at hpure
    exact hpure
  refine ⟨heq, ⟨?_, hs.small, ?_, hkeep, ?_⟩, hstays⟩
  · rw [hstays.firstSect, hstays.sectCount]
    exact hs.extent
  · rw [hstays.fd]
    exact hs.opened.of_still hstill
  · intro hstate
    rw [inside_congr hstays.firstSect hstays.sectCount]
    exact hstays.dirty hstate

theorem Stays.outside_iff {part next : Part} {bytes after : Store} (hstays : Stays part next bytes after)
    (address : Nat) : next.Outside address ↔ part.Outside address := by
  simp only [Part.Outside, hstays.firstSect, hstays.sectCount]

-- A whole run leaves the bytes outside alone.
theorem trace_stays (hs : PartSafe disk size s) (hdevice : device.ioWrapper = partIo disk)
    (hpaths : ∀ access ∈ accesses, deviceOf resolve devices access.path = some device)
    (hinside : ∀ access ∈ accesses, s.1.Inside (access.loc.toNat / 512)) {address : Nat}
    (houtside : s.1.Outside address) :
    diskBytes disk (trace (kernelStep resolve devices) s accesses).2.2.device address =
      diskBytes disk s.2.device address := by
  induction accesses generalizing s with
  | nil => rfl
  | cons access rest ih =>
      obtain ⟨payload, hstep⟩ := kernelStep_eq (hpaths access List.mem_cons_self) hdevice
      obtain ⟨-, hsafe, hstays⟩ := partIo_spec hs (hinside access List.mem_cons_self) access.type payload
      rw [← hstep] at hsafe hstays
      rw [trace, ih hsafe, hstays.outside address houtside]
      · exact fun other ho => hpaths other (List.mem_cons_of_mem access ho)
      · intro other ho
        rw [inside_congr hstays.firstSect hstays.sectCount]
        exact hinside other (List.mem_cons_of_mem access ho)
      · exact (hstays.outside_iff address).mpr houtside

-- Two media that agree inside the partition.
structure Agrees (disk size : Nat) (part : Part) (s t : PartState) : Prop where
  safe : PartSafe disk size s
  other : PartSafe disk size t
  part_eq : t.1 = s.1
  firstSect : s.1.firstSect = part.firstSect
  sectCount : s.1.sectCount = part.sectCount
  inside : ∀ address, ¬ s.1.Outside address →
    diskBytes disk t.2.device address = diskBytes disk s.2.device address

theorem kernelStep_agrees {part : Part} (hagrees : Agrees disk size part s t)
    (hdevice : device.ioWrapper = partIo disk)
    (hpath : deviceOf resolve devices access.path = some device)
    (hinside : part.Inside (access.loc.toNat / 512)) :
    (kernelStep resolve devices s access).1 = (kernelStep resolve devices t access).1 ∧
      Agrees disk size part (kernelStep resolve devices s access).2
        (kernelStep resolve devices t access).2 := by
  obtain ⟨payload, hstep⟩ := kernelStep_eq hpath hdevice
  have hsect : s.1.Inside (access.loc.toNat / 512) :=
    (inside_congr hagrees.firstSect hagrees.sectCount _).mpr hinside
  obtain ⟨hfirst, hsafe, hstays⟩ := partIo_spec hagrees.safe hsect access.type payload
  obtain ⟨hsecond, hother, -⟩ := partIo_spec hagrees.other (hagrees.part_eq ▸ hsect) access.type payload
  obtain ⟨hresult, hpart, hbytes⟩ := accessBytes_congr hagrees.inside hsect access.type payload
  rw [hagrees.part_eq] at hsecond
  rw [← hfirst, ← hsecond] at hresult hpart hbytes
  rw [hstep, hstep]
  refine ⟨hresult.symm, ⟨hsafe, hother, hpart, ?_, ?_, ?_⟩⟩
  · exact hstays.firstSect.trans hagrees.firstSect
  · exact hstays.sectCount.trans hagrees.sectCount
  · intro address haddress
    exact hbytes address (mt (hstays.outside_iff address).mpr haddress)

-- Accesses whose sectors the transfers place inside the partition change no byte outside it
-- and answer alike whatever the bytes outside are.
theorem extent_respected {part : Part} {m : Medium BdState}
    (hdevice : device.ioWrapper = partIo disk)
    (hextent : (part.firstSect + part.sectCount) * 512 ≤ size) (hsize : size ≤ 2 ^ 64)
    (hopen : OpenOn size m part.fd) (hdisk : Reached m.device)
    (hclean : part.cacheState ≠ CACHE_DIRTY)
    (hpaths : ∀ access ∈ accesses, deviceOf resolve devices access.path = some device)
    (hinside : ∀ access ∈ accesses, part.Inside (access.loc.toNat / 512)) :
    (∀ address, part.Outside address →
      diskBytes disk (trace (kernelStep resolve devices) (part, m) accesses).2.2.device address =
        diskBytes disk m.device address) ∧
    ∀ other : Medium BdState, OpenOn size other part.fd → Reached other.device →
      (∀ address, ¬ part.Outside address →
        diskBytes disk other.device address = diskBytes disk m.device address) →
      (trace (kernelStep resolve devices) (part, other) accesses).1 =
        (trace (kernelStep resolve devices) (part, m) accesses).1 := by
  have hsafe : ∀ medium : Medium BdState, OpenOn size medium part.fd → Reached medium.device →
      PartSafe disk size (part, medium) :=
    fun _ hmedium hreached => ⟨hextent, hsize, hmedium, hreached.sound, fun hdirty => absurd hdirty hclean⟩
  refine ⟨fun address houtside => ?_, fun other hother hreached hagree => ?_⟩
  · exact trace_stays (hsafe m hopen hdisk) hdevice hpaths hinside houtside
  · refine (trace_simulates (fun t s => Agrees disk size part s t) (fun t s access haccess hst => ?_)
      (⟨hsafe m hopen hdisk, hsafe other hother hreached, rfl, rfl, rfl, hagree⟩ :
        Agrees disk size part (part, m) (part, other))).1
    obtain ⟨hresult, hnext⟩ :=
      kernelStep_agrees hst hdevice (hpaths access haccess) (hinside access haccess)
    exact ⟨hresult.symm, hnext⟩

end Accesses

-- A partition of one sector in a disk of four.
def oneSector : PartState :=
  ({ fd := 0, firstSect := 1, sectCount := 1, inCache := 2 ^ 64 - 1, cache := fun _ => 0,
     cacheState := CACHE_NOTREADY },
    { handles := fun _ => { finish := 2048 }, handlesPtr := 1, device := BiosHarddisks.blankDisk })

def bd0p0 : Device PartState := { name := [98, 100, 48, 112, 48], ioWrapper := partIo 0x80 }

def bd0p0Access (loc : UInt64) (type : IoType) (payload : UInt8) : KernelAccess :=
  { path := [58, 58, 47, 47, 98, 100, 48, 112, 48], loc, type, payload }

theorem extent_respected_sector :
    diskBytes 0x80 (trace (kernelStep (fun _ => none) [bd0p0]) oneSector
      [bd0p0Access 511 .write 7, bd0p0Access 0 .read 0]).2.2.device 1024 = 0 := by
  have hrun := @extent_respected (fun _ => none) [bd0p0] 0x80 2048 bd0p0
    [bd0p0Access 511 .write 7, bd0p0Access 0 .read 0] oneSector.1 oneSector.2 rfl (by decide)
    (by decide) ⟨by decide, rfl, rfl, rfl, rfl⟩ ⟨BiosHarddisks.blankDisk, [], rfl, rfl⟩ (by decide)
    (by simp [bd0p0Access, deviceOf, namedDevice, bd0p0]) (by decide)
  exact hrun.1 1024 (Or.inr (by decide))

-- The sector after the last one is written when the next access flushes it.
theorem sector_after_extent_written :
    oneSector.1.Outside 1024 ∧ diskBytes 0x80 oneSector.2.device 1024 = 0 ∧
      diskBytes 0x80 (trace (kernelStep (fun _ => none) [bd0p0]) oneSector
        [bd0p0Access 512 .write 7, bd0p0Access 0 .read 0]).2.2.device 1024 = 7 := by
  have hopen : OpenOn 2048 oneSector.2 0 := ⟨by decide, rfl, rfl, rfl, rfl⟩
  obtain ⟨hwrite, hdisk, hstill⟩ := @partIo_eq 0x80 2048 oneSector 512 hopen (by decide)
    (BiosHarddisks.sound_of_cold rfl) (by decide) (by decide) .write 7
  have hpart := congrArg (fun result => result.2.1) hwrite
  have hbytes := congrArg (fun result => result.2.2) hwrite
  dsimp only at hpart hbytes
  obtain ⟨hread, -, -⟩ := @partIo_eq 0x80 2048 (partIo 0x80 oneSector 512 .write 7).2 0
    (by rw [hpart]; exact hopen.of_still hstill) (by decide) hdisk (by rw [hpart]; decide)
    (by rw [hpart]; decide) .read 0
  rw [hpart, hbytes] at hread
  have hafter := congrArg (fun result => result.2.2 1024) hread
  dsimp only at hafter
  have hrun : (trace (kernelStep (fun _ => none) [bd0p0]) oneSector
      [bd0p0Access 512 .write 7, bd0p0Access 0 .read 0]).2 =
        (partIo 0x80 (partIo 0x80 oneSector 512 .write 7).2 0 .read 0).2 := by
    simp [trace, kernelStep, vfsKread, vfsKwrite, deviceOf, namedDevice, bd0p0, bd0p0Access]
  refine ⟨Or.inr (by decide), rfl, ?_⟩
  rw [hrun, hafter]
  decide

end EchidnaOS.Partition
