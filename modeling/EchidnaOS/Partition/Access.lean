import EchidnaOS.Partition
import Mathlib.Tactic.SplitIfs

namespace EchidnaOS.Partition

open EchidnaOS.Lib.ByteStore EchidnaOS.Devfs

variable {σ : Type*} {io : IoWrapper σ} {inv : σ → Prop} {content : σ → Store} {part : Part}
  {m next last : Medium σ} {size fd loc sect : Nat}

-- The handle `fd` is open on a device of `size` bytes.
structure OpenOn (size : Nat) (m : Medium σ) (fd : Nat) : Prop where
  lt : fd < m.handlesPtr
  inUse : (m.handles fd).free = false
  seekable : (m.handles fd).isblock = false
  begin_eq : (m.handles fd).begin = 0
  finish_eq : (m.handles fd).finish = size

-- The handles differ in their positions at most.
structure Medium.Still (m next : Medium σ) : Prop where
  handlesPtr : next.handlesPtr = m.handlesPtr
  handles : ∀ fd, (next.handles fd).still = (m.handles fd).still

theorem Medium.Still.refl (m : Medium σ) : m.Still m := ⟨rfl, fun _ => rfl⟩

theorem Medium.Still.trans (hfirst : m.Still next) (hsecond : next.Still last) : m.Still last :=
  ⟨hsecond.handlesPtr.trans hfirst.handlesPtr,
    fun fd => (hsecond.handles fd).trans (hfirst.handles fd)⟩

theorem still_update (m : Medium σ) (fd : Nat) (h : DevfsHandle) (device : σ)
    (hstill : h.still = (m.handles fd).still) :
    m.Still { m with handles := Function.update m.handles fd h, device := device } := by
  refine ⟨rfl, fun other => ?_⟩
  by_cases heq : other = fd
  · subst heq
    simpa using hstill
  · simp [Function.update_of_ne heq]

theorem OpenOn.of_still (hopen : OpenOn size m fd) (hstill : m.Still next) : OpenOn size next fd := by
  have hsame := hstill.handles fd
  constructor
  · rw [hstill.handlesPtr]
    exact hopen.lt
  · exact (congrArg DevfsHandle.free hsame).trans hopen.inUse
  · exact (congrArg DevfsHandle.isblock hsame).trans hopen.seekable
  · exact (congrArg DevfsHandle.begin hsame).trans hopen.begin_eq
  · exact (congrArg DevfsHandle.finish hsame).trans hopen.finish_eq

theorem seek_eq (hopen : OpenOn size m fd) (haddress : Addressable loc 1) (hloc : loc ≤ size) :
    m.seek fd (toInt loc) =
      { m with handles := Function.update m.handles fd { m.handles fd with ptr := loc } } := by
  have hlt : loc < 2 ^ 64 := by
    unfold Addressable at haddress
    omega
  have htarget : toU64 ((m.handles fd).begin + toInt loc) = loc := by
    rw [hopen.begin_eq]
    simpa using (toU64_toInt_eq_iff hlt).mpr haddress
  have hrange : ¬ ((m.handles fd).finish < loc ∨ loc < (m.handles fd).begin) := by
    rw [hopen.begin_eq, hopen.finish_eq]
    omega
  rw [Medium.seek, if_neg (Nat.not_le.mpr hopen.lt)]
  simp [devfsSeek, hopen.inUse, hopen.seekable, DevfsHandle.seekTo, htarget, hrange]

theorem seek_device (m : Medium σ) (fd : Nat) (offset : Int) : (m.seek fd offset).device = m.device := by
  unfold Medium.seek
  split <;> rfl

theorem seek_still (m : Medium σ) (fd : Nat) (offset : Int) : m.Still (m.seek fd offset) := by
  unfold Medium.seek
  split
  · exact Medium.Still.refl m
  · exact still_update m fd _ m.device (devfsSeek_still _ _ _)

theorem uread_still (io : IoWrapper σ) (m : Medium σ) (fd : Nat) (buffer : Store) (len : Nat) :
    m.Still (m.uread io fd buffer len).2 :=
  still_update m fd _ _ (DevfsHandle.still_move _ _)

theorem uwrite_still (io : IoWrapper σ) (m : Medium σ) (fd : Nat) (buffer : Store) (len : Nat) :
    m.Still (m.uwrite io fd buffer len) :=
  still_update m fd _ _ (DevfsHandle.still_move _ _)

theorem seek_position (hopen : OpenOn size m fd) (haddress : Addressable loc 1) (hloc : loc ≤ size) :
    ((m.seek fd (toInt loc)).handles fd).ptr = loc := by
  rw [seek_eq hopen haddress hloc]
  simp

-- A sector of the device, read or written through a handle that is open on it.
theorem sector_read (hdev : ByteDevice io size inv content) (hopen : OpenOn size m fd)
    (hinv : inv m.device) (haddress : Addressable loc 512) (hinside : loc + 512 ≤ size)
    (buffer : Store) :
    let result := (m.seek fd (toInt loc)).uread io fd buffer 512
    result.1 = blit buffer 0 512 (fun offset => content m.device (loc + offset)) ∧
      content result.2.device = content m.device ∧ inv result.2.device ∧ m.Still result.2 := by
  have hptr := seek_position hopen (haddress.mono (Nat.le_refl loc) (by omega))
    (show loc ≤ size by omega)
  have hdevice := seek_device m fd (toInt loc)
  obtain ⟨-, hbuffer, hcontent, hkeep, -⟩ := ureadIo_spec hdev 512
    (h := (m.seek fd (toInt loc)).handles fd) (s := (m.seek fd (toInt loc)).device) buffer
    (by rw [hdevice]; exact hinv) (by rw [hptr]; exact haddress) (by rw [hptr]; exact hinside)
  refine ⟨hbuffer.trans ?_, hcontent.trans (congrArg content hdevice), hkeep,
    (seek_still m fd _).trans (uread_still io _ fd buffer 512)⟩
  rw [hdevice, hptr]

theorem sector_write (hdev : ByteDevice io size inv content) (hopen : OpenOn size m fd)
    (hinv : inv m.device) (haddress : Addressable loc 512) (hinside : loc + 512 ≤ size)
    (buffer : Store) :
    let result := (m.seek fd (toInt loc)).uwrite io fd buffer 512
    content result.device = blit (content m.device) loc 512 buffer ∧ inv result.device ∧
      m.Still result := by
  have hptr := seek_position hopen (haddress.mono (Nat.le_refl loc) (by omega))
    (show loc ≤ size by omega)
  have hdevice := seek_device m fd (toInt loc)
  obtain ⟨-, hcontent, hkeep, -⟩ := uwriteIo_spec hdev 512
    (h := (m.seek fd (toInt loc)).handles fd) (s := (m.seek fd (toInt loc)).device) buffer
    (by rw [hdevice]; exact hinv) (by rw [hptr]; exact haddress) (by rw [hptr]; exact hinside)
  refine ⟨hcontent.trans ?_, hkeep, (seek_still m fd _).trans (uwrite_still io _ fd buffer 512)⟩
  rw [hdevice, hptr]

-- Where a transfer of a sector starts: an `int` has been made of its location.
def Part.position (part : Part) (sect : Nat) : Nat := toU64 (toInt (part.sectorLoc sect))

theorem position_eq (part : Part) (sect : Nat) : part.position sect =
    if part.sectorLoc sect % 2 ^ 32 < 2 ^ 31 then part.sectorLoc sect % 2 ^ 32
    else part.sectorLoc sect % 2 ^ 32 + (2 ^ 64 - 2 ^ 32) :=
  toU64_toInt _

theorem position_aligned (part : Part) (sect : Nat) : part.position sect % 512 = 0 := by
  rw [position_eq]
  unfold Part.sectorLoc
  split_ifs <;> omega

theorem position_addressable (part : Part) (sect : Nat) : Addressable (part.position sect) 512 := by
  have haligned := position_aligned part sect
  rw [position_eq] at haligned ⊢
  unfold Addressable
  split_ifs at haligned ⊢ <;> omega

theorem position_of_addressable (haddress : Addressable (part.sectorLoc sect) 1) :
    part.position sect = part.sectorLoc sect := by
  apply (toU64_toInt_eq_iff _).mpr haddress
  unfold Part.sectorLoc
  omega

theorem toInt_position (part : Part) (sect : Nat) :
    toInt (part.position sect) = toInt (part.sectorLoc sect) :=
  toInt_toU64_toInt _

theorem flush_spec (hdev : ByteDevice io size inv content) (hopen : OpenOn size m part.fd)
    (hinv : inv m.device)
    (hreach : part.cacheState = CACHE_DIRTY → part.position part.inCache + 512 ≤ size) :
    content (part.flush io m).device =
        (if part.cacheState = CACHE_DIRTY then
          blit (content m.device) (part.position part.inCache) 512 part.cache
        else content m.device) ∧
      inv (part.flush io m).device ∧ m.Still (part.flush io m) := by
  unfold Part.flush
  by_cases hdirty : part.cacheState = CACHE_DIRTY
  · rw [if_pos hdirty, if_pos hdirty, ← toInt_position]
    exact sector_write hdev hopen hinv (position_addressable part _) (hreach hdirty) part.cache
  · rw [if_neg hdirty, if_neg hdirty]
    exact ⟨rfl, hinv, Medium.Still.refl m⟩

theorem fetch_spec (hdev : ByteDevice io size inv content) (hopen : OpenOn size m part.fd)
    (hinv : inv m.device) (hreach : part.position sect + 512 ≤ size) :
    (part.fetch io m sect).1 =
        { part with
          cache := blit part.cache 0 512 fun offset =>
            content m.device (part.position sect + offset)
          inCache := sect
          cacheState := CACHE_READY } ∧
      content (part.fetch io m sect).2.device = content m.device ∧
      inv (part.fetch io m sect).2.device ∧ m.Still (part.fetch io m sect).2 := by
  obtain ⟨hbuffer, hcontent, hkeep, hstill⟩ :=
    sector_read hdev hopen hinv (position_addressable part sect) hreach part.cache
  rw [toInt_position] at hbuffer hcontent hkeep hstill
  refine ⟨?_, hcontent, hkeep, hstill⟩
  rw [Part.fetch, hbuffer]

-- What an access does to a partition and to the bytes of its medium.
def Part.flushBytes (part : Part) (bytes : Store) : Store :=
  if part.cacheState = CACHE_DIRTY then blit bytes (part.position part.inCache) 512 part.cache
  else bytes

def Part.fetchBytes (part : Part) (bytes : Store) (sect : Nat) : Part :=
  { part with
    cache := blit part.cache 0 512 fun offset => bytes (part.position sect + offset)
    inCache := sect
    cacheState := CACHE_READY }

def Part.Misses (part : Part) (sect : Nat) : Prop :=
  part.cacheState = CACHE_NOTREADY ∨ sect ≠ part.inCache

instance decidableMisses (part : Part) (sect : Nat) : Decidable (part.Misses sect) :=
  inferInstanceAs (Decidable (_ ∨ _))

-- The whole access, on the partition and the bytes of its medium.
def Part.accessBytes (part : Part) (bytes : Store) (loc : Nat) (type : IoType) (payload : UInt8) :
    Int × Part × Store :=
  let loaded := if part.Misses (loc / 512) then
      (part.fetchBytes (part.flushBytes bytes) (loc / 512), part.flushBytes bytes)
    else (part, bytes)
  match type with
  | .read => ((loaded.1.cache (loc % 512)).toNat, loaded)
  | .write => (0, loaded.1.put (loc % 512) payload, loaded.2)

-- The bytes of the medium that do not belong to the partition.
def Part.Outside (part : Part) (address : Nat) : Prop :=
  address < part.firstSect * 512 ∨ (part.firstSect + part.sectCount) * 512 ≤ address

-- A sector that the transfers place inside the partition.
def Part.Inside (part : Part) (sect : Nat) : Prop :=
  part.firstSect * 512 ≤ part.position sect ∧
    part.position sect < (part.firstSect + part.sectCount) * 512

instance decidableInside (part : Part) (sect : Nat) : Decidable (part.Inside sect) :=
  inferInstanceAs (Decidable (_ ∧ _))

theorem Part.Inside.sector (hinside : part.Inside sect) :
    part.position sect + 512 ≤ (part.firstSect + part.sectCount) * 512 := by
  have haligned := position_aligned part sect
  have hbelow := hinside.2
  rw [Nat.mul_comm] at hbelow ⊢
  omega

theorem flushBytes_outside {bytes : Store} {address : Nat}
    (hdirty : part.cacheState = CACHE_DIRTY → part.Inside part.inCache)
    (houtside : part.Outside address) : part.flushBytes bytes address = bytes address := by
  unfold Part.flushBytes
  by_cases hstate : part.cacheState = CACHE_DIRTY
  · rw [if_pos hstate]
    have hsector := (hdirty hstate).sector
    have hfirst := (hdirty hstate).1
    apply blit_outside
    unfold Part.Outside at houtside
    omega
  · rw [if_neg hstate]

theorem load_eq (hdev : ByteDevice io size inv content) (hopen : OpenOn size m part.fd)
    (hinv : inv m.device)
    (hdirty : part.cacheState = CACHE_DIRTY → part.position part.inCache + 512 ≤ size)
    (hreach : part.position sect + 512 ≤ size) :
    ((part.load io m sect).1, content (part.load io m sect).2.device) =
      (if part.Misses sect then
        (part.fetchBytes (part.flushBytes (content m.device)) sect,
          part.flushBytes (content m.device))
      else (part, content m.device)) ∧
      inv (part.load io m sect).2.device ∧ m.Still (part.load io m sect).2 := by
  by_cases hmiss : part.Misses sect
  · have hload : part.load io m sect = part.fetch io (part.flush io m) sect := if_pos hmiss
    rw [hload, if_pos hmiss]
    obtain ⟨hflush, hkeep, hstill⟩ := flush_spec hdev hopen hinv hdirty
    obtain ⟨hpart, hcontent, hinvLast, hlast⟩ :=
      fetch_spec hdev (hopen.of_still hstill) hkeep hreach
    refine ⟨?_, hinvLast, hstill.trans hlast⟩
    rw [hpart, hcontent, hflush]
    rfl
  · have hload : part.load io m sect = (part, m) := if_neg hmiss
    rw [hload, if_neg hmiss]
    exact ⟨rfl, hinv, Medium.Still.refl m⟩

theorem access_eq (hdev : ByteDevice io size inv content) (hopen : OpenOn size m part.fd)
    (hinv : inv m.device)
    (hdirty : part.cacheState = CACHE_DIRTY → part.position part.inCache + 512 ≤ size)
    (hreach : part.position (loc / 512) + 512 ≤ size) (type : IoType) (payload : UInt8) :
    let result := partitionedMediumIoWrapper io part m loc type payload
    (result.1, result.2.1, content result.2.2.device) =
        part.accessBytes (content m.device) loc type payload ∧
      inv result.2.2.device ∧ m.Still result.2.2 := by
  obtain ⟨hload, hkeep, hstill⟩ := load_eq hdev hopen hinv hdirty hreach
  unfold partitionedMediumIoWrapper Part.accessBytes
  dsimp only
  rw [← hload]
  cases type <;> exact ⟨rfl, hkeep, hstill⟩

end EchidnaOS.Partition
