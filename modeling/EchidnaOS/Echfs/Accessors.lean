import EchidnaOS.Echfs.Disk
import EchidnaOS.Partition.Access
import Mathlib.Tactic.Linarith

namespace EchidnaOS.Echfs

open EchidnaOS.Lib.ByteStore EchidnaOS.Devfs EchidnaOS.Partition

-- The driver of a device that is nothing but an array of bytes.
def storeIo : IoWrapper Store := fun store loc type payload =>
  match type with
  | .read => ((store loc).toNat, store)
  | .write => (0, Function.update store loc payload)

theorem storeIo_byteDevice (size : Nat) :
    ByteDevice storeIo size (fun _ => True) fun store => store := by
  constructor
  · intro store loc payload _ _
    simp [storeIo]
  · intro store loc payload _ _
    simp [storeIo]

-- `vfs_kseek(cur_handle, (int)loc, SEEK_SET)`, and then the transfer.
def seekRead (h : DevfsHandle) (store : Store) (loc len : Nat) (buf : Store) :
    Transfer Store × DevfsHandle :=
  ureadIo storeIo (devfsSeek h (toInt loc) .set).2 store buf len

def seekWrite (h : DevfsHandle) (store : Store) (loc len : Nat) (buf : Store) :
    Transfer Store × DevfsHandle :=
  uwriteIo storeIo (devfsSeek h (toInt loc) .set).2 store buf len

def rdQwordU (h : DevfsHandle) (store : Store) (loc : Nat) : Nat :=
  leValue (read (seekRead h store loc 8 fun _ => 0).1.buffer 0 8)

def wrQwordU (h : DevfsHandle) (store : Store) (loc x : Nat) : Store :=
  (seekWrite h store loc 8 fun offset => (leBytes 8 x).getD offset 0).1.device

-- A handle as devfs_open makes it for a device of `size` bytes, at any position.
structure OpenedOn (size : Nat) (h : DevfsHandle) : Prop where
  inUse : h.free = false
  isblock_eq : h.isblock = decide (size = 0)
  begin_eq : h.begin = 0
  finish_eq : h.finish = size

variable {h : DevfsHandle} {store : Store} {size loc address len : Nat}

theorem OpenedOn.seek_ptr (hopen : OpenedOn size h) (hlt : loc < size) (haddress : Addressable loc 1) :
    (devfsSeek h (toInt loc) .set).2.ptr = loc := by
  have hloc : toU64 (toInt loc) = loc := by
    apply (toU64_toInt_eq_iff _).mpr haddress
    unfold Addressable at haddress
    omega
  have hblock : h.isblock = false := by simp [hopen.isblock_eq, Nat.ne_zero_of_lt hlt]
  have hrange : ¬ (size < loc ∨ loc < 0) := by omega
  simp [devfsSeek, hopen.inUse, hblock, DevfsHandle.seekTo, hopen.begin_eq, hopen.finish_eq, hloc,
    Nat.not_lt.mpr hlt.le]

theorem toU64_toInt_addressable (x : Int) : Addressable (toU64 (toInt x)) 1 := by
  have hlow := Int.le_bmod (x := x) (m := 2 ^ 32) (by decide)
  have hhigh := Int.bmod_lt (x := x) (m := 2 ^ 32) (by decide)
  unfold toU64 toInt Addressable
  omega

-- No transfer writes to a byte that its `int` cannot address.
theorem uwriteLoop_unaddressable {t : Transfer Store} {start : Int} (hptr : t.iPtr = toInt start)
    (haddress : ¬ Addressable address 1) :
    (uwriteLoop storeIo len t).device address = t.device address := by
  induction len generalizing t start with
  | zero => rfl
  | succ len ih =>
      have hne : address ≠ toU64 t.iPtr := by
        intro heq
        apply haddress
        rw [heq, hptr]
        exact toU64_toInt_addressable start
      have hturn : uwriteLoop storeIo (len + 1) t = uwriteLoop storeIo len
          { t with
            count := t.count + 1
            iPtr := toInt (t.iPtr + 1)
            device := Function.update t.device (toU64 t.iPtr) (t.buffer t.count) } := by
        rw [uwriteLoop]
        simp [storeIo, Devfs.FAILURE, IO_NOT_READY]
      rw [hturn, @ih _ (t.iPtr + 1) rfl]
      exact Function.update_of_ne hne _ _

theorem uwriteIo_unaddressable (h : DevfsHandle) (store buf : Store) (haddress : ¬ Addressable address 1) :
    (uwriteIo storeIo h store buf len).1.device address = store address :=
  @uwriteLoop_unaddressable address len (Transfer.start h store buf) h.ptr (by simp only [Transfer.start])
    haddress

theorem seekRead_eq (hopen : OpenedOn size h) (hinside : loc + len ≤ size) (hlen : 0 < len)
    (haddress : Addressable loc len) (store buf : Store) :
    (seekRead h store loc len buf).1.buffer =
      blit buf 0 len fun offset => store (loc + offset) := by
  have hptr := hopen.seek_ptr (show loc < size by omega) (haddress.mono (Nat.le_refl loc) (by omega))
  obtain ⟨-, hbuffer, -⟩ := ureadIo_spec (storeIo_byteDevice size) len
    (h := (devfsSeek h (toInt loc) .set).2) (s := store) buf trivial
    (by rw [hptr]; exact haddress) (by rw [hptr]; exact hinside)
  rw [hptr] at hbuffer
  exact hbuffer

theorem seekWrite_eq (hopen : OpenedOn size h) (hinside : loc + len ≤ size) (hlen : 0 < len)
    (haddress : Addressable loc len) (store buf : Store) :
    (seekWrite h store loc len buf).1.device = blit store loc len buf := by
  have hptr := hopen.seek_ptr (show loc < size by omega) (haddress.mono (Nat.le_refl loc) (by omega))
  obtain ⟨-, hcontent, -⟩ := uwriteIo_spec (storeIo_byteDevice size) len
    (h := (devfsSeek h (toInt loc) .set).2) (s := store) buf trivial
    (by rw [hptr]; exact haddress) (by rw [hptr]; exact hinside)
  rw [hptr] at hcontent
  exact hcontent

-- The two pairs of accessors read and write the same bytes.
def QwordsAgree (h : DevfsHandle) (loc : Nat) : Prop :=
  ∀ store, rdQwordU h store loc = rdQword store loc ∧
    ∀ x, wrQwordU h store loc x = wrQword store loc x

-- Some byte of a range that a transfer cannot address.
theorem exists_unaddressable (hrange : ¬ Addressable loc len) (hlen : 0 < len)
    (hend : loc + len ≤ 2 ^ 64) : ∃ offset, offset < len ∧ ¬ Addressable (loc + offset) 1 := by
  unfold Addressable at hrange
  by_cases hlow : loc ≤ 2 ^ 31
  · refine ⟨2 ^ 31 - loc, by omega, ?_⟩
    unfold Addressable
    omega
  · refine ⟨0, by omega, ?_⟩
    unfold Addressable
    omega

theorem blit_getD (store : Store) (loc : Nat) (bytes : List UInt8) :
    blit store loc bytes.length (fun offset => bytes.getD offset 0) = write store loc bytes := by
  funext address
  rfl

theorem qwordsAgree_iff (hopen : OpenedOn size h) (hinside : loc + 8 ≤ size) (hsize : size ≤ 2 ^ 64) :
    QwordsAgree h loc ↔ Addressable loc 8 := by
  constructor
  · intro hagree
    by_contra hrange
    obtain ⟨offset, hoffset, hout⟩ := exists_unaddressable hrange (by decide) (by omega)
    -- Eight bytes of ones over a device of zeros.
    have hones : ∀ offset < 8, (leBytes 8 (2 ^ 64 - 1)).getD offset 0 ≠ 0 := by decide
    have hsame := congrFun ((hagree fun _ => 0).2 (2 ^ 64 - 1)) (loc + offset)
    rw [wrQwordU, seekWrite, uwriteIo_unaddressable _ _ _ hout, wrQword,
      write_inside _ _ _ _ (by simpa using hoffset)] at hsame
    exact hones offset hoffset hsame.symm
  · intro haddress store
    constructor
    · have hread : read (blit (fun _ => 0) 0 8 fun offset => store (loc + offset)) 0 8 =
          read store loc 8 := rfl
      rw [rdQwordU, seekRead_eq hopen hinside (by decide) haddress, rdQword, hread]
    · intro x
      have hwrite := blit_getD store loc (leBytes 8 x)
      rw [leBytes_length] at hwrite
      rw [wrQwordU, seekWrite_eq hopen hinside (by decide) haddress, wrQword, hwrite]

section Sectors

variable {part : Part} {m : Medium Store}

-- A sector of the medium is what an access loads, and what the next one writes back.
def SectorMoves (part : Part) (m : Medium Store) (loc : Nat) : Prop :=
  ∀ store,
    (∀ offset, offset < 512 →
      (partitionedMediumIoWrapper storeIo { part with cacheState := CACHE_NOTREADY }
        { m with device := store } loc .read 0).2.1.cache offset =
          store ((part.firstSect + loc / 512) * 512 + offset)) ∧
    ∀ cache other, other / 512 ≠ loc / 512 →
      (partitionedMediumIoWrapper storeIo
        { part with inCache := loc / 512, cache := cache, cacheState := CACHE_DIRTY }
        { m with device := store } other .read 0).2.2.device =
          blit store ((part.firstSect + loc / 512) * 512) 512 cache

theorem ureadLoop_device (len : Nat) (t : Transfer Store) :
    (ureadLoop storeIo len t).device = t.device := by
  induction len generalizing t with
  | zero => rfl
  | succ len ih =>
      obtain ⟨hnofail, hready⟩ := byte_succeeds (t.device (toU64 t.iPtr))
      rw [ureadLoop]
      simp only [storeIo, hnofail, hready, if_false]
      rw [ih]

-- A read of another sector leaves what the flush wrote.
theorem read_other_device {other : Nat} (hother : other / 512 ≠ part.inCache) :
    (partitionedMediumIoWrapper storeIo part m other .read 0).2.2.device =
      (part.flush storeIo m).device := by
  have hload : part.load storeIo m (other / 512) =
      part.fetch storeIo (part.flush storeIo m) (other / 512) := if_pos (Or.inr hother)
  simp only [partitionedMediumIoWrapper, hload, Part.fetch, Medium.uread, ureadIo, ureadLoop_device]
  exact seek_device _ _ _

theorem flush_unaddressable (hdirty : part.cacheState = CACHE_DIRTY) {address : Nat}
    (haddress : ¬ Addressable address 1) : (part.flush storeIo m).device address = m.device address := by
  rw [Part.flush, if_pos hdirty, Medium.uwrite]
  dsimp only
  rw [uwriteIo_unaddressable _ _ _ haddress, seek_device]

theorem flush_moves (hopen : OpenOn size m part.fd) (hdirty : part.cacheState = CACHE_DIRTY)
    (hreach : part.position part.inCache + 512 ≤ size) :
    (part.flush storeIo m).device = blit m.device (part.position part.inCache) 512 part.cache := by
  have hflush := (flush_spec (storeIo_byteDevice size) hopen trivial fun _ => hreach).1
  rwa [if_pos hdirty] at hflush

-- A read with an empty cache fetches the sector.
theorem read_moves (hopen : OpenOn size m part.fd) (hcold : part.cacheState = CACHE_NOTREADY)
    (hreach : part.position (loc / 512) + 512 ≤ size) {offset : Nat} (hoffset : offset < 512) :
    (partitionedMediumIoWrapper storeIo part m loc .read 0).2.1.cache offset =
      m.device (part.position (loc / 512) + offset) := by
  have hload : part.load storeIo m (loc / 512) =
      part.fetch storeIo (part.flush storeIo m) (loc / 512) := if_pos (Or.inl hcold)
  have hflush : part.flush storeIo m = m := if_neg (by rw [hcold]; decide)
  have hfetch := (fetch_spec (storeIo_byteDevice size) hopen trivial hreach).1
  have hinside := blit_inside part.cache 0 512
    (fun offset => m.device (part.position (loc / 512) + offset)) offset hoffset
  rw [Nat.zero_add] at hinside
  simp only [partitionedMediumIoWrapper, hload, hflush, hfetch, hinside]

theorem sectorMoves_iff (hopen : OpenOn size m part.fd)
    (hextent : (part.firstSect + part.sectCount) * 512 ≤ size) (hsize : size ≤ 2 ^ 64)
    (hloc : loc < part.sectCount * 512) :
    SectorMoves part m loc ↔ Addressable ((part.firstSect + loc / 512) * 512) 512 := by
  have hsect : loc / 512 + 1 ≤ part.sectCount := by omega
  have hend : (part.firstSect + loc / 512) * 512 + 512 ≤ size := by linarith
  constructor
  · intro hmoves
    by_contra hrange
    obtain ⟨offset, hoffset, hout⟩ := exists_unaddressable hrange (by decide) (hend.trans hsize)
    -- A sector of ones over a medium of zeros.
    have hflush := congrFun ((hmoves fun _ => 0).2 (fun _ => 1) (loc + 512) (by omega))
      ((part.firstSect + loc / 512) * 512 + offset)
    rw [read_other_device (show (loc + 512) / 512 ≠ loc / 512 by omega),
      flush_unaddressable rfl hout, blit_inside _ _ _ _ _ hoffset] at hflush
    simp at hflush
  · intro haddress store
    have hmedium : OpenOn size { m with device := store } part.fd :=
      ⟨hopen.lt, hopen.inUse, hopen.seekable, hopen.begin_eq, hopen.finish_eq⟩
    have hloc : part.sectorLoc (loc / 512) = (part.firstSect + loc / 512) * 512 := by
      apply Nat.mod_eq_of_lt
      exact Nat.lt_of_lt_of_le (Nat.lt_add_of_pos_right (by decide)) (hend.trans hsize)
    have hposition : part.position (loc / 512) = (part.firstSect + loc / 512) * 512 := by
      rw [position_of_addressable, hloc]
      rw [hloc]
      exact haddress.mono (Nat.le_refl _) (Nat.add_le_add_left (by decide) _)
    have hreach : part.position (loc / 512) + 512 ≤ size := by
      rw [hposition]
      exact hend
    rw [← hposition]
    constructor
    · intro offset hoffset
      apply read_moves _ rfl _ hoffset
      · exact size
      · exact hmedium
      · exact hreach
    · intro cache other hother
      rw [read_other_device hother]
      apply flush_moves _ rfl
      · exact hreach
      · exact hmedium

end Sectors

-- The accessors that seek meet the direct ones exactly where the `int` of the transfer can
-- address every byte; the same holds of the sectors of a partition.
theorem seek_accessors_agree_iff {part : Part} {m : Medium Store} {locInPart : Nat}
    (hopen : OpenedOn size h) (hsize : size ≤ 2 ^ 64) (hinside : loc + 8 ≤ size)
    (hmedium : OpenOn size m part.fd)
    (hextent : (part.firstSect + part.sectCount) * 512 ≤ size)
    (hpart : locInPart < part.sectCount * 512) :
    (QwordsAgree h loc ↔ Addressable loc 8) ∧
      (SectorMoves part m locInPart ↔
        Addressable ((part.firstSect + locInPart / 512) * 512) 512) :=
  ⟨qwordsAgree_iff hopen hinside hsize, sectorMoves_iff hmedium hextent hsize hpart⟩

-- Four sectors, of which the middle two are a partition.
def middlePart : Part where
  fd := 0
  firstSect := 1
  sectCount := 2
  inCache := 0
  cache := fun _ => 0
  cacheState := CACHE_NOTREADY

def fourSectors : Medium Store where
  handles := fun _ => { finish := 2048 }
  handlesPtr := 1
  device := fun _ => 0

theorem seek_accessors_agree_middle :
    QwordsAgree { finish := 2048, ptr := 512 } 1000 ∧ SectorMoves middlePart fourSectors 700 := by
  have hagree := @seek_accessors_agree_iff { finish := 2048, ptr := 512 } 2048 1000 middlePart
    fourSectors 700 ⟨rfl, rfl, rfl, rfl⟩ (by decide) (by decide) ⟨by decide, rfl, rfl, rfl, rfl⟩
    (by decide) (by decide)
  exact ⟨hagree.1.mpr (by decide), hagree.2.mpr (by decide)⟩

-- Past 2 GiB the seek fails, and the transfer takes place where the handle was.
theorem wrQwordU_past_int :
    ¬ QwordsAgree { finish := 2 ^ 31 + 8 } (2 ^ 31) ∧
      wrQwordU { finish := 2 ^ 31 + 8 } (fun _ => 0) (2 ^ 31) 1 0 = 1 := by
  constructor
  · rw [@qwordsAgree_iff _ (2 ^ 31 + 8) _ ⟨rfl, rfl, rfl, rfl⟩ (by decide) (by decide)]
    decide
  · decide

end EchidnaOS.Echfs
