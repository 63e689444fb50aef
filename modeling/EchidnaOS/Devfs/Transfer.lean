import EchidnaOS.Devfs
import Mathlib.Tactic.TypeStar

namespace EchidnaOS.Devfs

open EchidnaOS.Lib.ByteStore

inductive IoType where
  | read
  | write
  deriving DecidableEq, Repr

-- A device driver over the state it works on: location, type of the access and payload.
abbrev IoWrapper (σ : Type*) := σ → Nat → IoType → UInt8 → Int × σ

def FAILURE : Int := -2

def IO_NOT_READY : Int := -5

-- The loop of a transfer after `count` bytes; `stat` is read_stat or write_stat.
structure Transfer (σ : Type*) where
  count : Nat
  iPtr : Int
  buffer : Store
  stat : Bool
  device : σ

def toChar (c : Int) : UInt8 := UInt8.ofNat (c % 256).toNat

section Loops

variable {σ : Type*} (io : IoWrapper σ)

def Transfer.start (h : DevfsHandle) (device : σ) (buffer : Store) : Transfer σ where
  count := 0
  iPtr := toInt h.ptr
  buffer := buffer
  stat := false
  device := device

def ureadLoop : Nat → Transfer σ → Transfer σ
  | 0, t => t
  | len + 1, t =>
      let c := io t.device (toU64 t.iPtr) .read 0
      if c.1 = FAILURE ∨ c.1 = -1 then { t with device := c.2 }
      else if c.1 = IO_NOT_READY then { t with device := c.2, stat := true }
      else
        ureadLoop len { t with
          count := t.count + 1
          iPtr := toInt (t.iPtr + 1)
          buffer := Function.update t.buffer t.count (toChar c.1)
          device := c.2 }

def uwriteLoop : Nat → Transfer σ → Transfer σ
  | 0, t => t
  | len + 1, t =>
      let c := io t.device (toU64 t.iPtr) .write (t.buffer t.count)
      if c.1 = FAILURE ∨ c.1 = -1 then { t with device := c.2 }
      else if c.1 = IO_NOT_READY then { t with device := c.2, stat := true }
      else
        uwriteLoop len { t with
          count := t.count + 1
          iPtr := toInt (t.iPtr + 1)
          device := c.2 }

-- devfs_uread and devfs_uwrite of `len` bytes with a driver that may fail, and the handle
-- they leave.
def ureadIo (h : DevfsHandle) (device : σ) (buffer : Store) (len : Nat) : Transfer σ × DevfsHandle :=
  let t := ureadLoop io len (Transfer.start h device buffer)
  (t, { h with ptr := toU64 t.iPtr })

def uwriteIo (h : DevfsHandle) (device : σ) (buffer : Store) (len : Nat) :
    Transfer σ × DevfsHandle :=
  let t := uwriteLoop io len (Transfer.start h device buffer)
  (t, { h with ptr := toU64 t.iPtr })

end Loops

section Names

variable {σ : Type*}

-- `device_t`, whose driver has its general purpose value.
structure Device (σ : Type*) where
  name : CString
  ioWrapper : IoWrapper σ

def namedDevice (devices : List (Device σ)) (name : CString) : Option (Device σ) :=
  devices.find? fun device => name = device.name

-- The device a path leads to: by name after "://", else through the mount point of a devfs,
-- where `resolve` is the walk to it.
def deviceOf (resolve : CString → Option CString) (devices : List (Device σ)) (path : CString) :
    Option (Device σ) :=
  if path.take 4 = [58, 58, 47, 47] then namedDevice devices (path.drop 4)
  else (resolve path).bind fun rest =>
    namedDevice devices (if rest.head? = some 47 then rest.tail else rest)

-- vfs_kread and vfs_kwrite of a path that leads to a device, or to nothing.
def vfsKread (resolve : CString → Option CString) (devices : List (Device σ)) (path : CString)
    (loc : Nat) (s : σ) : Int × σ :=
  match deviceOf resolve devices path with
  | some device => device.ioWrapper s loc .read 0
  | none => (FAILURE, s)

def vfsKwrite (resolve : CString → Option CString) (devices : List (Device σ)) (path : CString)
    (loc : Nat) (val : UInt8) (s : σ) : Int × σ :=
  match deviceOf resolve devices path with
  | some device => device.ioWrapper s loc .write val
  | none => (FAILURE, s)

end Names

-- A driver of a byte array of `size` bytes: accesses succeed and keep an invariant.
structure ByteDevice {σ : Type*} (io : IoWrapper σ) (size : Nat) (inv : σ → Prop)
    (content : σ → Store) : Prop where
  read : ∀ {s loc} payload, inv s → loc < size →
    (io s loc .read payload).1 = (content s loc).toNat ∧
      content (io s loc .read payload).2 = content s ∧ inv (io s loc .read payload).2
  write : ∀ {s loc} payload, inv s → loc < size →
    (io s loc .write payload).1 = 0 ∧
      content (io s loc .write payload).2 = Function.update (content s) loc payload ∧
        inv (io s loc .write payload).2

theorem ByteDevice.mono {σ : Type*} {io : IoWrapper σ} {size other : Nat} {inv : σ → Prop}
    {content : σ → Store} (hdev : ByteDevice io other inv content) (hsize : size ≤ other) :
    ByteDevice io size inv content :=
  ⟨fun payload hinv hloc => hdev.read payload hinv (by omega),
    fun payload hinv hloc => hdev.write payload hinv (by omega)⟩

-- The locations that the `int` of a transfer can take.
def Addressable (start count : Nat) : Prop :=
  start + count ≤ 2 ^ 31 ∨ (2 ^ 64 - 2 ^ 31 ≤ start ∧ start + count ≤ 2 ^ 64)

instance decidableAddressable (start count : Nat) : Decidable (Addressable start count) :=
  inferInstanceAs (Decidable (_ ∨ _))

-- What is left of a location after the `int` of the transfer.
theorem toU64_toInt (loc : Nat) : toU64 (toInt loc) =
    if loc % 2 ^ 32 < 2 ^ 31 then loc % 2 ^ 32 else loc % 2 ^ 32 + (2 ^ 64 - 2 ^ 32) := by
  unfold toU64 toInt
  rw [Int.bmod_def]
  split_ifs <;> omega

theorem toU64_toInt_eq_iff {loc : Nat} (hloc : loc < 2 ^ 64) :
    toU64 (toInt loc) = loc ↔ Addressable loc 1 := by
  rw [toU64_toInt]
  unfold Addressable
  split_ifs <;> omega

theorem toU64_toInt_small {loc : Nat} (hloc : loc < 2 ^ 31) : toU64 (toInt loc) = loc :=
  (toU64_toInt_eq_iff (by omega)).mpr (Or.inl hloc)

theorem toInt_toU64_toInt (loc : Nat) : toInt (toU64 (toInt loc)) = toInt loc := by
  rw [toU64_toInt]
  unfold toInt
  rw [Int.bmod_def, Int.bmod_def]
  split_ifs <;> omega

theorem toInt_succ (start : Nat) : toInt (toInt start + 1) = toInt (start + 1 : Nat) :=
  Int.bmod_add_bmod

theorem Addressable.head {start count : Nat} (haddress : Addressable start (count + 1)) :
    toU64 (toInt start) = start := by
  unfold Addressable at haddress
  apply (toU64_toInt_eq_iff (by omega)).mpr
  unfold Addressable
  omega

theorem Addressable.tail {start count : Nat} (haddress : Addressable start (count + 1)) :
    Addressable (start + 1) count := by
  unfold Addressable at *
  omega

theorem Addressable.mono {start count other total : Nat} (haddress : Addressable start total)
    (hlow : start ≤ other) (hhigh : other + count ≤ start + total) : Addressable other count := by
  unfold Addressable at *
  omega

@[simp] theorem toChar_toNat (c : UInt8) : toChar c.toNat = c := by
  have hlt := c.toNat_lt
  have hmod : ((c.toNat : Int) % 256).toNat = c.toNat := by omega
  rw [toChar, hmod, UInt8.ofNat_toNat]

theorem blit_cons (store : Store) (start count : Nat) (source : Store) :
    blit (Function.update store start (source 0)) (start + 1) count (fun offset => source (offset + 1)) =
      blit store start (count + 1) source := by
  funext address
  unfold blit
  by_cases hfirst : address = start
  · subst hfirst
    simp
  · rw [Function.update_of_ne hfirst]
    by_cases hinside : start + 1 ≤ address ∧ address < start + 1 + count
    · have hindex : address - (start + 1) + 1 = address - start := by omega
      rw [if_pos hinside, if_pos (by omega)]
      exact congrArg source hindex
    · rw [if_neg hinside, if_neg (by omega)]

section Spec

variable {σ : Type*} {io : IoWrapper σ} {size : Nat} {inv : σ → Prop} {content : σ → Store}

theorem byte_succeeds (c : UInt8) : ¬ ((c.toNat : Int) = FAILURE ∨ (c.toNat : Int) = -1) ∧
    (c.toNat : Int) ≠ IO_NOT_READY := by
  simp only [FAILURE, IO_NOT_READY]
  omega

theorem ureadLoop_spec (hdev : ByteDevice io size inv content) {len : Nat} (start : Nat) {t : Transfer σ}
    (hinv : inv t.device) (hptr : t.iPtr = toInt start) (haddress : Addressable start len)
    (hinside : start + len ≤ size) :
    let result := ureadLoop io len t
    result.count = t.count + len ∧ result.iPtr = toInt (start + len : Nat) ∧
      result.stat = t.stat ∧
      result.buffer = blit t.buffer t.count len (fun offset => content t.device (start + offset)) ∧
      content result.device = content t.device ∧ inv result.device := by
  induction len generalizing start t with
  | zero =>
      refine ⟨rfl, hptr, rfl, ?_, rfl, hinv⟩
      funext address
      rw [blit_outside _ _ _ _ _ (by omega)]
      rfl
  | succ len ih =>
      obtain ⟨hvalue, hcontent, hnext⟩ :=
        hdev.read 0 hinv (show start < size by omega)
      obtain ⟨hnofail, hready⟩ := byte_succeeds (content t.device start)
      rw [ureadLoop]
      dsimp only
      rw [hptr, haddress.head, hvalue, if_neg hnofail, if_neg hready]
      obtain ⟨hcount, hiPtr, hstat, hbuffer, hsame, hfinal⟩ := ih (start + 1)
        (t := { t with
          count := t.count + 1
          iPtr := toInt (toInt start + 1)
          buffer := Function.update t.buffer t.count (toChar (content t.device start).toNat)
          device := (io t.device start .read 0).2 })
        hnext (by simp only [toInt_succ]) haddress.tail (by omega)
      have hsum : ∀ first, first + 1 + len = first + (len + 1) := by
        intro first
        omega
      refine ⟨hcount.trans (hsum _), ?_, hstat, ?_, hsame.trans hcontent, hfinal⟩
      · rw [hiPtr, hsum]
      · rw [hbuffer, ← blit_cons]
        simp only [toChar_toNat, hcontent, Nat.add_zero]
        congr 1
        funext offset
        rw [Nat.add_assoc, Nat.add_comm 1 offset]

theorem uwriteLoop_spec (hdev : ByteDevice io size inv content) {len : Nat} (start : Nat) {t : Transfer σ}
    (hinv : inv t.device) (hptr : t.iPtr = toInt start) (haddress : Addressable start len)
    (hinside : start + len ≤ size) :
    let result := uwriteLoop io len t
    result.count = t.count + len ∧ result.iPtr = toInt (start + len : Nat) ∧
      result.stat = t.stat ∧
      content result.device =
        blit (content t.device) start len (fun offset => t.buffer (t.count + offset)) ∧
      inv result.device := by
  induction len generalizing start t with
  | zero =>
      refine ⟨rfl, hptr, rfl, ?_, hinv⟩
      funext address
      rw [blit_outside _ _ _ _ _ (by omega)]
      rfl
  | succ len ih =>
      obtain ⟨hvalue, hcontent, hnext⟩ :=
        hdev.write (t.buffer t.count) hinv (show start < size by omega)
      rw [uwriteLoop]
      dsimp only
      rw [hptr, haddress.head, hvalue, if_neg (by decide), if_neg (by decide)]
      obtain ⟨hcount, hiPtr, hstat, hsame, hfinal⟩ := ih (start + 1)
        (t := { t with
          count := t.count + 1
          iPtr := toInt (toInt start + 1)
          device := (io t.device start .write (t.buffer t.count)).2 })
        hnext (by simp only [toInt_succ]) haddress.tail (by omega)
      have hsum : ∀ first, first + 1 + len = first + (len + 1) := by
        intro first
        omega
      refine ⟨hcount.trans (hsum _), ?_, hstat, ?_, hfinal⟩
      · rw [hiPtr, hsum]
      · rw [hsame, ← blit_cons]
        simp only [hcontent, Nat.add_zero]
        congr 1
        funext offset
        rw [Nat.add_assoc, Nat.add_comm 1 offset]

-- A transfer at an addressable position of the handle moves the bytes from there on.
theorem ureadIo_spec (hdev : ByteDevice io size inv content) (len : Nat) {h : DevfsHandle} {s : σ}
    (buffer : Store) (hinv : inv s) (haddress : Addressable h.ptr len)
    (hinside : h.ptr + len ≤ size) :
    let result := ureadIo io h s buffer len
    result.1.count = len ∧
      result.1.buffer = blit buffer 0 len (fun offset => content s (h.ptr + offset)) ∧
      content result.1.device = content s ∧ inv result.1.device ∧
      result.2 = { h with ptr := toU64 (toInt (h.ptr + len : Nat)) } := by
  obtain ⟨hcount, hiPtr, -, hbuffer, hsame, hfinal⟩ :=
    ureadLoop_spec hdev h.ptr (t := Transfer.start h s buffer) hinv (by simp only [Transfer.start])
      haddress hinside
  refine ⟨hcount.trans (Nat.zero_add len), hbuffer, hsame, hfinal, ?_⟩
  simp only [ureadIo, hiPtr]

theorem uwriteIo_spec (hdev : ByteDevice io size inv content) (len : Nat) {h : DevfsHandle} {s : σ}
    (buffer : Store) (hinv : inv s) (haddress : Addressable h.ptr len)
    (hinside : h.ptr + len ≤ size) :
    let result := uwriteIo io h s buffer len
    result.1.count = len ∧ content result.1.device = blit (content s) h.ptr len buffer ∧
      inv result.1.device ∧ result.2 = { h with ptr := toU64 (toInt (h.ptr + len : Nat)) } := by
  obtain ⟨hcount, hiPtr, -, hsame, hfinal⟩ :=
    uwriteLoop_spec hdev h.ptr (t := Transfer.start h s buffer) hinv (by simp only [Transfer.start])
      haddress hinside
  refine ⟨hcount.trans (Nat.zero_add len), ?_, hfinal, ?_⟩
  · rw [uwriteIo, hsame]
    simp only [Transfer.start, Nat.zero_add]
  · simp only [uwriteIo, hiPtr]

end Spec

end EchidnaOS.Devfs
