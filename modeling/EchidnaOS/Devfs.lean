import EchidnaOS.Lib.ByteStore

namespace EchidnaOS.Devfs

open EchidnaOS.Lib.ByteStore

inductive Whence where
  | set
  | finish
  | cur
  | other
  deriving DecidableEq, Repr

-- The conversions to `uint64_t` and to `int`.
def toU64 (x : Int) : Nat := (x % 2 ^ 64).toNat

def toInt (x : Int) : Int := x.bmod (2 ^ 32)

-- `devfs_handle_t`; `finish` is the field `end`.
structure DevfsHandle where
  free : Bool := false
  path : CString := []
  flags : Nat := 0
  mode : Nat := 0
  ptr : Nat := 0
  begin : Nat := 0
  finish : Nat := 0
  isblock : Bool := false
  device : Nat := 0
  deriving DecidableEq, Repr

def DevfsHandle.seekTo (h : DevfsHandle) (target : Nat) : Int × DevfsHandle :=
  if h.finish < target ∨ target < h.begin then (-1, h)
  else (toInt target, { h with ptr := target })

-- devfs_seek on an entry of the table.
def devfsSeek (h : DevfsHandle) (offset : Int) (type : Whence) : Int × DevfsHandle :=
  if h.free then (-1, h)
  else if h.isblock then (-1, h)
  else
    match type with
    | .set => h.seekTo (toU64 (h.begin + offset))
    | .finish => h.seekTo (toU64 (h.finish + offset))
    | .cur => h.seekTo (toU64 (h.ptr + offset))
    | .other => (-1, h)

-- Where the transfer loops start, and the handle after `count` bytes.
def DevfsHandle.loc (h : DevfsHandle) : Nat := toU64 (toInt h.ptr)

def DevfsHandle.advance (h : DevfsHandle) (count : Nat) : DevfsHandle :=
  { h with ptr := toU64 (toInt h.ptr + count) }

-- The device is a byte store, so a transfer is never short.
def devfsUread (store : Store) (h : DevfsHandle) (count : Nat) : Store × DevfsHandle :=
  (fun offset => store (h.loc + offset), h.advance count)

def devfsUwrite (store : Store) (h : DevfsHandle) (count : Nat) (source : Store) :
    Store × DevfsHandle :=
  (blit store h.loc count source, h.advance count)

-- What is left of a device handle when its position is put aside.
def DevfsHandle.still (h : DevfsHandle) : DevfsHandle := { h with ptr := 0 }

theorem DevfsHandle.still_move (h : DevfsHandle) (ptr : Nat) :
    { h with ptr := ptr }.still = h.still := rfl

@[simp] theorem DevfsHandle.still_advance (h : DevfsHandle) (count : Nat) :
    (h.advance count).still = h.still :=
  h.still_move _

@[simp] theorem DevfsHandle.still_seekTo (h : DevfsHandle) (target : Nat) :
    (h.seekTo target).2.still = h.still := by
  unfold DevfsHandle.seekTo
  split
  · rfl
  · exact h.still_move target

@[simp] theorem devfsSeek_still (h : DevfsHandle) (offset : Int) (type : Whence) :
    (devfsSeek h offset type).2.still = h.still := by
  unfold devfsSeek
  split
  · rfl
  · split
    · rfl
    · cases type <;> simp

-- A seek of a medium inside it moves the handle there, any other leaves it.
theorem devfsSeek_set {h : DevfsHandle} (hfree : h.free = false) (hblock : h.isblock = false)
    (hbegin : h.begin = 0) (loc : Nat) : (devfsSeek h (toInt loc) .set).2 =
      { h with ptr := if toU64 (toInt loc) ≤ h.finish then toU64 (toInt loc) else h.ptr } := by
  have htarget : toU64 (h.begin + toInt loc) = toU64 (toInt loc) := by
    rw [hbegin, Int.natCast_zero, Int.zero_add]
  have hlow : ¬ toU64 (toInt loc) < h.begin := by
    rw [hbegin]
    exact Nat.not_lt_zero _
  unfold devfsSeek DevfsHandle.seekTo
  dsimp only
  rw [if_neg (by rw [hfree]; decide), if_neg (by rw [hblock]; decide), htarget]
  by_cases hinside : toU64 (toInt loc) ≤ h.finish
  · rw [if_neg (not_or.mpr ⟨Nat.not_lt.mpr hinside, hlow⟩), if_pos hinside]
  · rw [if_pos (Or.inl (Nat.lt_of_not_le hinside)), if_neg hinside]

end EchidnaOS.Devfs
