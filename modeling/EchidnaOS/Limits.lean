import EchidnaOS.Segment
import EchidnaOS.Vdev

namespace EchidnaOS.Limits

open EchidnaOS.Klib EchidnaOS.Ipc EchidnaOS.Segment EchidnaOS.Vdev

-- The calls that check addresses of the caller.
inductive RangeCall where
  | send (payload len : UInt32)
  | read (payload : UInt32)
  | newSegment (base pageCount : UInt32)
  | register (payloadInAddr payloadInFlag payloadOutAddr payloadOutFlag : UInt32)

-- The checks of the four calls.
def accepts (task : Task) : RangeCall → Bool
  | .send payload len => withinLimit task payload.toNat len.toNat
  | .read payload => task.ipcQueuePtr ≠ 0 && withinLimit task payload.toNat (task.ipcQueue 0).length
  | .newSegment base pageCount => requestFits task base.toNat pageCount.toNat
  | .register payloadInAddr payloadInFlag payloadOutAddr payloadOutFlag =>
      addressFits task payloadInAddr.toNat && addressFits task payloadInFlag.toNat &&
        addressFits task payloadOutAddr.toNat && addressFits task payloadOutFlag.toNat

-- What they are for: the whole range lies below the limit of the caller's segment.
def InRange (task : Task) : RangeCall → Prop
  | .send payload len => payload.toNat + len.toNat ≤ task.pages * PAGE_SIZE
  | .read payload => payload.toNat + (task.ipcQueue 0).length ≤ task.pages * PAGE_SIZE
  | .newSegment base pageCount =>
      1 ≤ pageCount.toNat ∧
        base.toNat + pageCount.toNat * PAGE_SIZE ≤ task.pages * PAGE_SIZE
  | .register payloadInAddr payloadInFlag payloadOutAddr payloadOutFlag =>
      ∀ address ∈ [payloadInAddr, payloadInFlag, payloadOutAddr, payloadOutFlag],
        address.toNat + SIZEOF_POINTER ≤ task.pages * PAGE_SIZE

-- A sum stays below 2 ^ 32, unless what is left of it is above the limit anyway.
def SumFits (task : Task) (sum : Nat) : Prop :=
  sum < 2 ^ 32 ∨ task.pages * PAGE_SIZE ≤ sum % 2 ^ 32

def DoesNotWrap (task : Task) : RangeCall → Prop
  | .send payload len => SumFits task (payload.toNat + len.toNat)
  | .read payload => task.ipcQueuePtr = 0 ∨ SumFits task (payload.toNat + (task.ipcQueue 0).length)
  | .newSegment base pageCount =>
      SumFits task (base.toNat + pageCount.toNat * PAGE_SIZE) ∧
        (1 ≤ pageCount.toNat ∨ task.pages * PAGE_SIZE ≤ base.toNat)
  | .register payloadInAddr payloadInFlag payloadOutAddr payloadOutFlag =>
      1 ≤ task.pages ∨
        ∃ address ∈ [payloadInAddr, payloadInFlag, payloadOutAddr, payloadOutFlag],
          2 ^ 32 - SIZEOF_POINTER < address.toNat

variable {task : Task}

theorem withinLimit_sound_iff (hpages : task.pages * PAGE_SIZE < 2 ^ 32) (payload length : Nat) :
    (withinLimit task payload length = true → payload + length ≤ task.pages * PAGE_SIZE) ↔
      SumFits task (payload + length) := by
  unfold withinLimit SumFits
  rw [decide_eq_true_eq, Nat.mod_eq_of_lt hpages]
  omega

theorem requestFits_sound_iff (hpages : task.pages * PAGE_SIZE < 2 ^ 32) {base pageCount : Nat}
    (hbase : base < 2 ^ 32) :
    (requestFits task base pageCount = true →
        1 ≤ pageCount ∧ base + pageCount * PAGE_SIZE ≤ task.pages * PAGE_SIZE) ↔
      SumFits task (base + pageCount * PAGE_SIZE) ∧
        (1 ≤ pageCount ∨ task.pages * PAGE_SIZE ≤ base) := by
  unfold requestFits SumFits
  rw [decide_eq_true_eq, Nat.mod_eq_of_lt hpages]
  by_cases hcount : pageCount = 0
  · subst hcount
    rw [Nat.zero_mul, Nat.add_zero]
    omega
  · omega

-- The bound of an address only wraps for a task without pages.
theorem addressFits_iff (hpages : task.pages * PAGE_SIZE < 2 ^ 32) {address : Nat} :
    addressFits task address = true ↔
      if task.pages = 0 then address ≤ 2 ^ 32 - SIZEOF_POINTER
      else address + SIZEOF_POINTER ≤ task.pages * PAGE_SIZE := by
  unfold addressFits
  rw [decide_eq_true_eq]
  by_cases hzero : task.pages = 0
  · rw [if_pos hzero, hzero, Nat.zero_mul, Nat.zero_add, Nat.mod_eq_of_lt (by decide)]
  · rw [if_neg hzero]
    simp only [PAGE_SIZE, SIZEOF_POINTER] at hpages ⊢
    omega

theorem register_sound_iff (hpages : task.pages * PAGE_SIZE < 2 ^ 32) (addresses : List UInt32)
    (hnonempty : addresses ≠ []) :
    (addresses.all (fun address => addressFits task address.toNat) = true →
        ∀ address ∈ addresses, address.toNat + SIZEOF_POINTER ≤ task.pages * PAGE_SIZE) ↔
      (1 ≤ task.pages ∨ ∃ address ∈ addresses, 2 ^ 32 - SIZEOF_POINTER < address.toNat) := by
  simp only [List.all_eq_true, addressFits_iff hpages]
  by_cases hzero : task.pages = 0
  · simp only [hzero, if_true, Nat.zero_mul]
    constructor
    · intro hsound
      right
      by_contra hnone
      push Not at hnone
      obtain ⟨address, hmem⟩ := List.exists_mem_of_ne_nil addresses hnonempty
      have hlow := hsound hnone address hmem
      simp only [SIZEOF_POINTER] at hlow
      omega
    · rintro (hpos | ⟨address, hmem, hhigh⟩) hall
      · omega
      · have hlow := hall address hmem
        omega
  · simp only [if_neg hzero]
    constructor
    · exact fun _ => Or.inl (by omega)
    · exact fun _ hall => hall

-- The checks keep the whole range inside the segment exactly when no sum wraps around.
theorem range_checks_sound_iff (hpages : task.pages * PAGE_SIZE < 2 ^ 32) (call : RangeCall) :
    (accepts task call = true → InRange task call) ↔ DoesNotWrap task call := by
  cases call with
  | send payload len => exact withinLimit_sound_iff hpages payload.toNat len.toNat
  | read payload =>
      have hcheck := withinLimit_sound_iff hpages payload.toNat (task.ipcQueue 0).length
      simp only [accepts, InRange, DoesNotWrap, Bool.and_eq_true, decide_eq_true_eq, ne_eq]
      rw [← hcheck]
      by_cases hempty : task.ipcQueuePtr = 0
      · simp [hempty]
      · simp [hempty]
  | newSegment base pageCount => exact requestFits_sound_iff hpages base.toNat_lt
  | register payloadInAddr payloadInFlag payloadOutAddr payloadOutFlag =>
      have hcheck := register_sound_iff hpages
        [payloadInAddr, payloadInFlag, payloadOutAddr, payloadOutFlag] (by simp)
      simp only [accepts, InRange, DoesNotWrap]
      rw [← hcheck]
      simp only [List.all_cons, List.all_nil, Bool.and_true, Bool.and_assoc]

-- A task of 33 pages: a range at its start, and one that wraps around the address space.
def smallTask : Task := { pages := 33 }

theorem low_range_is_checked : InRange smallTask (.send 16 32) :=
  (range_checks_sound_iff (by decide) (.send 16 32)).mpr (Or.inl (by decide)) (by decide)

theorem wrapped_range_is_accepted : smallTask.pages * PAGE_SIZE < 2 ^ 32 ∧
    accepts smallTask (.send 0xffffffff 2) = true ∧ ¬InRange smallTask (.send 0xffffffff 2) ∧
    accepts smallTask (.newSegment 0 0x100000) = true ∧
    ¬InRange smallTask (.newSegment 0 0x100000) := by
  refine ⟨by decide, by decide, ?_, by decide, ?_⟩
  · unfold InRange
    decide
  · unfold InRange
    decide

end EchidnaOS.Limits
