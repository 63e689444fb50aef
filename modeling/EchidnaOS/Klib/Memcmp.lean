import Mathlib.Data.BitVec
import Mathlib.Data.Int.Order.Basic
import Mathlib.Order.Basic

namespace EchidnaOS.Klib

-- Memory, by 32-bit addresses.
abbrev Ram := BitVec 32 → BitVec 8

-- The registers that memcmp uses, with the zero flag. The direction flag is clear.
structure Registers where
  eax : BitVec 32 := 0
  ecx : BitVec 32 := 0
  esi : BitVec 32 := 0
  edi : BitVec 32 := 0
  zf : Bool := false
  deriving DecidableEq

def cmpsb (ram : Ram) (r : Registers) : Registers :=
  { r with zf := ram r.esi = ram r.edi, esi := r.esi + 1, edi := r.edi + 1 }

-- The counter is tested before a turn, the flag after it.
def repeFrom (ram : Ram) : Nat → Registers → Registers
  | 0, r => r
  | fuel + 1, r =>
      if r.ecx = 0 then r
      else
        let next := cmpsb ram { r with ecx := r.ecx - 1 }
        if next.zf then repeFrom ram fuel next else next

def repeCmpsb (ram : Ram) (r : Registers) : Registers := repeFrom ram r.ecx.toNat r

def memcmp (ram : Ram) (r : Registers) (s1 s2 n : BitVec 32) : Registers :=
  let after := repeCmpsb ram { r with edi := s1, esi := s2, ecx := n }
  let eax :=
    -- jecxz does not look at the flag
    if after.ecx = 0 then after.ecx else (ram (after.edi - 1) - ram (after.esi - 1)).signExtend 32
  { after with eax := eax, esi := r.esi, edi := r.edi }

-- Byte `i` of a buffer.
def bufferByte (ram : Ram) (start : BitVec 32) (i : Nat) : BitVec 8 := ram (start + BitVec.ofNat 32 i)

variable {ram : Ram} {r : Registers} {s1 s2 n : BitVec 32} {count i : Nat}

def SameBytes (ram : Ram) (s1 s2 : BitVec 32) (count : Nat) : Prop :=
  ∀ i, i < count → bufferByte ram s1 i = bufferByte ram s2 i

structure FirstDifference (ram : Ram) (s1 s2 : BitVec 32) (count i : Nat) : Prop where
  inside : i < count
  before : SameBytes ram s1 s2 i
  differs : bufferByte ram s1 i ≠ bufferByte ram s2 i

-- The difference of two bytes taken as unsigned.
def byteDifference (ram : Ram) (s1 s2 : BitVec 32) (i : Nat) : Int :=
  (bufferByte ram s1 i).toNat - (bufferByte ram s2 i).toNat

-- The result tells whether the buffers are equal, and else which is the greater one.
structure Decides (ram : Ram) (s1 s2 n : BitVec 32) (result : Int) : Prop where
  equality : result = 0 ↔ SameBytes ram s1 s2 n.toNat
  order : ∀ i, FirstDifference ram s1 s2 n.toNat i → result.sign = (byteDifference ram s1 s2 i).sign

-- The buffers do not differ in their last byte only, and the first bytes that differ are less
-- than 128 apart, or the second one is the greater by 128.
def DifferenceSeen (ram : Ram) (s1 s2 n : BitVec 32) : Prop :=
  ∀ i, FirstDifference ram s1 s2 n.toNat i →
    i + 1 < n.toNat ∧ -128 ≤ byteDifference ram s1 s2 i ∧ byteDifference ram s1 s2 i < 128

theorem bufferByte_succ (ram : Ram) (start : BitVec 32) (i : Nat) :
    bufferByte ram (start + 1) i = bufferByte ram start (i + 1) := by
  unfold bufferByte
  rw [BitVec.add_assoc, Nat.add_comm i 1, BitVec.ofNat_add]
  rfl

theorem bufferByte_zero (ram : Ram) (start : BitVec 32) : bufferByte ram start 0 = ram start :=
  congrArg ram (BitVec.add_zero start)

-- One turn on buffers that begin with the same byte, and the rest of the loop.
theorem repeFrom_equal (hsame : ram r.esi = ram r.edi) (hcount : r.ecx.toNat = count + 1) :
    repeFrom ram (count + 1) r = repeFrom ram count
        { r with zf := true, ecx := r.ecx - 1, esi := r.esi + 1, edi := r.edi + 1 } ∧
      (r.ecx - 1).toNat = count := by
  have hne : r.ecx ≠ 0 := by
    rintro heq
    simp [heq] at hcount
  constructor
  · rw [repeFrom, if_neg hne]
    simp [cmpsb, hsame]
  · bv_omega

theorem repeFrom_differs (hdiffers : ram r.esi ≠ ram r.edi) (hcount : r.ecx.toNat = count + 1) :
    repeFrom ram (count + 1) r =
      { r with zf := false, ecx := r.ecx - 1, esi := r.esi + 1, edi := r.edi + 1 } := by
  have hne : r.ecx ≠ 0 := by
    rintro heq
    simp [heq] at hcount
  rw [repeFrom, if_neg hne]
  simp [cmpsb, hdiffers]

-- Equal buffers run the counter down.
theorem repeFrom_same (hcount : r.ecx.toNat = count) (hsame : SameBytes ram r.edi r.esi count) :
    (repeFrom ram count r).ecx = 0 := by
  induction count generalizing r with
  | zero => exact BitVec.eq_of_toNat_eq hcount
  | succ count ih =>
      have hfirst := hsame 0 (Nat.succ_pos count)
      rw [bufferByte_zero, bufferByte_zero] at hfirst
      obtain ⟨hturn, hrest⟩ := repeFrom_equal hfirst.symm hcount
      rw [hturn]
      apply ih hrest
      intro i hi
      rw [bufferByte_succ, bufferByte_succ]
      exact hsame (i + 1) (Nat.succ_lt_succ hi)

-- The loop stops behind the first byte that differs.
theorem repeFrom_different (hcount : r.ecx.toNat = count)
    (hfirst : FirstDifference ram r.edi r.esi count i) :
    (repeFrom ram count r).ecx.toNat = count - (i + 1) ∧
      (repeFrom ram count r).edi = r.edi + BitVec.ofNat 32 (i + 1) ∧
      (repeFrom ram count r).esi = r.esi + BitVec.ofNat 32 (i + 1) := by
  induction count generalizing r i with
  | zero => exact absurd hfirst.inside (Nat.not_lt_zero i)
  | succ count ih =>
      cases i with
      | zero =>
          have hdiffers := hfirst.differs
          rw [bufferByte_zero, bufferByte_zero] at hdiffers
          rw [repeFrom_differs (Ne.symm hdiffers) hcount]
          refine ⟨?_, rfl, rfl⟩
          have hone : (1 : BitVec 32) ≤ r.ecx := by
            bv_omega
          bv_omega
      | succ i =>
          have hsame := hfirst.before 0 (Nat.succ_pos i)
          rw [bufferByte_zero, bufferByte_zero] at hsame
          obtain ⟨hturn, hrest⟩ := repeFrom_equal hsame.symm hcount
          have hnext : FirstDifference ram (r.edi + 1) (r.esi + 1) count i := by
            refine ⟨Nat.lt_of_succ_lt_succ hfirst.inside, ?_, ?_⟩
            · intro j hj
              rw [bufferByte_succ, bufferByte_succ]
              exact hfirst.before (j + 1) (Nat.succ_lt_succ hj)
            · rw [bufferByte_succ, bufferByte_succ]
              exact hfirst.differs
          obtain ⟨hecx, hedi, hesi⟩ := @ih
            { r with zf := true, ecx := r.ecx - 1, esi := r.esi + 1, edi := r.edi + 1 } i hrest hnext
          rw [hturn]
          refine ⟨by rw [hecx]; omega, ?_, ?_⟩
          · rw [hedi]
            bv_omega
          · rw [hesi]
            bv_omega

theorem memcmp_same (hsame : SameBytes ram s1 s2 n.toNat) : (memcmp ram r s1 s2 n).eax = 0 := by
  have hecx : (repeCmpsb ram { r with edi := s1, esi := s2, ecx := n }).ecx = 0 := repeFrom_same rfl hsame
  unfold memcmp
  dsimp only
  rw [if_pos hecx, hecx]

theorem repeCmpsb_different (hfirst : FirstDifference ram s1 s2 n.toNat i) :
    (repeCmpsb ram { r with edi := s1, esi := s2, ecx := n }).ecx.toNat = n.toNat - (i + 1) ∧
      (repeCmpsb ram { r with edi := s1, esi := s2, ecx := n }).edi = s1 + BitVec.ofNat 32 (i + 1) ∧
      (repeCmpsb ram { r with edi := s1, esi := s2, ecx := n }).esi = s2 + BitVec.ofNat 32 (i + 1) :=
  @repeFrom_different ram { r with edi := s1, esi := s2, ecx := n } n.toNat i rfl hfirst

-- When the last byte differs first, the counter is down all the same.
theorem memcmp_different (hfirst : FirstDifference ram s1 s2 n.toNat i) :
    (memcmp ram r s1 s2 n).eax =
      if i + 1 = n.toNat then 0 else (bufferByte ram s1 i - bufferByte ram s2 i).signExtend 32 := by
  obtain ⟨hecx, hedi, hesi⟩ := repeCmpsb_different (r := r) hfirst
  have hinside := hfirst.inside
  -- one behind the byte, and back
  have hback (start : BitVec 32) : start + BitVec.ofNat 32 (i + 1) - 1 = start + BitVec.ofNat 32 i := by
    rw [BitVec.ofNat_add, ← BitVec.add_assoc]
    exact BitVec.add_sub_cancel _ _
  unfold memcmp
  dsimp only
  split_ifs with hzero hlast hlast
  · exact hzero
  · rw [hzero] at hecx
    have hcount : 0 = n.toNat - (i + 1) := hecx
    omega
  · refine absurd (BitVec.eq_of_toNat_eq ?_) hzero
    rw [hecx, hlast, Nat.sub_self]
    rfl
  · rw [hedi, hesi, hback, hback]
    rfl

-- The 8-bit difference keeps its sign from -128 to 127, and takes the other one elsewhere.
theorem sub_sign (a b : BitVec 8) :
    (a - b).toInt.sign = ((a.toNat : Int) - b.toNat).sign ↔
      -128 ≤ (a.toNat : Int) - b.toNat ∧ (a.toNat : Int) - b.toNat < 128 := by
  have ha := a.isLt
  have hb := b.isLt
  have hsign {x y : Int} : x.sign = y.sign ↔ (0 < x ↔ 0 < y) ∧ (x < 0 ↔ y < 0) := by
    obtain hx | rfl | hx := Int.lt_trichotomy x 0 <;> obtain hy | rfl | hy := Int.lt_trichotomy y 0 <;>
      simp [Int.sign_eq_one_of_pos, Int.sign_eq_neg_one_of_neg, *] <;> omega
  rw [hsign, BitVec.toInt_eq_toNat_cond, BitVec.toNat_sub]
  split <;> omega

theorem exists_firstDifference (hdiffer : ¬SameBytes ram s1 s2 count) :
    ∃ i, FirstDifference ram s1 s2 count i := by
  induction count with
  | zero => exact absurd (fun i hi => absurd hi (Nat.not_lt_zero i)) hdiffer
  | succ count ih =>
      by_cases hbefore : SameBytes ram s1 s2 count
      · refine ⟨count, Nat.lt_succ_self count, hbefore, ?_⟩
        rintro hlast
        apply hdiffer
        intro i hi
        obtain hi | rfl := Nat.lt_succ_iff_lt_or_eq.mp hi
        · exact hbefore i hi
        · exact hlast
      · obtain ⟨i, hfirst⟩ := ih hbefore
        exact ⟨i, Nat.lt_succ_of_lt hfirst.inside, hfirst.before, hfirst.differs⟩

theorem FirstDifference.not_same (hfirst : FirstDifference ram s1 s2 count i) :
    ¬SameBytes ram s1 s2 count := fun hsame => hfirst.differs (hsame i hfirst.inside)

theorem FirstDifference.byteDifference_ne_zero (hfirst : FirstDifference ram s1 s2 count i) :
    byteDifference ram s1 s2 i ≠ 0 := by
  rintro hzero
  apply hfirst.differs
  apply BitVec.eq_of_toNat_eq
  unfold byteDifference at hzero
  omega

-- The sign of the result, when another byte follows the one that differs first.
theorem memcmp_sign (hfirst : FirstDifference ram s1 s2 n.toNat i) (hmore : i + 1 < n.toNat) :
    (memcmp ram r s1 s2 n).eax.toInt.sign = (byteDifference ram s1 s2 i).sign ↔
      -128 ≤ byteDifference ram s1 s2 i ∧ byteDifference ram s1 s2 i < 128 := by
  rw [memcmp_different hfirst, if_neg (Nat.ne_of_lt hmore), BitVec.toInt_signExtend_of_le (by decide)]
  exact sub_sign _ _

theorem memcmp_decides_iff (ram : Ram) (r : Registers) (s1 s2 n : BitVec 32) :
    Decides ram s1 s2 n (memcmp ram r s1 s2 n).eax.toInt ↔ DifferenceSeen ram s1 s2 n := by
  constructor
  · rintro hdecides i hfirst
    have hmore : i + 1 < n.toNat := by
      apply Nat.lt_of_le_of_ne hfirst.inside
      rintro hlast
      apply hfirst.not_same
      apply hdecides.equality.mp
      rw [memcmp_different hfirst, if_pos hlast]
      rfl
    exact ⟨hmore, (memcmp_sign hfirst hmore).mp (hdecides.order i hfirst)⟩
  · rintro hseen
    have horder : ∀ i, FirstDifference ram s1 s2 n.toNat i →
        (memcmp ram r s1 s2 n).eax.toInt.sign = (byteDifference ram s1 s2 i).sign := by
      intro i hfirst
      obtain ⟨hmore, hbound⟩ := hseen i hfirst
      exact (memcmp_sign hfirst hmore).mpr hbound
    refine ⟨⟨?_, ?_⟩, horder⟩
    · rintro hzero
      by_contra hdiffer
      obtain ⟨i, hfirst⟩ := exists_firstDifference hdiffer
      have hsign := horder i hfirst
      rw [hzero, Int.sign_zero] at hsign
      exact hfirst.byteDifference_ne_zero (Int.sign_eq_zero_iff_zero.mp hsign.symm)
    · rintro hsame
      rw [memcmp_same hsame]
      rfl

-- One byte that is 1 in the first buffer and 0 in the second.
theorem memcmp_one_byte : ¬∀ (ram : Ram) (r : Registers) (s1 s2 n : BitVec 32),
    Decides ram s1 s2 n (memcmp ram r s1 s2 n).eax.toInt := by
  intro hall
  have hdecides := hall (fun address => if address = 0x1000 then 1 else 0) {} 0x1000 0x2000 1
  have hsame := hdecides.equality.mp (by decide)
  exact absurd (hsame 0 (by decide)) (by decide)

end EchidnaOS.Klib
