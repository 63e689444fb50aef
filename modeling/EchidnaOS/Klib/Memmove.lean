import EchidnaOS.Klib.Memcmp
import EchidnaOS.Lib.CopyLoop
import Mathlib.Tactic.LinearCombination

namespace EchidnaOS.Klib

open EchidnaOS.Lib.CopyLoop

-- The memory, the registers of the string instructions and the direction flag.
structure StringUnit where
  ram : Ram
  eax : BitVec 32 := 0
  ecx : BitVec 32 := 0
  edx : BitVec 32 := 0
  esi : BitVec 32 := 0
  edi : BitVec 32 := 0
  df : Bool := false

def advance (df : Bool) (pointer : BitVec 32) : BitVec 32 := if df then pointer - 1 else pointer + 1

def movsb (u : StringUnit) : StringUnit :=
  { u with
    ram := Function.update u.ram u.edi (u.ram u.esi)
    esi := advance u.df u.esi
    edi := advance u.df u.edi }

def stosb (u : StringUnit) : StringUnit :=
  { u with ram := Function.update u.ram u.edi (u.eax.setWidth 8), edi := advance u.df u.edi }

def repFrom (instruction : StringUnit → StringUnit) : Nat → StringUnit → StringUnit
  | 0, u => u
  | fuel + 1, u =>
      if u.ecx = 0 then u else repFrom instruction fuel (instruction { u with ecx := u.ecx - 1 })

def rep (instruction : StringUnit → StringUnit) (u : StringUnit) : StringUnit :=
  repFrom instruction u.ecx.toNat u

def memcpy (u : StringUnit) (dst src n : BitVec 32) : StringUnit :=
  let moved := rep movsb { u with eax := dst, edi := dst, esi := src, ecx := n }
  { moved with esi := u.esi, edi := u.edi }

def memset (u : StringUnit) (dst value n : BitVec 32) : StringUnit :=
  let filled := rep stosb { u with edx := dst, edi := dst, eax := value, ecx := n }
  { filled with eax := filled.edx, edi := u.edi }

def memmove (u : StringUnit) (dst src n : BitVec 32) : StringUnit :=
  let entered := { u with eax := dst, edi := dst, esi := src, ecx := n }
  let moved :=
    if src < dst then
      -- .copy_backwards
      let moved := rep movsb { entered with edi := dst + n - 1, esi := src + n - 1, df := true }
      { moved with df := false }
    else rep movsb entered
  { moved with esi := u.esi, edi := u.edi }

-- Where the pointer is in turn `i`.
def place (df : Bool) (start : BitVec 32) (i : Nat) : BitVec 32 :=
  if df then start - BitVec.ofNat 32 i else start + BitVec.ofNat 32 i

-- `n` bytes stand at `dst` as they stood at `src`, and the others stay.
structure Copied (ram after : Ram) (dst src n : BitVec 32) : Prop where
  inside : ∀ i, i < n.toNat → bufferByte after dst i = bufferByte ram src i
  outside : ∀ address, (∀ i, i < n.toNat → dst + BitVec.ofNat 32 i ≠ address) →
    after address = ram address

variable {u : StringUnit} {ram after : Ram} {df : Bool} {start dst src n value : BitVec 32}
  {count i j : Nat}

@[simp] theorem advance_up (pointer : BitVec 32) : advance false pointer = pointer + 1 := rfl

@[simp] theorem advance_down (pointer : BitVec 32) : advance true pointer = pointer - 1 := rfl

@[simp] theorem place_up (start : BitVec 32) (i : Nat) :
    place false start i = start + BitVec.ofNat 32 i := rfl

@[simp] theorem place_down (start : BitVec 32) (i : Nat) :
    place true start i = start - BitVec.ofNat 32 i := rfl

theorem place_zero (df : Bool) (start : BitVec 32) : place df start 0 = start := by
  cases df with
  | false => exact BitVec.add_zero start
  | true => exact BitVec.sub_zero start

theorem place_advance (df : Bool) (start : BitVec 32) (i : Nat) :
    place df (advance df start) i = place df start (i + 1) := by
  cases df with
  | false =>
      rw [place_up, place_up, advance_up]
      bv_omega
  | true =>
      rw [place_down, place_down, advance_down]
      bv_omega

theorem place_inj (hi : i < 2 ^ 32) (hj : j < 2 ^ 32) (heq : place df start i = place df start j) :
    i = j := by
  cases df with
  | false =>
      rw [place_up, place_up] at heq
      bv_omega
  | true =>
      rw [place_down, place_down] at heq
      bv_omega

theorem place_nodup (df : Bool) (start : BitVec 32) (hcount : count ≤ 2 ^ 32) :
    ((List.range count).map (place df start)).Nodup := by
  apply List.Nodup.map_on _ List.nodup_range
  intro i hi j hj heq
  have hlt := List.mem_range.mp hi
  have hlt' := List.mem_range.mp hj
  exact place_inj (by omega) (by omega) heq

theorem rep_turn {instruction : StringUnit → StringUnit} (hcount : u.ecx.toNat = count + 1)
    (hkeeps : ∀ u, (instruction u).ecx = u.ecx) :
    repFrom instruction (count + 1) u = repFrom instruction count (instruction { u with ecx := u.ecx - 1 }) ∧
      (instruction { u with ecx := u.ecx - 1 }).ecx.toNat = count := by
  have hne : u.ecx ≠ 0 := by
    intro hzero
    simp [hzero] at hcount
  rw [repFrom, if_neg hne, hkeeps]
  refine ⟨rfl, ?_⟩
  show (u.ecx - 1).toNat = count
  bv_omega

-- rep movsb is a loop over the turns, and leaves EAX and the flag.
theorem rep_movsb (u : StringUnit) :
    (rep movsb u).ram = copyLoop (place u.df u.edi) (place u.df u.esi) (List.range u.ecx.toNat) u.ram ∧
      (rep movsb u).eax = u.eax ∧ (rep movsb u).df = u.df := by
  unfold rep
  generalize hcount : u.ecx.toNat = count
  induction count generalizing u with
  | zero => exact ⟨rfl, rfl, rfl⟩
  | succ count ih =>
      obtain ⟨hturn, hrest⟩ := rep_turn hcount (fun _ => rfl : ∀ u, (movsb u).ecx = u.ecx)
      obtain ⟨hram, heax, hdf⟩ := ih (movsb { u with ecx := u.ecx - 1 }) hrest
      rw [hturn]
      refine ⟨?_, heax, hdf⟩
      rw [hram, List.range_succ_eq_map, copyLoop, copyLoop_map, place_zero, place_zero]
      congr 1
      · funext i
        exact place_advance u.df u.edi i
      · funext i
        exact place_advance u.df u.esi i

theorem toNat_turns (hlt : i < j) (hj : j < 2 ^ 32) :
    (BitVec.ofNat 32 j - BitVec.ofNat 32 i).toNat = j - i := by
  bv_omega

theorem rep_stosb (u : StringUnit) (address : BitVec 32) : (rep stosb u).ram address =
    if ∃ i, i < u.ecx.toNat ∧ place u.df u.edi i = address then u.eax.setWidth 8 else u.ram address := by
  unfold rep
  generalize hcount : u.ecx.toNat = count
  induction count generalizing u with
  | zero =>
      rw [if_neg (fun ⟨i, hi, _⟩ => Nat.not_lt_zero i hi)]
      rfl
  | succ count ih =>
      obtain ⟨hturn, hrest⟩ := rep_turn hcount (fun _ => rfl : ∀ u, (stosb u).ecx = u.ecx)
      rw [hturn, ih _ hrest]
      show (if ∃ i, i < count ∧ place u.df (advance u.df u.edi) i = address then u.eax.setWidth 8
        else Function.update u.ram u.edi (u.eax.setWidth 8) address) = _
      simp only [place_advance]
      by_cases hlater : ∃ i, i < count ∧ place u.df u.edi (i + 1) = address
      · obtain ⟨i, hi, hplace⟩ := hlater
        rw [if_pos ⟨i, hi, hplace⟩, if_pos ⟨i + 1, Nat.succ_lt_succ hi, hplace⟩]
      · rw [if_neg hlater]
        by_cases hfirst : address = u.edi
        · rw [hfirst, Function.update_self, if_pos ⟨0, Nat.succ_pos count, place_zero u.df u.edi⟩]
        · rw [Function.update_of_ne hfirst, if_neg]
          rintro ⟨i, hi, hplace⟩
          cases i with
          | zero => exact hfirst (hplace.symm.trans (place_zero u.df u.edi))
          | succ i => exact hlater ⟨i, Nat.lt_of_succ_lt_succ hi, hplace⟩

-- Where the pointers start, and the turn that byte `i` has.
def firstPlace (df : Bool) (start n : BitVec 32) : BitVec 32 := if df then start + n - 1 else start

def turnOf (df : Bool) (n i : Nat) : Nat := if df then n - 1 - i else i

-- How far the destination is before the source, in the direction of the loop.
def gap (df : Bool) (dst src : BitVec 32) : BitVec 32 := if df then src - dst else dst - src

def movedBy (df : Bool) (dst src n : BitVec 32) (ram : Ram) : Ram :=
  copyLoop (place df (firstPlace df dst n)) (place df (firstPlace df src n)) (List.range n.toNat) ram

theorem turnOf_lt (df : Bool) (hi : i < count) : turnOf df count i < count := by
  unfold turnOf
  split
  · omega
  · exact hi

theorem turnOf_turnOf (df : Bool) (hi : i < count) : turnOf df count (turnOf df count i) = i := by
  unfold turnOf
  split
  · omega
  · rfl

theorem place_firstPlace (df : Bool) (start : BitVec 32) (hi : i < n.toNat) :
    place df (firstPlace df start n) (turnOf df n.toNat i) = start + BitVec.ofNat 32 i := by
  cases df with
  | false => rfl
  | true =>
      show start + n - 1 - BitVec.ofNat 32 (n.toNat - 1 - i) = start + BitVec.ofNat 32 i
      bv_omega

-- The places of a later and an earlier turn.
theorem places_meet (df : Bool) (dst src n : BitVec 32) (i j : Nat) :
    place df (firstPlace df src n) j = place df (firstPlace df dst n) i ↔
      gap df dst src = BitVec.ofNat 32 j - BitVec.ofNat 32 i := by
  cases df with
  | false =>
      show src + BitVec.ofNat 32 j = dst + BitVec.ofNat 32 i ↔
        dst - src = BitVec.ofNat 32 j - BitVec.ofNat 32 i
      constructor
      · intro heq
        linear_combination -heq
      · intro heq
        linear_combination -heq
  | true =>
      show src + n - 1 - BitVec.ofNat 32 j = dst + n - 1 - BitVec.ofNat 32 i ↔
        src - dst = BitVec.ofNat 32 j - BitVec.ofNat 32 i
      constructor
      · intro heq
        linear_combination heq
      · intro heq
        linear_combination heq

theorem gap_self (df : Bool) (dst : BitVec 32) : gap df dst dst = 0#32 := by
  cases df with
  | false => exact BitVec.sub_self dst
  | true => exact BitVec.sub_self dst

theorem copied_of_far (hfar : dst = src ∨ n.toNat ≤ (gap df dst src).toNat) (ram : Ram) :
    Copied ram (movedBy df dst src n ram) dst src n := by
  have hnodup := place_nodup df (firstPlace df dst n) n.isLt.le
  have hfresh : Fresh (place df (firstPlace df dst n)) (place df (firstPlace df src n))
      (List.range n.toNat) := by
    refine List.Pairwise.imp_of_mem ?_ List.pairwise_lt_range
    intro i j hi hj hlt heq
    have hj' := List.mem_range.mp hj
    have hgap := congrArg BitVec.toNat ((places_meet df dst src n i j).mp heq)
    rw [toNat_turns hlt (hj'.trans n.isLt)] at hgap
    rcases hfar with rfl | hfar
    · rw [gap_self, BitVec.toNat_zero] at hgap
      omega
    · omega
  constructor
  · intro i hi
    have hmem := List.mem_range.mpr (turnOf_lt df hi)
    have hat := copyLoop_inside hnodup hfresh hmem ram
    rw [place_firstPlace df dst hi, place_firstPlace df src hi] at hat
    exact hat
  · intro address hout
    apply copyLoop_outside
    intro i hi
    have hlt := turnOf_lt df (List.mem_range.mp hi)
    have hplace := place_firstPlace df dst hlt
    rw [turnOf_turnOf df (List.mem_range.mp hi)] at hplace
    rw [hplace]
    exact hout _ hlt

-- The first turn writes over a byte that a later turn has still to read.
theorem not_copied_of_near (hne : dst ≠ src) (hnear : (gap df dst src).toNat < n.toNat) :
    ∃ ram, ¬Copied ram (movedBy df dst src n ram) dst src n := by
  have hpos : 0 < (gap df dst src).toNat := by
    unfold gap
    split
    · bv_omega
    · bv_omega
  obtain ⟨later, hlater⟩ : ∃ later, (gap df dst src).toNat = later + 1 := ⟨_, (Nat.sub_add_cancel hpos).symm⟩
  obtain ⟨count, hcount⟩ : ∃ count, n.toNat = count + 1 := ⟨n.toNat - 1, by omega⟩
  have hnodup := place_nodup df (firstPlace df dst n) n.isLt.le
  have hmem : later + 1 ∈ (List.range count).map Nat.succ :=
    List.mem_map.mpr ⟨later, List.mem_range.mpr (by omega), rfl⟩
  have hmeet : place df (firstPlace df src n) (later + 1) = place df (firstPlace df dst n) 0 := by
    rw [places_meet]
    bv_omega
  have hplaces : place df (firstPlace df src n) 0 ≠ place df (firstPlace df src n) (later + 1) := by
    intro heq
    have hsame := place_inj (by omega) (by omega) heq
    omega
  rw [hcount, List.range_succ_eq_map] at hnodup
  obtain ⟨ram, hwrong⟩ := exists_wrong (show (0 : BitVec 8) ≠ 1 by decide) hnodup hmem hmeet hplaces
  refine ⟨ram, fun hcopied => hwrong ?_⟩
  have hlt : later + 1 < n.toNat := by omega
  have hinside := hcopied.inside _ (turnOf_lt df hlt)
  unfold bufferByte at hinside
  rw [← place_firstPlace df dst (turnOf_lt df hlt), ← place_firstPlace df src (turnOf_lt df hlt),
    turnOf_turnOf df hlt, movedBy, hcount, List.range_succ_eq_map] at hinside
  exact hinside

theorem memcpy_ram (u : StringUnit) (hdf : u.df = false) (dst src n : BitVec 32) :
    (memcpy u dst src n).ram = movedBy false dst src n u.ram := by
  apply (rep_movsb { u with eax := dst, edi := dst, esi := src, ecx := n }).1.trans
  show copyLoop (place u.df dst) (place u.df src) (List.range n.toNat) u.ram = _
  rw [hdf]
  rfl

theorem memmove_ram (u : StringUnit) (hdf : u.df = false) (dst src n : BitVec 32) :
    (memmove u dst src n).ram = movedBy (decide (src < dst)) dst src n u.ram := by
  unfold memmove
  dsimp only
  split
  · rename_i habove
    rw [decide_eq_true habove]
    exact (rep_movsb { u with
      eax := dst, edi := dst + n - 1, esi := src + n - 1, ecx := n, df := true }).1
  · rename_i hbelow
    rw [decide_eq_false hbelow]
    exact memcpy_ram u hdf dst src n

-- As its callers find it: the destination in EAX, and the other registers that they rely on as
-- they were.
theorem memmove_registers (u : StringUnit) (hdf : u.df = false) (dst src n : BitVec 32) :
    (memmove u dst src n).eax = dst ∧ (memmove u dst src n).esi = u.esi ∧
      (memmove u dst src n).edi = u.edi ∧ (memmove u dst src n).df = false := by
  unfold memmove
  dsimp only
  split
  · exact ⟨(rep_movsb _).2.1, rfl, rfl, rfl⟩
  · exact ⟨(rep_movsb _).2.1, rfl, rfl, (rep_movsb _).2.2.trans hdf⟩

theorem movedBy_copies_iff (df : Bool) (dst src n : BitVec 32) :
    (∀ ram, Copied ram (movedBy df dst src n ram) dst src n) ↔
      dst = src ∨ n.toNat ≤ (gap df dst src).toNat := by
  constructor
  · intro hall
    by_contra hnot
    rw [not_or, Nat.not_le] at hnot
    obtain ⟨ram, hwrong⟩ := not_copied_of_near hnot.1 hnot.2
    exact hwrong (hall ram)
  · exact copied_of_far

-- memmove copies whatever the memory holds, exactly when neither buffer runs over the end of the
-- address space into the other one. How the two overlap otherwise does not matter.
theorem memmove_copies_iff (u : StringUnit) (hdf : u.df = false) (dst src n : BitVec 32) :
    (∀ ram, Copied ram (memmove { u with ram := ram } dst src n).ram dst src n) ↔
      src.toNat + n.toNat ≤ dst.toNat + 2 ^ 32 ∧ dst.toNat + n.toNat ≤ src.toNat + 2 ^ 32 := by
  have hmoved : ∀ ram, (memmove { u with ram := ram } dst src n).ram =
      movedBy (decide (src < dst)) dst src n ram :=
    fun ram => memmove_ram { u with ram := ram } hdf dst src n
  simp only [hmoved, movedBy_copies_iff]
  by_cases habove : src < dst
  · rw [decide_eq_true habove]
    show dst = src ∨ n.toNat ≤ (src - dst).toNat ↔ _
    bv_omega
  · rw [decide_eq_false habove]
    show dst = src ∨ n.toNat ≤ (dst - src).toNat ↔ _
    bv_omega

-- A block moved up by less than its length.
theorem memmove_up_copies :
    Copied (BitVec.setWidth 8) (memmove { ram := BitVec.setWidth 8 } 0x1010 0x1000 0x100).ram
      0x1010 0x1000 0x100 :=
  (memmove_copies_iff { ram := fun _ => 0 } rfl 0x1010 0x1000 0x100).mpr (by decide) _

-- memcpy only goes up, and copies exactly when the destination does not begin inside the source.
theorem memcpy_copies_iff (u : StringUnit) (hdf : u.df = false) (dst src n : BitVec 32) :
    (∀ ram, Copied ram (memcpy { u with ram := ram } dst src n).ram dst src n) ↔
      dst = src ∨ n.toNat ≤ (dst - src).toNat := by
  have hmoved : ∀ ram, (memcpy { u with ram := ram } dst src n).ram = movedBy false dst src n ram :=
    fun ram => memcpy_ram { u with ram := ram } hdf dst src n
  simp only [hmoved, movedBy_copies_iff]
  exact Iff.rfl

theorem memcpy_up_goes_wrong :
    ¬∀ ram, Copied ram (memcpy { ram := ram } 0x1010 0x1000 0x100).ram 0x1010 0x1000 0x100 :=
  fun hall => absurd ((memcpy_copies_iff { ram := fun _ => 0 } rfl 0x1010 0x1000 0x100).mp hall)
    (by decide)

-- memset stores the low byte of its argument at the `n` addresses from `dst` on, round the end of
-- the address space too, and nowhere else.
theorem memset_fills (u : StringUnit) (hdf : u.df = false) (dst value n address : BitVec 32) :
    (memset u dst value n).ram address =
      if (address - dst).toNat < n.toNat then value.setWidth 8 else u.ram address := by
  apply (rep_stosb { u with edx := dst, edi := dst, eax := value, ecx := n } address).trans
  show (if ∃ i, i < n.toNat ∧ place u.df dst i = address then _ else _) = _
  have hiff : (∃ i, i < n.toNat ∧ place u.df dst i = address) ↔ (address - dst).toNat < n.toNat := by
    rw [hdf]
    constructor
    · rintro ⟨i, hi, rfl⟩
      rw [place_up]
      bv_omega
    · intro hlt
      refine ⟨(address - dst).toNat, hlt, ?_⟩
      rw [place_up]
      bv_omega
  simp only [hiff]

end EchidnaOS.Klib
