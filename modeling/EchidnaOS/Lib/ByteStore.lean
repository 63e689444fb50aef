import Mathlib.Data.List.GetD
import Mathlib.Data.Nat.Digits.Defs
import Mathlib.Tactic.Ring

namespace EchidnaOS.Lib.ByteStore

-- A byte-addressed store. Every address holds a byte, so reads never fail.
abbrev Store := Nat → UInt8

-- A NUL-terminated string, without its NUL.
abbrev CString := List UInt8

def read (store : Store) (start count : Nat) : List UInt8 :=
  (List.range count).map fun offset => store (start + offset)

-- Write consecutive bytes from `start` on and keep every other byte.
def write (store : Store) (start : Nat) (bytes : List UInt8) : Store := fun address =>
  if start ≤ address ∧ address < start + bytes.length then bytes.getD (address - start) 0
  else store address

theorem write_outside (store : Store) (start : Nat) (bytes : List UInt8) (address : Nat)
    (hout : address < start ∨ start + bytes.length ≤ address) :
    write store start bytes address = store address := by
  unfold write
  rw [if_neg (by omega)]

theorem write_inside (store : Store) (start : Nat) (bytes : List UInt8) (offset : Nat)
    (hoffset : offset < bytes.length) :
    write store start bytes (start + offset) = bytes.getD offset 0 := by
  unfold write
  rw [if_pos (by omega), Nat.add_sub_cancel_left]

-- A longer write is one write after the other.
theorem write_append (store : Store) (start : Nat) (first second : List UInt8) :
    write store start (first ++ second) =
      write (write store start first) (start + first.length) second := by
  funext address
  unfold write
  rw [List.length_append]
  by_cases hfirst : start ≤ address ∧ address < start + first.length
  · rw [if_pos (by omega), if_neg (by omega), if_pos hfirst,
      List.getD_append _ _ _ _ (by omega)]
  · rw [if_neg hfirst]
    by_cases hsecond : start + first.length ≤ address ∧
        address < start + first.length + second.length
    · rw [if_pos (by omega), if_pos hsecond, List.getD_append_right _ _ _ _ (by omega), Nat.sub_sub]
    · rw [if_neg (by omega), if_neg hsecond]

theorem write_comm (store : Store) {start other : Nat} {first second : List UInt8}
    (hsep : start + first.length ≤ other ∨ other + second.length ≤ start) :
    write (write store start first) other second = write (write store other second) start first := by
  funext address
  by_cases hsecond : other ≤ address ∧ address < other + second.length
  · rw [write_outside _ start _ _ (by omega)]
    unfold write
    rw [if_pos hsecond, if_pos hsecond]
  · rw [write_outside _ other _ _ (by omega)]
    unfold write
    rw [if_neg hsecond]

-- Writing the start of some bytes over them changes nothing.
theorem write_again (store : Store) (start : Nat) (first second : List UInt8) :
    write (write store start (first ++ second)) start first = write store start (first ++ second) := by
  funext address
  by_cases hfirst : start ≤ address ∧ address < start + first.length
  · unfold write
    rw [if_pos hfirst, if_pos (by rw [List.length_append]; omega), List.getD_append _ _ _ _ (by omega)]
  · exact write_outside _ _ _ _ (by omega)

-- Copy the first `count` bytes of another store to `start`.
def blit (store : Store) (start count : Nat) (source : Store) : Store := fun address =>
  if start ≤ address ∧ address < start + count then source (address - start) else store address

theorem blit_outside (store : Store) (start count : Nat) (source : Store) (address : Nat)
    (hout : address < start ∨ start + count ≤ address) :
    blit store start count source address = store address := by
  unfold blit
  rw [if_neg (by omega)]

theorem blit_inside (store : Store) (start count : Nat) (source : Store) (offset : Nat)
    (hoffset : offset < count) : blit store start count source (start + offset) = source offset := by
  unfold blit
  rw [if_pos (by omega), Nat.add_sub_cancel_left]

@[simp] theorem read_length (store : Store) (start count : Nat) :
    (read store start count).length = count := by
  simp [read]

theorem read_getD (store : Store) (start count offset : Nat) (hoffset : offset < count) :
    (read store start count).getD offset 0 = store (start + offset) := by
  simp [read, List.getD, List.getElem?_range hoffset]

theorem read_succ (store : Store) (start count : Nat) :
    read store start (count + 1) = store start :: read store (start + 1) count := by
  unfold read
  rw [List.range_succ_eq_map, List.map_cons, List.map_map, Nat.add_zero]
  congr 1
  apply List.map_congr_left
  intro offset _
  show store (start + (offset + 1)) = store (start + 1 + offset)
  rw [Nat.add_assoc, Nat.add_comm 1 offset]

-- Reading depends only on the bytes of the range.
theorem read_congr (first second : Store) (start count : Nat)
    (heq : ∀ address, start ≤ address → address < start + count →
      first address = second address) :
    read first start count = read second start count := by
  unfold read
  apply List.map_congr_left
  intro offset hoffset
  have := List.mem_range.mp hoffset
  exact heq _ (by omega) (by omega)

theorem read_blit (store buffer : Store) (start count : Nat) :
    read (blit buffer 0 count fun offset => store (start + offset)) 0 count =
      read store start count := by
  apply List.ext_getElem
  · simp
  · intro offset hleft hright
    have hoffset : offset < count := by simpa using hright
    simp [read, blit, hoffset]

theorem read_write_disjoint (store : Store) (start : Nat) (bytes : List UInt8)
    (other count : Nat) (hsep : other + count ≤ start ∨ start + bytes.length ≤ other) :
    read (write store start bytes) other count = read store other count := by
  apply read_congr
  intro address hlow hhigh
  exact write_outside store start bytes address (by omega)

theorem read_write_same (store : Store) (start : Nat) (bytes : List UInt8) (count : Nat)
    (hcount : count = bytes.length) :
    read (write store start bytes) start count = bytes := by
  subst hcount
  apply List.ext_getElem
  · simp
  · intro offset hleft hright
    simp only [read, List.getElem_map, List.getElem_range]
    rw [write_inside store start bytes offset hright]
    simp [List.getD, List.getElem?_eq_getElem hright]

theorem read_take (store : Store) (start : Nat) {width count : Nat} (hwidth : width ≤ count) :
    (read store start count).take width = read store start width := by
  simp [read, ← List.map_take, List.take_range, Nat.min_eq_left hwidth]

theorem read_drop (store : Store) (start width count : Nat) :
    (read store start count).drop width = read store (start + width) (count - width) := by
  apply List.ext_getElem
  · simp
  · intro offset hleft hright
    simp [read, Nat.add_assoc]

theorem read_update_end (store : Store) (count : Nat) (c : UInt8) :
    read (Function.update store count c) 0 (count + 1) = read store 0 count ++ [c] := by
  have hkept : ∀ offset ∈ List.range count, Function.update store count c offset = store offset := by
    intro offset hoffset
    have hlt := List.mem_range.mp hoffset
    exact Function.update_of_ne (by omega) _ _
  simp only [read, List.range_succ, List.map_append, List.map_cons, List.map_nil, Nat.zero_add,
    Function.update_self, List.append_cancel_right_eq]
  simpa using hkept

theorem read_update_behind (store : Store) {count index : Nat} (hindex : count ≤ index) (c : UInt8) :
    read (Function.update store index c) 0 count = read store 0 count := by
  apply read_congr
  intro address _ haddress
  exact Function.update_of_ne (by omega) _ _

-- What is copied behind the unread input follows it.
theorem read_blit_end (store source : Store) {start count copied : Nat} (hcount : count ≤ copied) :
    read (blit store start copied source) 0 (start + count) = read store 0 start ++ read source 0 count := by
  apply List.ext_getElem
  · simp
  · intro index hleft hright
    have hindex : index < start + count := by simpa using hleft
    simp only [read, List.getElem_map, List.getElem_range, Nat.zero_add, List.getElem_append,
      List.length_map, List.length_range]
    split
    · next hlow => exact blit_outside _ _ _ _ _ (by left; exact hlow)
    · next hhigh =>
        have hinside := blit_inside store start copied source (index - start) (by omega)
        rwa [Nat.add_sub_cancel' (Nat.le_of_not_lt hhigh)] at hinside

-- The fields of a packed record, by their widths.
def unpack : List Nat → List UInt8 → List (List UInt8)
  | [], _ => []
  | width :: widths, bytes => bytes.take width :: unpack widths (bytes.drop width)

-- Bytes written over a string at a position inside it, or at its end.
def splice (bytes : List UInt8) (start : Nat) (data : List UInt8) : List UInt8 :=
  bytes.take start ++ data ++ bytes.drop (start + data.length)

theorem splice_getElem? {bytes data : List UInt8} {start : Nat} (hstart : start ≤ bytes.length)
    (pos : Nat) : (splice bytes start data)[pos]? =
      if start ≤ pos ∧ pos < start + data.length then data[pos - start]? else bytes[pos]? := by
  have hfront : (bytes.take start).length = start := List.length_take_of_le hstart
  unfold splice
  rw [List.append_assoc]
  by_cases hlow : pos < start
  · rw [if_neg (by omega), List.getElem?_append_left (by omega), List.getElem?_take_of_lt hlow]
  · rw [List.getElem?_append_right (by omega), hfront]
    by_cases hhigh : pos < start + data.length
    · rw [if_pos (by omega), List.getElem?_append_left (by omega)]
    · rw [if_neg (by omega), List.getElem?_append_right (by omega), List.getElem?_drop]
      congr 1
      omega

-- The little-endian bytes of the low `width` bytes of a number.
def leBytes : Nat → Nat → List UInt8
  | 0, _ => []
  | width + 1, value => UInt8.ofNat value :: leBytes width (value / 256)

def leValue (bytes : List UInt8) : Nat := Nat.ofDigits 256 (bytes.map UInt8.toNat)

@[simp] theorem leBytes_length (width value : Nat) : (leBytes width value).length = width := by
  induction width generalizing value with
  | zero => rfl
  | succ width ih => simp [leBytes, ih]

theorem leValue_leBytes (width value : Nat) :
    leValue (leBytes width value) = value % 256 ^ width := by
  induction width generalizing value with
  | zero => simp [leBytes, leValue, Nat.mod_one]
  | succ width ih =>
      have hrest : Nat.ofDigits 256 ((leBytes width (value / 256)).map UInt8.toNat) =
          value / 256 % 256 ^ width := ih (value / 256)
      simp only [leValue, leBytes, List.map_cons, Nat.ofDigits_cons, hrest, UInt8.toNat_ofNat']
      rw [pow_succ' 256 width, Nat.mod_mul]

theorem leValue_lt (bytes : List UInt8) : leValue bytes < 256 ^ bytes.length := by
  induction bytes with
  | nil => simp [leValue]
  | cons byte bytes ih =>
      have hbyte := byte.toNat_lt
      simp only [leValue, List.map_cons, Nat.ofDigits_cons, List.length_cons, pow_succ] at ih ⊢
      omega

end EchidnaOS.Lib.ByteStore
