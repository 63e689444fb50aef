import EchidnaOS.Lib.ByteStore

namespace EchidnaOS.Lib.PointerArray

open EchidnaOS.Lib.ByteStore

-- The little-endian number in the four bytes at an address.
def word (mem : Store) (address : Nat) : Nat := leValue (read mem address 4)

structure StringAt (mem : Store) (address : Nat) (text : CString) : Prop where
  ends : 0 ∉ text
  bytes : read mem address (text.length + 1) = text ++ [0]

-- A NULL-terminated array of pointers to strings, as a segment with that base sees them.
def Decodes (mem : Store) (base : Nat) : Nat → List CString → Prop
  | array, [] => word mem array = 0
  | array, text :: rest =>
      word mem array ≠ 0 ∧ StringAt mem (base + word mem array) text ∧
        Decodes mem base (array + 4) rest

-- Pointers to strings that lie one behind the other from an offset on.
def Laid (mem : Store) (base : Nat) : Nat → Nat → List CString → Prop
  | _, _, [] => True
  | array, limit, text :: rest =>
      word mem array = limit ∧ StringAt mem (base + limit) text ∧
        Laid mem base (array + 4) (limit + text.length + 1) rest

-- Write the strings from an offset on, and the pointers to them with a NULL behind the last.
def marshal (base : Nat) : Nat → Nat → List CString → Store → Store
  | array, _, [], mem => write mem array (leBytes 4 0)
  | array, limit, text :: rest, mem =>
      marshal base (array + 4) (limit + text.length + 1) rest
        (write (write mem (base + limit) (text ++ [0])) array (leBytes 4 limit))

-- The bytes that strings take, each with its NUL.
def stringBytes (texts : List CString) : Nat := (texts.map (·.length + 1)).sum

@[simp] theorem stringBytes_nil : stringBytes [] = 0 := rfl

@[simp] theorem stringBytes_cons (text : CString) (rest : List CString) :
    stringBytes (text :: rest) = text.length + 1 + stringBytes rest := by
  simp [stringBytes]

theorem stringBytes_take_le (texts : List CString) (count : Nat) :
    stringBytes (texts.take count) ≤ stringBytes texts := by
  induction texts generalizing count with
  | nil => simp
  | cons text rest ih =>
      cases count with
      | zero => simp
      | succ count =>
          have hrest := ih count
          simp only [List.take_succ_cons, stringBytes_cons]
          omega

variable {mem other : Store} {base array limit address high : Nat} {text second : CString}
  {texts others : List CString}

theorem word_congr (hsame : ∀ address, array ≤ address → address < array + 4 →
    mem address = other address) : word mem array = word other array := by
  rw [word, word, read_congr mem other array 4 hsame]

theorem word_write_self {value : Nat} (hvalue : value < 2 ^ 32) :
    word (write mem array (leBytes 4 value)) array = value := by
  rw [word, read_write_same _ _ _ _ (by simp), leValue_leBytes]
  exact Nat.mod_eq_of_lt hvalue

namespace StringAt

theorem congr (hat : StringAt mem address text)
    (hsame : ∀ place, address ≤ place → place ≤ address + text.length → mem place = other place) :
    StringAt other address text := by
  refine ⟨hat.ends, ?_⟩
  rw [← hat.bytes]
  apply read_congr
  intro place hlow hhigh
  exact (hsame place hlow (by omega)).symm

theorem byte (hat : StringAt mem address text) {offset : Nat} (hoffset : offset ≤ text.length) :
    mem (address + offset) = (text ++ [0]).getD offset 0 := by
  rw [← hat.bytes, read_getD _ _ _ _ (by omega)]

theorem byte_ne (hat : StringAt mem address text) {offset : Nat} (hoffset : offset < text.length) :
    mem (address + offset) ≠ 0 := by
  rw [hat.byte (by omega), List.getD_append _ _ _ _ hoffset, List.getD_eq_getElem _ _ hoffset]
  intro hzero
  exact hat.ends (hzero ▸ List.getElem_mem hoffset)

theorem byte_end (hat : StringAt mem address text) : mem (address + text.length) = 0 := by
  rw [hat.byte (Nat.le_refl _), List.getD_append_right _ _ _ _ (Nat.le_refl _)]
  simp

-- The first NUL ends a string.
theorem length_le (hat : StringAt mem address text) (hsecond : StringAt mem address second) :
    text.length ≤ second.length := by
  by_contra hlonger
  exact hat.byte_ne (by omega) hsecond.byte_end

theorem unique (hat : StringAt mem address text) (hsecond : StringAt mem address second) :
    text = second := by
  have hlength := Nat.le_antisymm (hat.length_le hsecond) (hsecond.length_le hat)
  have hbytes := hat.bytes
  rw [hlength, hsecond.bytes] at hbytes
  exact (List.append_cancel_right hbytes).symm

end StringAt

theorem Decodes.unique (hdecodes : Decodes mem base array texts)
    (hothers : Decodes mem base array others) : texts = others := by
  induction texts generalizing array others with
  | nil =>
      cases others with
      | nil => rfl
      | cons text rest => exact absurd hdecodes hothers.1
  | cons text rest ih =>
      cases others with
      | nil => exact absurd hothers hdecodes.1
      | cons other others =>
          rw [hdecodes.2.1.unique hothers.2.1, ih hdecodes.2.2 hothers.2.2]

-- A marshalled array keeps every byte outside its pointers and its strings.
theorem marshal_outside (hpointers : address < array ∨ array + 4 * (texts.length + 1) ≤ address)
    (hstrings : address < base + limit ∨ base + limit + stringBytes texts ≤ address) :
    marshal base array limit texts mem address = mem address := by
  induction texts generalizing array limit mem with
  | nil => exact write_outside _ _ _ _ (by simpa using hpointers)
  | cons text rest ih =>
      simp only [List.length_cons, stringBytes_cons] at hpointers hstrings
      rw [marshal, ih (by omega) (by omega), write_outside, write_outside]
      · simp only [List.length_append, List.length_singleton]
        omega
      · rw [leBytes_length]
        omega

theorem Laid.congr (hlaid : Laid mem base array limit texts)
    (hpointers : ∀ address, array ≤ address → address < array + 4 * texts.length →
      mem address = other address)
    (hstrings : ∀ address, base + limit ≤ address → address < base + limit + stringBytes texts →
      mem address = other address) :
    Laid other base array limit texts := by
  induction texts generalizing array limit with
  | nil => trivial
  | cons text rest ih =>
      simp only [List.length_cons, stringBytes_cons] at hpointers hstrings
      obtain ⟨hword, hat, hrest⟩ := hlaid
      refine ⟨?_, ?_, ih hrest ?_ ?_⟩
      · rw [← hword]
        exact (word_congr fun address hlow hhigh => hpointers address hlow (by omega)).symm
      · exact hat.congr fun address hlow hhigh => hstrings address hlow (by omega)
      · exact fun address hlow hhigh => hpointers address (by omega) (by omega)
      · exact fun address hlow hhigh => hstrings address (by omega) (by omega)

-- What marshal writes: each string is behind the one before it, and a NULL ends the pointers.
theorem marshal_laid (hends : ∀ text ∈ texts, 0 ∉ text)
    (hapart : array + 4 * (texts.length + 1) ≤ base + limit)
    (hmax : limit + stringBytes texts < 2 ^ 32) :
    Laid (marshal base array limit texts mem) base array limit texts ∧
      word (marshal base array limit texts mem) (array + 4 * texts.length) = 0 := by
  induction texts generalizing array limit mem with
  | nil => exact ⟨trivial, word_write_self (by omega)⟩
  | cons text rest ih =>
      simp only [List.length_cons, stringBytes_cons] at hapart hmax
      obtain ⟨hhead, htail⟩ := List.forall_mem_cons.mp hends
      rw [marshal]
      generalize hlaidMem : write (write mem (base + limit) (text ++ [0])) array (leBytes 4 limit) =
        written
      obtain ⟨hlaid, hnull⟩ := @ih written (array + 4) (limit + text.length + 1) htail (by omega)
        (by omega)
      have hkept : ∀ address, address < array + 4 ∨
          base + limit ≤ address ∧ address < base + limit + text.length + 1 →
          written address = marshal base (array + 4) (limit + text.length + 1) rest written address := by
        intro address hplace
        exact (marshal_outside (by omega) (by omega)).symm
      refine ⟨⟨?_, ?_, hlaid⟩, ?_⟩
      · rw [← @word_congr written _ array fun address _ hhigh => hkept address (by omega), ← hlaidMem]
        exact word_write_self (by omega)
      · have hat : StringAt written (base + limit) text := by
          refine ⟨hhead, ?_⟩
          rw [← hlaidMem, read_write_disjoint, read_write_same _ _ _ _ (by simp)]
          rw [leBytes_length]
          omega
        exact hat.congr fun address hlow hhigh => hkept address (by omega)
      · rw [List.length_cons, show array + 4 * (rest.length + 1) = array + 4 + 4 * rest.length by ring]
        exact hnull

theorem Laid.take (hlaid : Laid mem base array limit texts) (count : Nat) :
    Laid mem base array limit (texts.take count) := by
  induction texts generalizing array limit count with
  | nil => simpa using hlaid
  | cons text rest ih =>
      cases count with
      | zero => trivial
      | succ count => exact ⟨hlaid.1, hlaid.2.1, ih hlaid.2.2 count⟩

theorem stringBytes_take_succ (texts : List CString) {index : Nat} (hindex : index < texts.length) :
    stringBytes (texts.take (index + 1)) = stringBytes (texts.take index) + texts[index].length + 1 := by
  rw [List.take_succ_eq_append_getElem hindex]
  simp only [stringBytes, List.map_append, List.sum_append, List.map_cons, List.map_nil, List.sum_cons,
    List.sum_nil]
  omega

-- A string of the array by its index.
theorem Laid.getElem (hlaid : Laid mem base array limit texts) {index : Nat}
    (hindex : index < texts.length) :
    word mem (array + 4 * index) = limit + stringBytes (texts.take index) ∧
      StringAt mem (base + (limit + stringBytes (texts.take index))) texts[index] := by
  induction texts generalizing array limit index with
  | nil => simp at hindex
  | cons text rest ih =>
      obtain ⟨hword, hat, htail⟩ := hlaid
      cases index with
      | zero => exact ⟨hword, hat⟩
      | succ index =>
          have hrest := @ih (array + 4) (limit + text.length + 1) htail index (by simpa using hindex)
          rw [List.take_succ_cons, stringBytes_cons, show array + 4 * (index + 1) = array + 4 + 4 * index by ring,
            show limit + (text.length + 1 + stringBytes (rest.take index)) =
              limit + text.length + 1 + stringBytes (rest.take index) by ring]
          exact hrest

theorem Laid.decodes (hlaid : Laid mem base array limit texts) (hlimit : 0 < limit)
    (hrest : Decodes mem base (array + 4 * texts.length) others) :
    Decodes mem base array (texts ++ others) := by
  induction texts generalizing array limit with
  | nil => exact hrest
  | cons text rest ih =>
      obtain ⟨hword, hat, htail⟩ := hlaid
      refine ⟨by omega, by rwa [hword], ih htail (by omega) ?_⟩
      rw [List.length_cons] at hrest
      rwa [show array + 4 + 4 * rest.length = array + 4 * (rest.length + 1) by ring]

theorem marshal_decodes (hends : ∀ text ∈ texts, 0 ∉ text)
    (hapart : array + 4 * (texts.length + 1) ≤ base + limit) (hlimit : 0 < limit)
    (hmax : limit + stringBytes texts < 2 ^ 32) :
    Decodes (marshal base array limit texts mem) base array texts := by
  obtain ⟨hlaid, hnull⟩ := @marshal_laid mem base array limit texts hends hapart hmax
  have hdecodes := hlaid.decodes hlimit (show Decodes _ base _ [] from hnull)
  rwa [List.append_nil] at hdecodes

-- The strings that an array decodes to are those that were laid, as long as they end where the
-- memory is still the one they were laid in.
theorem Laid.of_decodes (hlaid : Laid mem base array limit texts) (hlimit : 0 < limit)
    (hpointers : ∀ address, array ≤ address → address < array + 4 * texts.length →
      mem address = other address)
    (hstrings : ∀ address, base + limit ≤ address → address < base + high →
      mem address = other address)
    (hdecodes : Decodes other base array others) (hbound : limit + stringBytes others ≤ high) :
    texts <+: others ∧ Decodes other base (array + 4 * texts.length) (others.drop texts.length) := by
  induction texts generalizing array limit others with
  | nil => exact ⟨List.nil_prefix, hdecodes⟩
  | cons text rest ih =>
      simp only [List.length_cons] at hpointers
      obtain ⟨hword, hat, htail⟩ := hlaid
      have hsame : word other array = limit := by
        rw [← hword]
        exact (word_congr fun address hlow hhigh => hpointers address hlow (by omega)).symm
      cases others with
      | nil => exact absurd (hsame.symm.trans hdecodes) (by omega)
      | cons second others =>
          obtain ⟨-, hsecond, hdecodes⟩ := hdecodes
          rw [hsame] at hsecond
          simp only [stringBytes_cons] at hbound
          have hmem : StringAt mem (base + limit) second := by
            refine hsecond.congr fun address hlow hhigh => ?_
            exact (hstrings address hlow (by omega)).symm
          obtain rfl : text = second := hat.unique hmem
          obtain ⟨hprefixed, hdropped⟩ := ih htail (by omega)
            (fun address hlow hhigh => hpointers address (by omega) (by omega))
            (fun address hlow hhigh => hstrings address (by omega) hhigh) hdecodes (by omega)
          refine ⟨List.cons_prefix_cons.mpr ⟨rfl, hprefixed⟩, ?_⟩
          rw [List.length_cons, List.drop_succ_cons,
            show array + 4 * (rest.length + 1) = array + 4 + 4 * rest.length by ring]
          exact hdropped

end EchidnaOS.Lib.PointerArray
