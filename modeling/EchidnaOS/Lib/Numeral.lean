import Mathlib.Data.Nat.Basic
import Mathlib.Tactic.Common
import Mathlib.Tactic.IntervalCases

namespace EchidnaOS.Lib.Numeral

-- The canonical numeral of a number, as bytes.
def canonical (base n : Nat) : List UInt8 := (Nat.toDigits base n).map Char.toUInt8

-- The number that a string of decimal digits denotes, from the first digit on.
def decimalValue (ds : List UInt8) : Nat := ds.foldl (fun acc c => 10 * acc + (c.toNat - 48)) 0

-- Decimal digits without a leading zero.
structure IsDecimal (ds : List UInt8) : Prop where
  nonempty : ds ≠ []
  digits : ∀ c ∈ ds, 48 ≤ c.toNat ∧ c.toNat ≤ 57
  leading : ds.head? = some 48 → ds = [48]

-- An optional minus sign and decimal digits without a leading zero, and the number they denote.
def Denotes (text : List UInt8) (x : Int) : Prop :=
  ∃ ds, IsDecimal ds ∧
    (text = ds ∧ x = decimalValue ds ∨ text = 45 :: ds ∧ x = -(decimalValue ds : Int))

-- The byte of one digit.
def glyph (n : Nat) : UInt8 := (Nat.digitChar n).toUInt8

theorem glyph_eq {n : Nat} (hn : n < 10) : (glyph n).toNat = 48 + n := by
  interval_cases n <;> rfl

theorem canonical_of_lt {base n : Nat} (hn : n < base) : canonical base n = [glyph n] := by
  simp [canonical, glyph, Nat.toDigits_of_lt_base hn]

theorem canonical_of_le {base n : Nat} (hbase : 1 < base) (hn : base ≤ n) :
    canonical base n = canonical base (n / base) ++ [glyph (n % base)] := by
  have hdigit : n % base < base := Nat.mod_lt _ (by omega)
  have hquot : 0 < n / base := Nat.div_pos hn (by omega)
  have hsplit := Nat.toDigits_append_toDigits hbase hquot hdigit
  rw [Nat.div_add_mod, Nat.toDigits_of_lt_base hdigit] at hsplit
  simp [canonical, glyph, ← hsplit]

theorem canonical_length_le {base n k : Nat} (hbase : 1 < base) (hk : 0 < k) (hn : n < base ^ k) :
    (canonical base n).length ≤ k := by
  simpa [canonical] using (Nat.length_toDigits_le_iff hbase hk).mpr hn

theorem canonical_ne_nil {base n : Nat} : canonical base n ≠ [] := by
  simp [canonical]

@[simp] theorem decimalValue_append_singleton (ds : List UInt8) (c : UInt8) :
    decimalValue (ds ++ [c]) = 10 * decimalValue ds + (c.toNat - 48) := by
  simp [decimalValue]

-- The induction on the digits of a number, the last digit split off.
theorem decimal_induction {motive : Nat → Prop} (small : ∀ n, n < 10 → motive n)
    (big : ∀ n, 10 ≤ n → motive (n / 10) → motive n) (n : Nat) : motive n := by
  induction n using Nat.strongRecOn with
  | ind n ih =>
    by_cases hn : n < 10
    · exact small n hn
    · exact big n (by omega) (ih (n / 10) (by omega))

@[simp] theorem decimalValue_canonical (n : Nat) : decimalValue (canonical 10 n) = n := by
  induction n using decimal_induction with
  | small n hn => simp [canonical_of_lt hn, decimalValue, glyph_eq hn]
  | big n hn ih =>
    have hdigit : n % 10 < 10 := Nat.mod_lt _ (by omega)
    rw [canonical_of_le (by omega) hn, decimalValue_append_singleton, ih, glyph_eq hdigit]
    omega

theorem canonical_digits (n : Nat) : ∀ c ∈ canonical 10 n, 48 ≤ c.toNat ∧ c.toNat ≤ 57 := by
  induction n using decimal_induction with
  | small n hn =>
    intro c hc
    have hglyph : c = glyph n := by simpa [canonical_of_lt hn] using hc
    have hvalue := glyph_eq hn
    rw [hglyph]
    omega
  | big n hn ih =>
    intro c hc
    rw [canonical_of_le (by omega) hn] at hc
    cases List.mem_append.mp hc with
    | inl hinit => exact ih c hinit
    | inr hlast =>
      have hvalue := glyph_eq (Nat.mod_lt n (show 0 < 10 by omega))
      rw [List.mem_singleton.mp hlast]
      omega

theorem canonical_head_ne_zero {n : Nat} (hn : 0 < n) : (canonical 10 n).head? ≠ some 48 := by
  induction n using decimal_induction with
  | small n hsmall =>
    intro hhead
    have hglyph : glyph n = 48 := by simpa [canonical_of_lt hsmall] using hhead
    have hvalue := glyph_eq hsmall
    rw [hglyph] at hvalue
    have : (48 : UInt8).toNat = 48 := rfl
    omega
  | big n hbig ih =>
    obtain ⟨c, rest, hquot⟩ := List.exists_cons_of_ne_nil (@canonical_ne_nil 10 (n / 10))
    have hhead := ih (by omega)
    rw [hquot] at hhead
    rw [canonical_of_le (by omega) hbig, hquot]
    exact hhead

theorem canonical_isDecimal (n : Nat) : IsDecimal (canonical 10 n) where
  nonempty := canonical_ne_nil
  digits := canonical_digits n
  leading := by
    intro hhead
    by_cases hn : n = 0
    · subst hn
      rfl
    · exact absurd hhead (canonical_head_ne_zero (by omega))

-- The numeral of an integer.
def signed (x : Int) : List UInt8 :=
  if x < 0 then 45 :: canonical 10 x.natAbs else canonical 10 x.natAbs

theorem signed_denotes (x : Int) : Denotes (signed x) x := by
  refine ⟨_, canonical_isDecimal x.natAbs, ?_⟩
  rw [decimalValue_canonical]
  by_cases hneg : x < 0
  · exact .inr ⟨if_pos hneg, by omega⟩
  · exact .inl ⟨if_neg hneg, by omega⟩

-- A field of a fixed width: the lowest digits of a number, with zeros in front of a short one.
def padded (base width n : Nat) : List UInt8 :=
  List.replicate (width - (canonical base n).length) 48 ++ canonical base n

def field (base width n : Nat) : List UInt8 := padded base width (n % base ^ width)

section Field

variable {base : Nat}

-- The digits from the highest place on, as many as there are places.
def places (base : Nat) : Nat → Nat → List UInt8
  | 0, _ => []
  | width + 1, n => places base width (n / base) ++ [glyph (n % base)]

theorem places_length (width n : Nat) : (places base width n).length = width := by
  induction width generalizing n with
  | zero => rfl
  | succ width ih => simp [places, ih]

theorem places_zero (width : Nat) : places base width 0 = List.replicate width 48 := by
  induction width with
  | zero => rfl
  | succ width ih =>
    rw [places, Nat.zero_div, ih, Nat.zero_mod, List.replicate_succ']
    rfl

-- The high digits are not in the low places.
theorem places_mod (width n : Nat) : places base width (n % base ^ width) = places base width n := by
  induction width generalizing n with
  | zero => rfl
  | succ width ih =>
    have hquot : n % base ^ (width + 1) / base = n / base % base ^ width := by
      rw [Nat.pow_succ, Nat.mul_comm, Nat.mod_mul_right_div_self]
    have hlast : n % base ^ (width + 1) % base = n % base :=
      Nat.mod_mod_of_dvd n (Dvd.intro_left (base ^ width) rfl)
    rw [places, places, hquot, hlast, ih]

theorem places_drop (high width n : Nat) :
    (places base (high + width) n).drop high = places base width n := by
  induction width generalizing n with
  | zero => exact List.drop_eq_nil_of_le (places_length high n).le
  | succ width ih =>
    rw [← Nat.add_assoc, places, places, ← ih,
      List.drop_append_of_le_length (by rw [places_length]; omega)]

theorem padded_eq (hbase : 1 < base) {width n : Nat} (hwidth : 0 < width) (hn : n < base ^ width) :
    padded base width n = places base width n := by
  induction width, hwidth using Nat.le_induction generalizing n with
  | base =>
    have hlt : n < base := by simpa using hn
    simp [padded, places, canonical_of_lt hlt, Nat.mod_eq_of_lt hlt]
  | succ width hwidth ih =>
    rw [places]
    by_cases hlt : n < base
    · rw [Nat.div_eq_of_lt hlt, Nat.mod_eq_of_lt hlt, places_zero, padded, canonical_of_lt hlt]
      rfl
    · have hle := Nat.le_of_not_lt hlt
      have hquot : n / base < base ^ width := by
        rwa [Nat.div_lt_iff_lt_mul (by omega), ← Nat.pow_succ]
      rw [← ih hquot, padded, padded, canonical_of_le hbase hle, List.length_append,
        List.length_singleton, Nat.add_sub_add_right, List.append_assoc]

-- The end of a wide field is the field of its length.
theorem padded_drop (hbase : 1 < base) {high width n : Nat} (hwidth : 0 < width)
    (hn : n < base ^ (high + width)) :
    (padded base (high + width) n).drop high = field base width n := by
  have hmod : n % base ^ width < base ^ width := Nat.mod_lt _ (Nat.pow_pos (by omega))
  rw [padded_eq hbase (by omega) hn, places_drop, field, padded_eq hbase hwidth hmod, places_mod]

end Field

-- The loop `for (; x; i--) { buf[i] = digit(x); x = next(x); }` on a fixed array. `slots` is the
-- index of the next write plus one, and a write outside the array has no result.
section FillBack

variable {α β : Type*} [DecidableEq α]

def fillBack (stop : α) (digit : α → β) (next : α → α) :
    Nat → α → List β → Option (Nat × List β)
  | 0, x, buf => if x = stop then some (0, buf) else none
  | i + 1, x, buf =>
    if x = stop then some (i + 1, buf)
    else if i < buf.length then fillBack stop digit next i (next x) (buf.set i (digit x))
    else none

-- The digits that the loop writes, in the order it writes them.
inductive Trail (stop : α) (digit : α → β) (next : α → α) : α → List β → Prop where
  | done : Trail stop digit next stop []
  | more {x : α} {ds : List β} (hx : x ≠ stop) (rest : Trail stop digit next (next x) ds) :
    Trail stop digit next x (digit x :: ds)

variable {stop x : α} {digit : α → β} {next : α → α} {ds : List β}

-- The loop leaves the digits between the slots it has not reached and those behind the first one.
theorem fillBack_eq (htrail : Trail stop digit next x ds) {slots : Nat} {buf : List β}
    (hroom : ds.length ≤ slots) (hslots : slots ≤ buf.length) :
    fillBack stop digit next slots x buf =
      some (slots - ds.length, buf.take (slots - ds.length) ++ ds.reverse ++ buf.drop slots) := by
  induction htrail generalizing slots buf with
  | done => cases slots <;> simp [fillBack]
  | @more x ds hx rest ih =>
    cases slots with
    | zero => simp at hroom
    | succ i =>
      have hi : i < buf.length := hslots
      have hfill := ih (show ds.length ≤ i by simpa using hroom)
        (show i ≤ (buf.set i (digit x)).length by simp; omega)
      have htake : (buf.set i (digit x)).take (i - ds.length) = buf.take (i - ds.length) :=
        List.take_set_of_le (by omega)
      have hdrop : (buf.set i (digit x)).drop i = digit x :: buf.drop (i + 1) := by
        rw [List.drop_eq_getElem_cons (by simpa using hi), List.drop_set_of_lt (by omega)]
        simp
      simp [fillBack, hx, hi, hfill, htake, hdrop]

-- Repeated division by the base writes the canonical numeral, wherever the loop's values stand for
-- numbers.
omit [DecidableEq α] in
theorem trail_canonical {base : Nat} (hbase : 1 < base) {digit : α → UInt8} (value : α → Nat)
    (InRange : α → Prop) (hstop : ∀ x, InRange x → (x = stop ↔ value x = 0))
    (hnext : ∀ x, InRange x → InRange (next x) ∧ value (next x) = value x / base)
    (hdigit : ∀ x, InRange x → digit x = glyph (value x % base)) {x : α} (hx : InRange x)
    (hpos : 0 < value x) :
    ∃ ds, Trail stop digit next x ds ∧ ds.reverse = canonical base (value x) := by
  induction hn : value x using Nat.strongRecOn generalizing x with
  | ind n ih =>
    obtain ⟨hrange, hquot⟩ := hnext x hx
    have hmore : x ≠ stop := fun h => by
      have := (hstop x hx).mp h
      omega
    by_cases hlast : n < base
    · have hnone : next x = stop := (hstop _ hrange).mpr (by rw [hquot, hn, Nat.div_eq_of_lt hlast])
      refine ⟨[digit x], .more hmore (by rw [hnone]; exact .done), ?_⟩
      rw [canonical_of_lt hlast, hdigit x hx, hn, Nat.mod_eq_of_lt hlast]
      rfl
    · have hpos' : 0 < n / base := Nat.div_pos (by omega) (by omega)
      obtain ⟨ds, htrail, hds⟩ := ih (n / base) (Nat.div_lt_self (by omega) hbase) hrange
        (by rwa [hquot, hn]) (by rw [hquot, hn])
      refine ⟨digit x :: ds, .more hmore htrail, ?_⟩
      rw [List.reverse_cons, hds, hdigit x hx, hn, canonical_of_le hbase (Nat.le_of_not_lt hlast)]

end FillBack

end EchidnaOS.Lib.Numeral
