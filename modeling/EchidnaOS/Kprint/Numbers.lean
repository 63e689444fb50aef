import EchidnaOS.Kprint.Emit

namespace EchidnaOS.Kprint

open EchidnaOS.Lib EchidnaOS.Lib.Numeral

-- What kprn_i puts out. The negation of the least number wraps around, so that its digits are
-- those of the negative remainders, which lie as far below '0' as the right digits lie above it.
def signedText (x : Int64) : List UInt8 :=
  let digits := canonical 10 x.toInt.natAbs
  if x < 0 then 45 :: (if x = Int64.minValue then digits.map (96 - ·) else digits) else digits

-- What it is for.
def numeral (x : Int64) : List UInt8 := signed x.toInt

def unsignedText (x : UInt64) : List UInt8 := canonical 10 x.toNat

-- The numeral of an address, or a field of `pad` digits.
def hexText (x : UInt64) (pad : Nat) : List UInt8 :=
  [48, 120] ++ if pad = 0 then canonical 16 x.toNat else field 16 pad x.toNat

theorem glyph_ne_zero {n : Nat} (hn : n < 16) : glyph n ≠ 0 := by
  interval_cases n <;> decide

theorem canonical_ne_zero {base : Nat} (hbase : 1 < base) (hmax : base ≤ 16) (n : Nat) :
    ∀ c ∈ canonical base n, c ≠ 0 := by
  induction n using Nat.strongRecOn with
  | ind n ih =>
    intro c hc
    by_cases hn : n < base
    · rw [canonical_of_lt hn] at hc
      rw [List.mem_singleton.mp hc]
      exact glyph_ne_zero (by omega)
    · have hle := Nat.le_of_not_lt hn
      rw [canonical_of_le hbase hle] at hc
      cases List.mem_append.mp hc with
      | inl hinit => exact ih (n / base) (Nat.div_lt_self (by omega) hbase) c hinit
      | inr hlast =>
        rw [List.mem_singleton.mp hlast]
        exact glyph_ne_zero ((Nat.mod_lt n (by omega)).trans_le hmax)

section Digits

theorem unsignedDigit_eq (x : UInt64) : unsignedDigit x = glyph (x.toNat % 10) := by
  have hmod : (x % 10).toNat = x.toNat % 10 := by simp
  have hlt : x.toNat % 10 < 10 := Nat.mod_lt _ (by omega)
  have hx : x % 10 = UInt64.ofNat (x.toNat % 10) := by rw [← hmod, UInt64.ofNat_toNat]
  rw [unsignedDigit, hx]
  interval_cases x.toNat % 10 <;> rfl

theorem hexDigit_eq (x : UInt64) : hexDigit x = glyph (x.toNat % 16) := by
  have hmod : (x % 16).toNat = x.toNat % 16 := by simp
  have hlt : x.toNat % 16 < 16 := Nat.mod_lt _ (by omega)
  rw [hexDigit, hmod]
  interval_cases x.toNat % 16 <;> rfl

theorem signedDigit_eq {x : Int64} (hx : 0 ≤ x.toInt) :
    signedDigit x = glyph (x.toInt.toNat % 10) := by
  have hlt : x.toInt.toNat % 10 < 10 := Nat.mod_lt _ (by omega)
  have hrem : x % 10 = Int64.ofNat (x.toInt.toNat % 10) := by
    apply Int64.toInt_inj.mp
    rw [Int64.toInt_mod, Int64.toInt_ofNat_of_lt (by omega)]
    have : (10 : Int64).toInt = 10 := rfl
    rw [this, Int.tmod_eq_emod_of_nonneg hx]
    omega
  rw [signedDigit, hrem]
  interval_cases x.toInt.toNat % 10 <;> rfl

theorem signed_next {x : Int64} (hx : 0 ≤ x.toInt) :
    0 ≤ (x / 10).toInt ∧ (x / 10).toInt.toNat = x.toInt.toNat / 10 := by
  have hquot : (x / 10).toInt = x.toInt / 10 := by
    rw [Int64.toInt_div]
    have : (10 : Int64).toInt = 10 := rfl
    have hlt := x.toInt_lt
    rw [this, Int.tdiv_eq_ediv_of_nonneg hx, Int.bmod_eq_of_le (by omega) (by omega)]
  rw [hquot]
  omega

theorem unsigned_trail {x : UInt64} (hx : 0 < x.toNat) :
    ∃ ds, Trail 0 unsignedDigit (· / 10) x ds ∧ ds.reverse = canonical 10 x.toNat := by
  apply trail_canonical (by omega) UInt64.toNat (fun _ => True)
  · simp [← UInt64.toNat_inj]
  · simp
  · intro x _
    exact unsignedDigit_eq x
  · trivial
  · exact hx

theorem hex_trail {x : UInt64} (hx : 0 < x.toNat) :
    ∃ ds, Trail 0 hexDigit (· / 16) x ds ∧ ds.reverse = canonical 16 x.toNat := by
  apply trail_canonical (by omega) UInt64.toNat (fun _ => True)
  · simp [← UInt64.toNat_inj]
  · simp
  · intro x _
    exact hexDigit_eq x
  · trivial
  · exact hx

theorem signed_trail {x : Int64} (hx : 0 < x.toInt) :
    ∃ ds, Trail 0 signedDigit (· / 10) x ds ∧ ds.reverse = canonical 10 x.toInt.toNat := by
  apply trail_canonical (by omega) (fun x : Int64 => x.toInt.toNat) (fun x => 0 ≤ x.toInt)
  · intro x hx
    rw [← Int64.toInt_inj, Int64.toInt_zero]
    omega
  · intro x hx
    exact signed_next hx
  · intro x hx
    exact signedDigit_eq hx
  · omega
  · omega

end Digits

-- The part of a local array that holds a terminated string is put out.
theorem kputS_tail_puts {buf s rest : List UInt8} {k : Nat} {i : Int} (hi : i = k)
    (hdrop : buf.drop k = s ++ 0 :: rest) (hs : ∀ c ∈ s, c ≠ 0) :
    Puts (fun b => do kputS b (← pointerAt buf i)) s := by
  have hlen : k ≤ buf.length := by
    have := congrArg List.length hdrop
    simp at this
    omega
  intro b log hb
  obtain ⟨b', hput, hb'⟩ := kputS_puts (show 0 ∈ buf.drop k by simp [hdrop]) b log hb
  rw [hdrop, cstr_append hs] at hb'
  exact ⟨b', by simp [pointerAt, hi, hlen, hput], hb'⟩

theorem length_digitBuf : digitBuf.length = 21 := rfl

-- The text of the digits that the loop leaves in its array of 20 digits and a terminator.
theorem decimal_tail {α : Type} [DecidableEq α] {stop x : α} {digit : α → UInt8} {next : α → α}
    {n : Nat} (hn : n < 10 ^ 20)
    (htrail : ∃ ds, Trail stop digit next x ds ∧ ds.reverse = canonical 10 n) :
    ∃ slots filled, fillBack stop digit next 20 x digitBuf = some (slots, filled) ∧
      slots + (canonical 10 n).length = 20 ∧ filled.length = 21 ∧
      filled.drop slots = canonical 10 n ++ [0] := by
  obtain ⟨ds, htrail, hds⟩ := htrail
  have hlen : (canonical 10 n).length ≤ 20 := canonical_length_le (by omega) (by omega) hn
  have hsame : ds.length = (canonical 10 n).length := by rw [← hds, List.length_reverse]
  have hfill := fillBack_eq htrail (hsame ▸ hlen)
    (show 20 ≤ digitBuf.length by rw [length_digitBuf]; omega)
  have hlow : (digitBuf.take (20 - ds.length)).length = 20 - ds.length := by
    rw [List.length_take, length_digitBuf]
    omega
  refine ⟨_, _, hfill, by omega, ?_, ?_⟩
  · simp only [List.length_append, hlow, List.length_reverse, List.length_drop, length_digitBuf]
    omega
  · rw [List.append_assoc, List.drop_left' hlow, hds]
    rfl

theorem kprnUi_puts (x : UInt64) : Puts (kprnUi · x) (unsignedText x) := by
  by_cases hx : x = 0
  · subst hx
    exact kputchar_puts '0'.toUInt8
  have hpos : 0 < x.toNat := by
    apply Nat.pos_of_ne_zero
    simpa [← UInt64.toNat_inj] using hx
  obtain ⟨slots, filled, hfill, hslots, -, hdrop⟩ :=
    decimal_tail (x.toNat_lt.trans (by norm_num)) (unsigned_trail hpos)
  have hputs := kputS_tail_puts (show (slots : Int) - 1 + 1 = slots by omega) hdrop
    (canonical_ne_zero (by omega) (by omega) _)
  intro b log hb
  obtain ⟨b', hput, hb'⟩ := hputs b log hb
  exact ⟨b', by simpa [kprnUi, hx, hfill] using hput, hb'⟩

-- The sign goes into the slot in front of the digits.
theorem sign_tail {filled s : List UInt8} {slots : Nat} (hslots : 0 < slots)
    (hlen : slots ≤ filled.length) (hdrop : filled.drop slots = s) :
    ∃ signed, writeAt filled ((slots : Int) - 1) '-'.toUInt8 = some signed ∧
      signed.drop (slots - 1) = '-'.toUInt8 :: s := by
  have hi : slots - 1 < filled.length := by omega
  refine ⟨filled.set (slots - 1) '-'.toUInt8, ?_, ?_⟩
  · have : ((slots : Int) - 1).toNat = slots - 1 := by omega
    simp only [writeAt, this]
    exact if_pos (by omega)
  · rw [List.drop_eq_getElem_cons (by simpa using hi), List.drop_set_of_lt (by omega),
      Nat.sub_add_cancel hslots, hdrop]
    simp

-- The text behind the sign, once the digits stand in the array.
theorem kprnI_of_fill {x : Int64} (hx : x ≠ 0) {s filled : List UInt8} {slots : Nat}
    (hfill : fillBack 0 signedDigit (· / 10) 20 (if x < 0 then -x else x) digitBuf =
      some (slots, filled)) (hslots : 0 < slots) (hlen : slots ≤ filled.length)
    (hdrop : filled.drop slots = s ++ [0]) (hs : ∀ c ∈ s, c ≠ 0) :
    Puts (kprnI · x) (if x < 0 then 45 :: s else s) := by
  intro b log hb
  by_cases hneg : x < 0
  · obtain ⟨signed, hwrite, hsigned⟩ := sign_tail hslots hlen hdrop
    have hputs := kputS_tail_puts (show (slots : Int) - 1 = (slots - 1 : Nat) by omega)
      (show signed.drop (slots - 1) = ('-'.toUInt8 :: s) ++ [0] by simpa using hsigned)
      (by simpa using ⟨by decide, hs⟩)
    obtain ⟨b', hput, hb'⟩ := hputs b log hb
    simp only [hneg, if_true] at hfill ⊢
    exact ⟨b', by simpa [kprnI, hx, hneg, hfill, hwrite] using hput, hb'⟩
  · have hputs := kputS_tail_puts (show (slots : Int) - 1 + 1 = slots by omega) hdrop hs
    obtain ⟨b', hput, hb'⟩ := hputs b log hb
    simp only [hneg, if_false] at hfill ⊢
    exact ⟨b', by simpa [kprnI, hx, hneg, hfill] using hput, hb'⟩

-- The magnitude, wherever the negation does not wrap around.
theorem magnitude_toInt {x : Int64} (hx : x ≠ Int64.minValue) :
    (if x < 0 then -x else x).toInt = x.toInt.natAbs := by
  have hmin : x.toInt ≠ -2 ^ 63 := fun h => hx (Int64.toInt_inj.mp (h.trans Int64.toInt_minValue.symm))
  have hlow := x.le_toInt
  have hhigh := x.toInt_lt
  have hneg : x < 0 ↔ x.toInt < 0 := by
    rw [Int64.lt_iff_toInt_lt, Int64.toInt_zero]
  split_ifs with h
  · rw [hneg] at h
    rw [Int64.toInt_neg, Int.bmod_eq_of_le (by omega) (by omega)]
    omega
  · rw [hneg] at h
    omega

-- The digits of the number whose negation wraps around.
def wrappedDigits : List UInt8 := (canonical 10 Int64.minValue.toInt.natAbs).map (96 - ·)

theorem wrapped_fill :
    fillBack 0 signedDigit (· / 10) 20 (if Int64.minValue < 0 then -Int64.minValue
      else Int64.minValue) digitBuf = some (1, 0 :: (wrappedDigits ++ [0])) := by
  decide +kernel

theorem kprnI_puts (x : Int64) : Puts (kprnI · x) (signedText x) := by
  by_cases hzero : x = 0
  · subst hzero
    exact kputchar_puts '0'.toUInt8
  by_cases hmin : x = Int64.minValue
  · subst hmin
    exact kprnI_of_fill (by decide) wrapped_fill (by omega) (by simp) rfl (by decide +kernel)
  have hvalue := magnitude_toInt hmin
  have hpos : 0 < x.toInt.natAbs := by
    apply Int.natAbs_pos.mpr
    simpa [← Int64.toInt_inj] using hzero
  have hbound : x.toInt.natAbs < 10 ^ 20 := by
    have := x.le_toInt
    have := x.toInt_lt
    omega
  have htrail := signed_trail (x := if x < 0 then -x else x) (by omega)
  rw [hvalue, Int.toNat_natCast] at htrail
  obtain ⟨slots, filled, hfill, hslots, hfilled, hdrop⟩ := decimal_tail hbound htrail
  have hlen : (canonical 10 x.toInt.natAbs).length ≤ 19 :=
    canonical_length_le (by omega) (by omega) (by have := x.le_toInt; have := x.toInt_lt; omega)
  simpa [signedText, hmin] using
    kprnI_of_fill hzero hfill (by omega) (by omega) hdrop (canonical_ne_zero (by omega) (by omega) _)

-- All 16 digits of a number, with zeros in front.
def hexDigits (x : UInt64) : List UInt8 := padded 16 16 x.toNat

theorem toNat_lt_hex (x : UInt64) : x.toNat < 16 ^ 16 := x.toNat_lt.trans_le (by norm_num)

theorem hex_length_le (x : UInt64) : (canonical 16 x.toNat).length ≤ 16 :=
  canonical_length_le (by omega) (by omega) (toNat_lt_hex x)

@[simp] theorem length_hexDigits (x : UInt64) : (hexDigits x).length = 16 := by
  have := hex_length_le x
  simp [hexDigits, padded]
  omega

theorem hexDigits_ne_zero (x : UInt64) : ∀ c ∈ hexDigits x, c ≠ 0 := by
  intro c hc
  cases List.mem_append.mp hc with
  | inl hzero =>
    rw [List.eq_of_mem_replicate hzero]
    decide
  | inr hdigit => exact canonical_ne_zero (by omega) (by omega) _ c hdigit

theorem hexText_eq (x : UInt64) {pad : Nat} (hpad : pad ≤ 16) :
    hexText x pad = [48, 120] ++ (hexDigits x).drop
      (if pad = 0 then 16 - (canonical 16 x.toNat).length else 16 - pad) := by
  by_cases hzero : pad = 0
  · simp [hexText, hexDigits, padded, hzero, List.drop_left']
  · have hsplit : 16 - pad + pad = 16 := by omega
    have hdrop := @padded_drop 16 (by omega) (16 - pad) pad x.toNat (by omega)
      (by rw [hsplit]; exact toNat_lt_hex x)
    rw [hsplit] at hdrop
    rw [hexText, if_neg hzero, if_neg hzero, hexDigits, hdrop]

theorem hexBuf_eq (x : UInt64) :
    hexBuf x =
      some (((16 - (canonical 16 x.toNat).length : Nat) : Int), hexDigits x ++ [0]) := by
  by_cases hx : x = 0
  · subst hx
    rfl
  have hpos : 0 < x.toNat := by
    apply Nat.pos_of_ne_zero
    simpa [← UInt64.toNat_inj] using hx
  obtain ⟨ds, htrail, hds⟩ := hex_trail hpos
  have hsame : ds.length = (canonical 16 x.toNat).length := by rw [← hds, List.length_reverse]
  have hlen := hex_length_le x
  have hbuf : literal "0000000000000000" = List.replicate 16 48 ++ [0] := rfl
  have hfill := fillBack_eq htrail (hsame ▸ hlen)
    (show 16 ≤ (literal "0000000000000000").length by rw [hbuf]; simp)
  have htake : (List.replicate 16 48 ++ [(0 : UInt8)]).take (16 - ds.length) =
      List.replicate (16 - ds.length) 48 := by
    rw [List.take_append_of_le_length (by simp), List.take_replicate]
    congr 1
    omega
  simp only [hexBuf, if_neg hx, hfill, Option.map_some, Option.some.injEq, Prod.mk.injEq]
  rw [hbuf, htake, hds, hsame]
  simp [hexDigits, padded]

theorem kprnX_puts (x : UInt64) {pad : Nat} (hpad : pad ≤ 16) :
    Puts (kprnX · x pad) (hexText x pad) := by
  have hlen := hex_length_le x
  have hbase : Puts (kputS · (literal "0x")) [48, 120] := kputS_puts (by decide)
  have hdrop : ∀ k, k ≤ 16 → (hexDigits x ++ [0]).drop k = (hexDigits x).drop k ++ 0 :: [] :=
    fun k hk => List.drop_append_of_le_length (by rwa [length_hexDigits])
  have htail := kputS_tail_puts
    (show (if pad = 0 then ((16 - (canonical 16 x.toNat).length : Nat) : Int) else 16 - pad) =
      (if pad = 0 then 16 - (canonical 16 x.toNat).length else 16 - pad : Nat) by
        split_ifs <;> omega)
    (hdrop _ (by split_ifs <;> omega)) fun c hc => hexDigits_ne_zero x c (List.mem_of_mem_drop hc)
  intro b log hb
  obtain ⟨b', hput, hb'⟩ := (hbase.bind htail) b log hb
  refine ⟨b', ?_, by rwa [hexText_eq x hpad]⟩
  simp only [kprnX, hexBuf_eq]
  exact hput

-- Room for the longest number, with its sign or its base.
def NUMBER_MAX : Nat := 20

-- With room for a number left, the emitter appends the text. It has a result, which means that it
-- writes inside its arrays.
def Appends (emit : KprintBuf → Option KprintBuf) (text : List UInt8) : Prop :=
  ∀ b : KprintBuf, b.index + NUMBER_MAX ≤ KPRINT_BUF_MAX - 1 →
    ∃ b', emit b = some b' ∧ b'.text = b.text ++ text ∧ b'.index = b.index + text.length

theorem Puts.appends {emit : KprintBuf → Option KprintBuf} {text : List UInt8} (h : Puts emit text)
    (hlen : text.length ≤ NUMBER_MAX) : Appends emit text := by
  intro b hroom
  obtain ⟨log, hb⟩ := holds_of_index (b := b) (by omega)
  obtain ⟨b', hemit, hb'⟩ := h b log hb
  have hentries := @BoundedLog.append_of_room _ _ log text (by
    rw [← hb.index]
    omega)
  refine ⟨b', hemit, ?_, ?_⟩
  · rw [hb'.text, hentries, hb.text]
  · rw [hb'.index, hentries, hb.index, List.length_append]

theorem Appends.unique {emit : KprintBuf → Option KprintBuf} {text text' : List UInt8}
    (h : Appends emit text) (h' : Appends emit text') : text = text' := by
  let b : KprintBuf := { bytes := Vector.replicate KPRINT_BUF_MAX 0, index := 0 }
  have hroom : b.index + NUMBER_MAX ≤ KPRINT_BUF_MAX - 1 := by
    simp [b, NUMBER_MAX, KPRINT_BUF_MAX]
  obtain ⟨b₁, hemit, htext, -⟩ := h b hroom
  obtain ⟨b₂, hemit', htext', -⟩ := h' b hroom
  obtain rfl : b₁ = b₂ := Option.some.inj (hemit.symm.trans hemit')
  exact List.append_cancel_left (htext.symm.trans htext')

theorem signedText_length (x : Int64) : (signedText x).length ≤ NUMBER_MAX := by
  have hlen : (canonical 10 x.toInt.natAbs).length ≤ 19 :=
    canonical_length_le (by omega) (by omega) (by have := x.le_toInt; have := x.toInt_lt; omega)
  simp only [signedText, NUMBER_MAX]
  split_ifs <;> simp <;> omega

theorem unsignedText_length (x : UInt64) : (unsignedText x).length ≤ NUMBER_MAX :=
  canonical_length_le (by omega) (by simp [NUMBER_MAX]) (x.toNat_lt.trans (by norm_num [NUMBER_MAX]))

theorem hexText_length (x : UInt64) : (hexText x 0).length ≤ NUMBER_MAX := by
  have := hex_length_le x
  simp [hexText, NUMBER_MAX]
  omega

theorem signedText_eq {x : Int64} (hx : x ≠ Int64.minValue) : signedText x = numeral x := by
  have hneg : x < 0 ↔ x.toInt < 0 := by
    rw [Int64.lt_iff_toInt_lt, Int64.toInt_zero]
  simp only [signedText, numeral, signed, hneg, if_neg hx]

theorem signedText_denotes {x : Int64} (hx : x ≠ Int64.minValue) :
    Denotes (signedText x) x.toInt := by
  rw [signedText_eq hx]
  exact signed_denotes x.toInt

-- For the least number the two have the sign in common, and a wrong digit for each right one.
theorem signedText_minValue :
    signedText Int64.minValue = 45 :: 39 :: wrappedDigits.tail ∧
      numeral Int64.minValue = 45 :: 57 :: (canonical 10 (2 ^ 63)).tail := by
  decide +kernel

theorem signedText_length_eq (x : Int64) : (signedText x).length = (numeral x).length := by
  by_cases hx : x = Int64.minValue
  · subst hx
    decide +kernel
  · rw [signedText_eq hx]

theorem signedText_take (x : Int64) (room : Nat) :
    (signedText x).take room = (numeral x).take room ↔ (x = Int64.minValue → room ≤ 1) := by
  by_cases hx : x = Int64.minValue
  · subst hx
    rw [signedText_minValue.1, signedText_minValue.2]
    match room with
    | 0 => simp
    | 1 => simp
    | room + 2 => simp
  · rw [signedText_eq hx]
    exact iff_of_true rfl fun h => absurd h hx

-- A byte that is neither a digit nor a sign stands in no number.
theorem not_denotes {text : List UInt8} {c : UInt8} {x : Int} (hc : c ∈ text)
    (hother : c.toNat < 48) (hsign : c ≠ 45) : ¬ Denotes text x := by
  intro hdenotes
  obtain ⟨ds, hds, htext⟩ := hdenotes
  have hmem : c ∈ ds := by
    cases htext with
    | inl hplain => exact hplain.1 ▸ hc
    | inr hminus =>
      rw [hminus.1] at hc
      simpa [hsign] using hc
  have := hds.digits c hmem
  omega

theorem minValue_not_denotes : ¬ Denotes (signedText Int64.minValue) Int64.minValue.toInt := by
  apply not_denotes (c := 39)
  · decide +kernel
  · decide
  · decide

-- What the number routines append: the text of a signed number denotes it, unless its negation
-- wraps around, and those of an unsigned number are its canonical numerals. No routine writes
-- outside its array for any number.
theorem number_texts_iff (x : Int64) (u : UInt64) :
    ((∃ text, Appends (kprnI · x) text ∧ Denotes text x.toInt) ↔ x ≠ Int64.minValue) ∧
    (∃ text, Appends (kprnI · x) text) ∧
    Appends (kprnUi · u) (canonical 10 u.toNat) ∧
    Appends (kprnX · u 0) (48 :: 120 :: canonical 16 u.toNat) := by
  refine ⟨⟨?_, ?_⟩, ?_, ?_, ?_⟩
  · intro hdenotes hmin
    obtain ⟨text, htext, hdenotes⟩ := hdenotes
    rw [htext.unique ((kprnI_puts x).appends (signedText_length x)), hmin] at hdenotes
    exact minValue_not_denotes hdenotes
  · intro hx
    exact ⟨_, (kprnI_puts x).appends (signedText_length x), signedText_denotes hx⟩
  · exact ⟨_, (kprnI_puts x).appends (signedText_length x)⟩
  · exact (kprnUi_puts u).appends (unsignedText_length u)
  · exact (kprnX_puts u (by omega)).appends (hexText_length u)

-- The least number is put out as text that no reader takes for a number.
theorem minValue_text_wrong :
    ¬ ∃ text, Appends (kprnI · Int64.minValue) text ∧ Denotes text Int64.minValue.toInt := by
  intro hdenotes
  obtain ⟨text, htext, hdenotes⟩ := hdenotes
  rw [htext.unique ((kprnI_puts _).appends (signedText_length _))] at hdenotes
  exact minValue_not_denotes hdenotes

end EchidnaOS.Kprint
