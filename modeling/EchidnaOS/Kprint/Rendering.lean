import EchidnaOS.Kprint.Numbers

namespace EchidnaOS.Kprint

open EchidnaOS.Lib EchidnaOS.Lib.Numeral

def IsDigit (c : UInt8) : Prop := '0'.toUInt8 ≤ c ∧ c ≤ '9'.toUInt8

instance (c : UInt8) : Decidable (IsDigit c) := inferInstanceAs (Decidable (_ ∧ _))

-- A format is made of plain characters and of conversions.
inductive Piece where
  | plain (c : UInt8) (hc : c ≠ 0 ∧ c ≠ '%'.toUInt8)
  | conversion (ds : List UInt8) (c : UInt8) (hds : ∀ d ∈ ds, IsDigit d)
      (hval : decimalValue ds ≤ 16) (hc : c ≠ 0 ∧ ¬ IsDigit c)

def Piece.bytes : Piece → List UInt8
  | .plain c _ => [c]
  | .conversion ds c _ _ _ => '%'.toUInt8 :: (ds ++ [c])

def spell (pieces : List Piece) : List UInt8 := pieces.flatMap Piece.bytes

@[simp] theorem spell_nil : spell [] = [] := rfl

@[simp] theorem spell_cons (piece : Piece) (pieces : List Piece) :
    spell (piece :: pieces) = piece.bytes ++ spell pieces := rfl

def headerBytes (type : Int) : List UInt8 := (headerText type).toList.map Char.toUInt8

def nullText : List UInt8 := "(null)".toList.map Char.toUInt8

-- The text of a conversion of one argument.
def oneArgument {α : Type} (argument : Option (α × List Arg)) (textOf : α → List UInt8) :
    Option (List UInt8 × List Arg) :=
  argument.map fun (x, args) => (textOf x, args)

-- The text of a conversion, and the arguments behind its own. There is none where the arguments do
-- not match the conversion. `number` is what stands for a signed number.
def converted (number : Int64 → List UInt8) (val : Nat) (c : Char) (args : List Arg) :
    Option (List UInt8 × List Arg) :=
  match c with
  | 's' => do
    let (str, args) ← vaPointer args
    match str with
    | none => some (nullText, args)
    | some str => if 0 ∈ str then some (cstr str, args) else none
  | 'S' => do
    let (strLen, args) ← vaUint args
    let (str, args) ← vaPointer args
    if strLen.toNat ≤ (str.getD []).length then some ((str.getD []).take strLen.toNat, args)
    else none
  | 'd' => oneArgument (vaInt args) fun x => number x.toInt64
  | 'D' => oneArgument (vaInt64 args) fun x => number x
  | 'u' => oneArgument (vaUint args) fun x => unsignedText x.toUInt64
  | 'U' => oneArgument (vaUint64 args) fun x => unsignedText x
  | 'x' => oneArgument (vaUint args) fun x => hexText x.toUInt64 val
  | 'X' => oneArgument (vaUint64 args) fun x => hexText x val
  | 'c' => oneArgument (vaInt args) fun x => [x.toInt8.toUInt8]
  | _ => some (['?'.toUInt8], args)

-- The rendering behind the header.
def renderedBody (number : Int64 → List UInt8) (type : Int) :
    List Piece → List Arg → Option (List UInt8)
  | [], _ => some ['\n'.toUInt8]
  | .plain c _ :: pieces, args => do
    let text ← renderedBody number type pieces args
    return c :: (if c = '\n'.toUInt8 then headerBytes type else []) ++ text
  | .conversion ds c _ _ _ :: pieces, args => do
    let (text, args) ← converted number (decimalValue ds) (Char.ofUInt8 c) args
    return text ++ (← renderedBody number type pieces args)

-- The full rendering, for arguments that match the format. A signed number is its numeral.
def rendering (type : Int) (pieces : List Piece) (args : List Arg) : Option (List UInt8) := do
  return headerBytes type ++ (← renderedBody numeral type pieces args)

-- The characters that the header leaves in the buffer.
def bodyRoom (type : Int) : Nat := KPRINT_BUF_MAX - 1 - (headerBytes type).length

-- Of a `%D` with the least number, no more than the sign is among the next `room` characters.
def CutsLeast (type : Int) : Nat → List Piece → List Arg → Prop
  | _, [], _ => True
  | room, .plain c _ :: pieces, args =>
    CutsLeast type (room - 1 - (if c = '\n'.toUInt8 then headerBytes type else []).length) pieces args
  | room, .conversion ds c _ _ _ :: pieces, args =>
    (Char.ofUInt8 c = 'D' → args.head? = some (.int64 Int64.minValue) → room ≤ 1) ∧
      ∀ text rest, converted numeral (decimalValue ds) (Char.ofUInt8 c) args = some (text, rest) →
        CutsLeast type (room - text.length) pieces rest

theorem headerBytes_ne_zero (type : Int) : ∀ c ∈ headerBytes type, c ≠ 0 := by
  unfold headerBytes headerText
  split_ifs <;> decide +kernel

theorem printHeader_puts (type : Int) : Puts (printHeader · type) (headerBytes type) := by
  have hputs := kputS_puts (show 0 ∈ headerBytes type ++ [0] by simp)
  rwa [cstr_append (headerBytes_ne_zero type)] at hputs

section Conversions

variable {b : KprintBuf} {log : KprintLog} {text : List UInt8} {rest : List Arg}

-- The buffer goes to an emitter, and the arguments are the ones behind the conversion's own.
theorem emit_then (hb : b.Holds log) {emit : KprintBuf → Option KprintBuf} (hputs : Puts emit text) :
    ∃ b', (do return (← emit b, rest)) = some (b', rest) ∧ b'.Holds (log.append text) := by
  obtain ⟨b', hemit, hb'⟩ := hputs b log hb
  exact ⟨b', by simp [hemit], hb'⟩

theorem oneArgument_eq {α : Type} {argument : Option (α × List Arg)} {textOf : α → List UInt8}
    (h : oneArgument argument textOf = some (text, rest)) :
    ∃ x, argument = some (x, rest) ∧ textOf x = text := by
  obtain ⟨⟨x, args⟩, harg, heq⟩ := Option.map_eq_some_iff.mp h
  obtain ⟨rfl, rfl⟩ := Prod.mk.inj heq
  exact ⟨x, harg, rfl⟩

theorem convert_puts {val : Nat} {c : Char} {args : List Arg} (hval : val ≤ 16)
    (h : converted signedText val c args = some (text, rest)) (hb : b.Holds log) :
    ∃ b', convert b val c args = some (b', rest) ∧ b'.Holds (log.append text) := by
  unfold converted at h
  split at h
  · obtain ⟨⟨str, behind⟩, hfetch, h⟩ := Option.bind_eq_some_iff.mp h
    cases str with
    | none =>
      obtain ⟨rfl, rfl⟩ : nullText = text ∧ behind = rest := by simpa using h
      have hputs : Puts (kputS · (literal "(null)")) nullText := kputS_puts (by decide)
      simpa [convert, hfetch] using emit_then hb hputs
    | some str =>
      obtain ⟨hnul, rfl, rfl⟩ : 0 ∈ str ∧ cstr str = text ∧ behind = rest := by simpa using h
      simpa [convert, hfetch] using emit_then hb (kputS_puts hnul)
  · obtain ⟨⟨strLen, behindLen⟩, hlen, h⟩ := Option.bind_eq_some_iff.mp h
    obtain ⟨⟨str, behind⟩, hfetch, h⟩ := Option.bind_eq_some_iff.mp h
    obtain ⟨hfits, rfl, rfl⟩ : strLen.toNat ≤ (str.getD []).length ∧
        (str.getD []).take strLen.toNat = text ∧ behind = rest := by simpa using h
    simpa [convert, hlen, hfetch] using emit_then hb (knputS_puts hfits)
  · obtain ⟨x, harg, rfl⟩ := oneArgument_eq h
    simpa [convert, harg] using emit_then hb (kprnI_puts x.toInt64)
  · obtain ⟨x, harg, rfl⟩ := oneArgument_eq h
    simpa [convert, harg] using emit_then hb (kprnI_puts x)
  · obtain ⟨x, harg, rfl⟩ := oneArgument_eq h
    simpa [convert, harg] using emit_then hb (kprnUi_puts x.toUInt64)
  · obtain ⟨x, harg, rfl⟩ := oneArgument_eq h
    simpa [convert, harg] using emit_then hb (kprnUi_puts x)
  · obtain ⟨x, harg, rfl⟩ := oneArgument_eq h
    simpa [convert, harg] using emit_then hb (kprnX_puts x.toUInt64 hval)
  · obtain ⟨x, harg, rfl⟩ := oneArgument_eq h
    simpa [convert, harg] using emit_then hb (kprnX_puts x hval)
  · obtain ⟨x, harg, rfl⟩ := oneArgument_eq h
    simpa [convert, harg] using emit_then hb (kputchar_puts x.toInt8.toUInt8)
  · obtain ⟨rfl, rfl⟩ : ['?'.toUInt8] = text ∧ args = rest := by simpa using h
    have hputs := @emit_then b log _ args hb _ (kputchar_puts '?'.toUInt8)
    unfold convert
    split <;> first | contradiction | exact hputs

end Conversions

-- Reading the digits of a conversion stops at its character.
theorem readVal_digits {ds : List UInt8} (hds : ∀ d ∈ ds, IsDigit d) {c : UInt8}
    (hc : ¬ IsDigit c) (fmt : List UInt8) (val : Nat) :
    readVal val (ds ++ c :: fmt) =
      (ds.foldl (fun acc d => 10 * acc + (d.toNat - 48)) val, c :: fmt) := by
  induction ds generalizing val with
  | nil => exact if_neg hc
  | cons d ds ih =>
    have hd := hds d (by simp)
    have hsub : (d - '0'.toUInt8).toNat = d.toNat - 48 := UInt8.toNat_sub_of_le _ _ hd.1
    have hstep : readVal val ((d :: ds) ++ c :: fmt) =
        readVal (val * 10 + (d - '0'.toUInt8).toNat) (ds ++ c :: fmt) := if_pos hd
    rw [hstep, hsub, ih fun d hd => hds d (by simp [hd]), Nat.mul_comm val 10]
    rfl

theorem kvprintLoop_plain {type : Int} {b : KprintBuf} {args : List Arg} {c : UInt8}
    (hc : c ≠ '%'.toUInt8) (fmt : List UInt8) :
    kvprintLoop type b args (c :: fmt) = (kputchar b c).bind fun b =>
      (if c = '\n'.toUInt8 then printHeader b type else some b).bind fun b =>
        kvprintLoop type b args fmt := by
  rw [kvprintLoop, if_neg hc]
  split_ifs <;> rfl

theorem kvprintLoop_conversion {type : Int} {b : KprintBuf} {args : List Arg} {ds : List UInt8}
    (hds : ∀ d ∈ ds, IsDigit d) {c : UInt8} (hc : ¬ IsDigit c) (fmt : List UInt8) :
    kvprintLoop type b args ('%'.toUInt8 :: (ds ++ c :: fmt)) = (do
      let (b, args) ← convert b (decimalValue ds) (Char.ofUInt8 c) args
      kvprintLoop type b args fmt) := by
  have hread := readVal_digits hds hc fmt 0
  rw [kvprintLoop, if_pos rfl]
  split
  · simp [*] at hread
  · rename_i hval
    rw [hread] at hval
    obtain ⟨rfl, rfl, rfl⟩ := by simpa using hval
    rfl

-- The header is repeated behind a newline.
theorem newline_puts (type : Int) (c : UInt8) :
    Puts (fun b => if c = '\n'.toUInt8 then printHeader b type else some b)
      (if c = '\n'.toUInt8 then headerBytes type else []) := by
  split_ifs
  · exact printHeader_puts type
  · intro b log hb
    exact ⟨b, rfl, by simpa using hb⟩

theorem kvprintLoop_puts (type : Int) {pieces : List Piece} {args : List Arg} {text : List UInt8}
    (h : renderedBody signedText type pieces args = some text) :
    Puts (kvprintLoop type · args (spell pieces)) text := by
  induction pieces generalizing args text with
  | nil =>
    obtain rfl : ['\n'.toUInt8] = text := by simpa [renderedBody] using h
    intro b log hb
    obtain ⟨b', hput, hb'⟩ := kputchar_puts '\n'.toUInt8 b log hb
    exact ⟨b', by simpa [kvprintLoop] using hput, hb'⟩
  | cons piece pieces ih =>
    cases piece with
    | plain c hc =>
      obtain ⟨body, hbody, h⟩ := Option.bind_eq_some_iff.mp h
      obtain rfl : c :: (if c = '\n'.toUInt8 then headerBytes type else []) ++ body = text := by
        simpa using h
      intro b log hb
      obtain ⟨b₁, hput, hb₁⟩ := kputchar_puts c b log hb
      obtain ⟨b₂, hheader, hb₂⟩ := newline_puts type c b₁ _ hb₁
      obtain ⟨b₃, hloop, hb₃⟩ := ih hbody b₂ _ hb₂
      refine ⟨b₃, ?_, by simpa using hb₃⟩
      change kvprintLoop type b args (c :: spell pieces) = some b₃
      simp only at hput hheader hloop
      simp only [kvprintLoop_plain hc.2, hput, hheader, hloop, Option.bind_some]
    | conversion ds c hds hval hc =>
      obtain ⟨⟨converted, behind⟩, hconv, h⟩ := Option.bind_eq_some_iff.mp h
      obtain ⟨body, hbody, h⟩ := Option.bind_eq_some_iff.mp h
      obtain rfl : converted ++ body = text := by simpa using h
      intro b log hb
      obtain ⟨b₁, hconvert, hb₁⟩ := convert_puts hval hconv hb
      obtain ⟨b₂, hloop, hb₂⟩ := ih hbody b₁ _ hb₁
      refine ⟨b₂, ?_, by simpa using hb₂⟩
      have hspell : spell (.conversion ds c hds hval hc :: pieces) =
          '%'.toUInt8 :: (ds ++ c :: spell pieces) := by simp [Piece.bytes]
      change kvprintLoop type b args (spell (.conversion ds c hds hval hc :: pieces)) = some b₂
      rw [hspell, kvprintLoop_conversion hds hc.2, hconvert]
      exact hloop

-- What kvprint puts out, with the texts of kprn_i in it.
theorem kvprint_eq (stack : Vector UInt8 KPRINT_BUF_MAX) (type : Int) {pieces : List Piece}
    {args : List Arg} {body : List UInt8} (hbody : renderedBody signedText type pieces args = some body) :
    kvprint stack type (spell pieces) args =
      some ((headerBytes type ++ body).take (KPRINT_BUF_MAX - 1)) := by
  obtain ⟨b₁, hheader, hb₁⟩ := printHeader_puts type _ _ (holds_empty stack)
  obtain ⟨b₂, hloop, hb₂⟩ := kvprintLoop_puts type hbody b₁ _ hb₁
  have htext : b₂.text = (headerBytes type ++ body).take (KPRINT_BUF_MAX - 1) := by
    rw [hb₂.text, BoundedLog.append_append, BoundedLog.empty_append]
  simp only at hheader hloop
  simp [kvprint, hheader, hloop, kprintBufFlush, kprintBufFlushUrgent, htext]

section Compare

variable {text : List UInt8} {rest : List Arg}

theorem take_append_iff {a b c d : List UInt8} (hlength : a.length = b.length) (room : Nat) :
    (a ++ c).take room = (b ++ d).take room ↔
      a.take room = b.take room ∧ c.take (room - b.length) = d.take (room - b.length) := by
  rw [List.take_append, List.take_append, hlength]
  constructor
  · exact fun h => List.append_inj h (by rw [List.length_take, List.length_take, hlength])
  · rintro ⟨hfirst, hsecond⟩
    rw [hfirst, hsecond]

theorem converted_int (number : Int64 → List UInt8) (val : Nat) (args : List Arg) :
    converted number val 'd' args = oneArgument (vaInt args) fun x => number x.toInt64 := rfl

theorem converted_int64 (number : Int64 → List UInt8) (val : Nat) (args : List Arg) :
    converted number val 'D' args = oneArgument (vaInt64 args) fun x => number x := rfl

theorem converted_other {number number' : Int64 → List UInt8} {val : Nat} {c : Char}
    {args : List Arg} (hint : c ≠ 'd') (hlong : c ≠ 'D') :
    converted number val c args = converted number' val c args := by
  unfold converted
  split <;> first | rfl | contradiction

-- An int is never the least number.
theorem toInt64_ne_minValue (x : Int32) : x.toInt64 ≠ Int64.minValue := by
  intro h
  have hvalue := congrArg Int64.toInt h
  have hlow := x.le_toInt
  rw [Int32.toInt_toInt64, Int64.toInt_minValue] at hvalue
  omega

-- The code's text of a conversion is as long as the right one and has the same arguments behind it.
theorem converted_compare {val : Nat} {c : Char} {args : List Arg}
    (h : converted numeral val c args = some (text, rest)) :
    ∃ put, converted signedText val c args = some (put, rest) ∧ put.length = text.length ∧
      ∀ room, put.take room = text.take room ↔
        (c = 'D' → args.head? = some (.int64 Int64.minValue) → room ≤ 1) := by
  by_cases hint : c = 'd'
  · subst hint
    rw [converted_int] at h
    obtain ⟨x, harg, rfl⟩ := oneArgument_eq h
    refine ⟨numeral x.toInt64, ?_, rfl, fun room => iff_of_true rfl fun h => absurd h (by decide)⟩
    rw [converted_int, harg, ← signedText_eq (toInt64_ne_minValue x)]
    rfl
  by_cases hlong : c = 'D'
  · subst hlong
    rw [converted_int64] at h
    obtain ⟨x, harg, rfl⟩ := oneArgument_eq h
    have hargs : args = .int64 x :: rest := by
      unfold vaInt64 at harg
      split at harg
      · cases harg
        rfl
      · cases harg
    refine ⟨signedText x, by rw [converted_int64, harg]; rfl, signedText_length_eq x, ?_⟩
    intro room
    rw [signedText_take, hargs]
    simp
  · exact ⟨text, (converted_other hint hlong).trans h, rfl,
      fun room => iff_of_true rfl fun h => absurd h hlong⟩

theorem renderedBody_compare (type : Int) {pieces : List Piece} {args : List Arg}
    (h : renderedBody numeral type pieces args = some text) :
    ∃ put, renderedBody signedText type pieces args = some put ∧
      ∀ room, put.take room = text.take room ↔ CutsLeast type room pieces args := by
  induction pieces generalizing args text with
  | nil => exact ⟨text, h, fun _ => iff_of_true rfl trivial⟩
  | cons piece pieces ih =>
    cases piece with
    | plain c hc =>
      obtain ⟨body, hbody, h⟩ := Option.bind_eq_some_iff.mp h
      obtain ⟨put, hput, hsame⟩ := ih hbody
      refine ⟨_, Option.bind_eq_some_iff.mpr ⟨put, hput, rfl⟩, ?_⟩
      intro room
      obtain rfl := Option.some.inj h
      rw [CutsLeast, ← hsame, take_append_iff rfl, List.length_cons, Nat.sub_sub, Nat.add_comm 1]
      simp
    | conversion ds c hds hval hc =>
      obtain ⟨⟨converted, behind⟩, hconv, h⟩ := Option.bind_eq_some_iff.mp h
      obtain ⟨body, hbody, h⟩ := Option.bind_eq_some_iff.mp h
      obtain ⟨first, hfirst, hlength, hfirstSame⟩ := converted_compare hconv
      obtain ⟨put, hput, hsame⟩ := ih hbody
      refine ⟨first ++ put, ?_, ?_⟩
      · simp [renderedBody, hfirst, hput]
      · intro room
        obtain rfl := Option.some.inj h
        rw [CutsLeast, take_append_iff hlength, hfirstSame, hsame]
        refine and_congr_right fun _ => ?_
        constructor
        · intro hcuts text rest hother
          rw [hconv] at hother
          cases hother
          exact hcuts
        · intro hall
          exact hall converted behind hconv

end Compare

-- kvprint puts out the full rendering up to the size of its buffer, exactly when no more than the
-- sign of a least number is among those characters. No write is outside the buffer for any format.
theorem kvprint_rendering_iff (stack : Vector UInt8 KPRINT_BUF_MAX) (type : Int)
    {pieces : List Piece} {args : List Arg} {full : List UInt8}
    (hfull : rendering type pieces args = some full) :
    (kvprint stack type (spell pieces) args = some (full.take (KPRINT_BUF_MAX - 1)) ↔
      CutsLeast type (bodyRoom type) pieces args) ∧
    (kvprint stack type (spell pieces) args).isSome = true := by
  obtain ⟨body, hbody, h⟩ := Option.bind_eq_some_iff.mp hfull
  obtain rfl : headerBytes type ++ body = full := by simpa using h
  obtain ⟨put, hput, hsame⟩ := renderedBody_compare type hbody
  rw [kvprint_eq stack type hput, Option.some.injEq, take_append_iff rfl, bodyRoom, ← hsame]
  simp

-- A warning with a signed number and a field of four hexadecimal digits, on two lines.
def report : List Piece := [
  .conversion [] 'D'.toUInt8 (by simp) (by decide +kernel) (by decide +kernel),
  .plain '\n'.toUInt8 (by decide),
  .conversion ['4'.toUInt8] 'x'.toUInt8 (by decide +kernel) (by decide +kernel) (by decide +kernel)]

def reportText : List UInt8 :=
  "\x1b[33mwarning\x1b[37m: -5\n\x1b[33mwarning\x1b[37m: 0x2345\n".toList.map Char.toUInt8

theorem report_cutsLeast (room : Nat) :
    CutsLeast KPRN_WARN room report [.int64 (-5), .uint 0x12345] := by
  have hother : (-5 : Int64) ≠ Int64.minValue := by decide
  refine ⟨fun _ hleast => absurd (Arg.int64.inj (Option.some.inj hleast)) hother, ?_⟩
  intro text rest _
  exact ⟨fun hlong => absurd hlong (by decide), fun _ _ _ => trivial⟩

theorem kvprint_rendering_report :
    kvprint (Vector.replicate KPRINT_BUF_MAX 0) KPRN_WARN (spell report) [.int64 (-5), .uint 0x12345] =
      some (reportText.take (KPRINT_BUF_MAX - 1)) :=
  (kvprint_rendering_iff _ KPRN_WARN (by decide +kernel)).1.mpr (report_cutsLeast _)

def leastFormat : List Piece :=
  [.conversion [] 'D'.toUInt8 (by simp) (by decide +kernel) (by decide +kernel)]

-- The least number is put out with other characters than digits.
theorem kvprint_least_wrong : ∃ full,
    rendering KPRN_INFO leastFormat [.int64 Int64.minValue] = some full ∧
    kvprint (Vector.replicate KPRINT_BUF_MAX 0) KPRN_INFO (spell leastFormat)
      [.int64 Int64.minValue] ≠ some (full.take (KPRINT_BUF_MAX - 1)) := by
  have hput : renderedBody signedText KPRN_INFO leastFormat [.int64 Int64.minValue] =
      some (signedText Int64.minValue ++ ['\n'.toUInt8]) := rfl
  refine ⟨headerBytes KPRN_INFO ++ (numeral Int64.minValue ++ ['\n'.toUInt8]), rfl, ?_⟩
  rw [kvprint_eq _ _ hput]
  decide +kernel

theorem digits_split (fmt : List UInt8) :
    ∃ ds rest, fmt = ds ++ rest ∧ (∀ d ∈ ds, IsDigit d) ∧ ∀ c, rest.head? = some c → ¬ IsDigit c := by
  induction fmt with
  | nil => exact ⟨[], [], rfl, by simp, by simp⟩
  | cons c fmt ih =>
    obtain ⟨ds, rest, rfl, hds, hstop⟩ := ih
    by_cases hc : IsDigit c
    · exact ⟨c :: ds, rest, rfl, by simpa using ⟨hc, hds⟩, hstop⟩
    · exact ⟨[], c :: (ds ++ rest), rfl, by simp, by simpa using hc⟩

-- Every format is spelt by pieces, up to a percent sign that no character follows or whose digits
-- denote more than the pad allows.
theorem spell_complete (fmt : List UInt8) (hnul : 0 ∉ fmt) :
    ∃ pieces tail, fmt = spell pieces ++ tail ∧
      (tail = [] ∨ ∃ ds rest, tail = '%'.toUInt8 :: (ds ++ rest) ∧ (∀ d ∈ ds, IsDigit d) ∧
        (rest = [] ∨ 16 < decimalValue ds)) := by
  induction hlen : fmt.length using Nat.strongRecOn generalizing fmt with
  | ind n ih =>
    cases fmt with
    | nil => exact ⟨[], [], rfl, .inl rfl⟩
    | cons c fmt =>
      by_cases hc : c = '%'.toUInt8
      · subst hc
        obtain ⟨ds, rest, rfl, hds, hstop⟩ := digits_split fmt
        cases rest with
        | nil => exact ⟨[], _, rfl, .inr ⟨ds, [], rfl, hds, .inl rfl⟩⟩
        | cons c rest =>
          by_cases hval : decimalValue ds ≤ 16
          · have hc : c ≠ 0 ∧ ¬ IsDigit c := ⟨fun h => hnul (by simp [h]), hstop c rfl⟩
            obtain ⟨pieces, tail, hspell, htail⟩ := ih rest.length (by simp [← hlen]; omega) rest
              (fun h => hnul (by simp [h])) rfl
            exact ⟨.conversion ds c hds hval hc :: pieces, tail, by simp [Piece.bytes, hspell], htail⟩
          · exact ⟨[], _, rfl, .inr ⟨ds, c :: rest, rfl, hds, .inr (by omega)⟩⟩
      · obtain ⟨pieces, tail, hspell, htail⟩ := ih fmt.length (by simp [← hlen]) fmt
          (fun h => hnul (by simp [h])) rfl
        exact ⟨.plain c ⟨fun h => hnul (by simp [h]), hc⟩ :: pieces, tail,
          by simp [Piece.bytes, hspell], htail⟩

end EchidnaOS.Kprint
