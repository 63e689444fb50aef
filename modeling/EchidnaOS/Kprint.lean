import Mathlib.Data.Nat.Basic
import EchidnaOS.Lib.Numeral

namespace EchidnaOS.Kprint

open EchidnaOS.Lib.Numeral

def KPRINT_BUF_MAX : Nat := 256

def KPRN_INFO : Int := 0
def KPRN_WARN : Int := 1
def KPRN_ERR : Int := 2
def KPRN_DBG : Int := 3
def KPRN_PANIC : Int := 4

-- `kprint_buf` with `kprint_buf_i`.
structure KprintBuf where
  bytes : Vector UInt8 KPRINT_BUF_MAX
  index : Nat

-- What has been put into the buffer.
def KprintBuf.text (b : KprintBuf) : List UInt8 := b.bytes.toList.take b.index

-- `kprint_buf[i] = c`. A write outside the buffer has no result.
def KprintBuf.write (b : KprintBuf) (i : Nat) (c : UInt8) : Option KprintBuf :=
  if h : i < KPRINT_BUF_MAX then some { b with bytes := b.bytes.set i c h } else none

-- `kprint_buf[(*kprint_buf_i)++] = c`.
def KprintBuf.put (b : KprintBuf) (c : UInt8) : Option KprintBuf :=
  (b.write b.index c).map fun b => { b with index := b.index + 1 }

-- `kprint_buf[*kprint_buf_i] = 0`.
def KprintBuf.terminate (b : KprintBuf) : Option KprintBuf := b.write b.index 0

def kprintBufFlush (b : KprintBuf) : List UInt8 := b.text
def kprintBufFlushUrgent (b : KprintBuf) : List UInt8 := b.text

-- The loop of `kput_s`. A pointer is the list of the bytes from it on to the end of its object,
-- and reading past the object has no result.
def kputLoop : List UInt8 → KprintBuf → Option KprintBuf
  | [], _ => none
  | c :: string, b =>
    if c = 0 then some b
    else if b.index = KPRINT_BUF_MAX - 1 then some b
    else do kputLoop string (← b.put c)

def kputS (b : KprintBuf) (string : List UInt8) : Option KprintBuf := do
  let b ← kputLoop string b
  b.terminate

-- The loop of `knput_s` with `len - i` bytes to go.
def knputLoop : Nat → List UInt8 → KprintBuf → Option KprintBuf
  | 0, _, b => some b
  | len + 1, string, b =>
    if b.index = KPRINT_BUF_MAX - 1 then some b
    else
      match string with
      | [] => none
      | c :: string => do knputLoop len string (← b.put c)

def knputS (b : KprintBuf) (string : List UInt8) (len : Nat) : Option KprintBuf := do
  let b ← knputLoop len string b
  b.terminate

def kputchar (b : KprintBuf) (c : UInt8) : Option KprintBuf := do
  let b ← if b.index < KPRINT_BUF_MAX - 1 then b.put c else some b
  b.terminate

-- A string literal with its terminator.
def literal (s : String) : List UInt8 := s.toList.map Char.toUInt8 ++ [0]

-- `buf[i] = c` for a local array, where `i` may have become negative.
def writeAt (buf : List UInt8) (i : Int) (c : UInt8) : Option (List UInt8) :=
  if 0 ≤ i ∧ i < buf.length then some (buf.set i.toNat c) else none

-- `buf + i`.
def pointerAt (buf : List UInt8) (i : Int) : Option (List UInt8) :=
  if 0 ≤ i ∧ i ≤ buf.length then some (buf.drop i.toNat) else none

-- `char buf[21] = {0}`.
def digitBuf : List UInt8 := List.replicate 21 0

-- `(x % 10) + 0x30` for a signed `x`, converted to `char`.
def signedDigit (x : Int64) : UInt8 := ((x % 10) + 0x30).toUInt64.toUInt8

def unsignedDigit (x : UInt64) : UInt8 := (x % 10 + 0x30).toUInt8

def kprnI (b : KprintBuf) (x : Int64) : Option KprintBuf :=
  if x = 0 then kputchar b '0'.toUInt8
  else do
    let sign := decide (x < 0)
    let x := if sign then -x else x
    -- `i` is 19 at the start, one less than the slots to fill.
    let (slots, buf) ← fillBack 0 signedDigit (· / 10) 20 x digitBuf
    let i := (slots : Int) - 1
    if sign then
      let buf ← writeAt buf i '-'.toUInt8
      kputS b (← pointerAt buf i)
    else kputS b (← pointerAt buf (i + 1))

def kprnUi (b : KprintBuf) (x : UInt64) : Option KprintBuf :=
  if x = 0 then kputchar b '0'.toUInt8
  else do
    let (slots, buf) ← fillBack 0 unsignedDigit (· / 10) 20 x digitBuf
    let i := (slots : Int) - 1
    kputS b (← pointerAt buf (i + 1))

def hexToAsciiTab : List UInt8 := literal "0123456789abcdef"

def hexDigit (x : UInt64) : UInt8 := hexToAsciiTab.getD (x % 16).toNat 0

-- The digits of `kprn_x` in their array, and the index of the first one.
def hexBuf (x : UInt64) : Option (Int × List UInt8) :=
  let buf := literal "0000000000000000"
  if x = 0 then some (15, buf)
  else (fillBack 0 hexDigit (· / 16) 16 x buf).map fun (slots, buf) => ((slots : Int) - 1 + 1, buf)

def kprnX (b : KprintBuf) (x : UInt64) (pad : Nat) : Option KprintBuf := do
  let (i, buf) ← hexBuf x
  let b ← kputS b (literal "0x")
  kputS b (← pointerAt buf (if pad = 0 then i else 16 - pad))

def headerText (type : Int) : String :=
  if type = KPRN_INFO then "\x1b[36minfo\x1b[37m: "
  else if type = KPRN_WARN then "\x1b[33mwarning\x1b[37m: "
  else if type = KPRN_ERR then "\x1b[31mERROR\x1b[37m: "
  else if type = KPRN_PANIC then "\x1b[31mPANIC\x1b[37m: "
  else "\x1b[36mDEBUG\x1b[37m: "

def printHeader (b : KprintBuf) (type : Int) : Option KprintBuf := kputS b (literal (headerText type))

-- The arguments behind the format, by the type they were passed with. `none` is the null pointer.
inductive Arg where
  | pointer (string : Option (List UInt8))
  | int (x : Int32)
  | uint (x : UInt32)
  | int64 (x : Int64)
  | uint64 (x : UInt64)

-- The digits behind a percent sign, and the rest of the format.
def readVal : Nat → List UInt8 → Nat × List UInt8
  | val, [] => (val, [])
  | val, c :: fmt =>
    if '0'.toUInt8 ≤ c ∧ c ≤ '9'.toUInt8 then readVal (val * 10 + (c - '0'.toUInt8).toNat) fmt
    else (val, c :: fmt)

-- `va_arg` at each type. With another type than the argument's own it has no result.
def vaPointer : List Arg → Option (Option (List UInt8) × List Arg)
  | .pointer string :: args => some (string, args)
  | _ => none

def vaInt : List Arg → Option (Int32 × List Arg)
  | .int x :: args => some (x, args)
  | _ => none

def vaUint : List Arg → Option (UInt32 × List Arg)
  | .uint x :: args => some (x, args)
  | _ => none

def vaInt64 : List Arg → Option (Int64 × List Arg)
  | .int64 x :: args => some (x, args)
  | _ => none

def vaUint64 : List Arg → Option (UInt64 × List Arg)
  | .uint64 x :: args => some (x, args)
  | _ => none

-- The `switch` on the character of a conversion. `size_t` is `unsigned int`.
def convert (b : KprintBuf) (val : Nat) (c : Char) (args : List Arg) :
    Option (KprintBuf × List Arg) :=
  match c with
  | 's' => do
    let (str, args) ← vaPointer args
    match str with
    | none => return (← kputS b (literal "(null)"), args)
    | some str => return (← kputS b str, args)
  | 'S' => do
    let (strLen, args) ← vaUint args
    let (str, args) ← vaPointer args
    return (← knputS b (str.getD []) strLen.toNat, args)
  | 'd' => do
    let (x, args) ← vaInt args
    return (← kprnI b x.toInt64, args)
  | 'D' => do
    let (x, args) ← vaInt64 args
    return (← kprnI b x, args)
  | 'u' => do
    let (x, args) ← vaUint args
    return (← kprnUi b x.toUInt64, args)
  | 'U' => do
    let (x, args) ← vaUint64 args
    return (← kprnUi b x, args)
  | 'x' => do
    let (x, args) ← vaUint args
    return (← kprnX b x.toUInt64 val, args)
  | 'X' => do
    let (x, args) ← vaUint64 args
    return (← kprnX b x val, args)
  | 'c' => do
    let (x, args) ← vaInt args
    return (← kputchar b x.toInt8.toUInt8, args)
  | _ => do return (← kputchar b '?'.toUInt8, args)

theorem readVal_length (val : Nat) (fmt : List UInt8) : (readVal val fmt).2.length ≤ fmt.length := by
  induction fmt generalizing val with
  | nil => simp [readVal]
  | cons c fmt ih =>
    rw [readVal]
    split
    · exact (ih _).trans (by simp)
    · simp

-- The loop of `kvprint`. `fmt` is the format without its terminator.
def kvprintLoop (type : Int) (b : KprintBuf) (args : List Arg) : List UInt8 → Option KprintBuf
  | [] => kputchar b '\n'.toUInt8
  | c :: fmt =>
    if c = '%'.toUInt8 then
      match hval : readVal 0 fmt with
      | (_, []) => none -- the terminator is taken for a conversion, and `fmt` moves past it
      | (val, conversion :: rest) => do
        let (b, args) ← convert b val (Char.ofUInt8 conversion) args
        kvprintLoop type b args rest
    else do
      let b ← kputchar b c
      let b ← if c = '\n'.toUInt8 then printHeader b type else some b
      kvprintLoop type b args fmt
termination_by fmt => fmt.length
decreasing_by
  · have := readVal_length 0 fmt
    simp [hval] at this
    simp
    omega
  · simp

-- What is put out. `stack` is what the buffer held before.
def kvprint (stack : Vector UInt8 KPRINT_BUF_MAX) (type : Int) (fmt : List UInt8)
    (args : List Arg) : Option (List UInt8) := do
  let b ← printHeader { bytes := stack, index := 0 } type
  let b ← kvprintLoop type b args fmt
  if type = KPRN_INFO ∨ type = KPRN_DBG then return kprintBufFlush b
  else return kprintBufFlushUrgent b

end EchidnaOS.Kprint
