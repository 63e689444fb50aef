import EchidnaOS.Devfs.Transfer
import EchidnaOS.Tty.Console

namespace EchidnaOS

open EchidnaOS.Lib.ByteStore EchidnaOS.Devfs EchidnaOS.Tty

def KB_L1_SIZE : Nat := 256
def KB_L2_SIZE : Nat := 2048

def MAX_CODE : UInt8 := 0x57
def CAPSLOCK : UInt8 := 0x3A
def RIGHT_SHIFT : UInt8 := 0x36
def LEFT_SHIFT : UInt8 := 0x2A
def RIGHT_SHIFT_REL : UInt8 := 0xB6
def LEFT_SHIFT_REL : UInt8 := 0xAA
def LEFT_CTRL : UInt8 := 0x1D
def LEFT_CTRL_REL : UInt8 := 0x9D

def asciiCapslock : List UInt8 :=
  [0, 63, 49, 50, 51, 52, 53, 54, 55, 56, 57, 48, 45, 61, 8, 9,
   81, 87, 69, 82, 84, 89, 85, 73, 79, 80, 91, 93, 10, 0, 65, 83,
   68, 70, 71, 72, 74, 75, 76, 59, 39, 96, 0, 92, 90, 88, 67, 86,
   66, 78, 77, 44, 46, 47, 0, 0, 0, 32]

def asciiShift : List UInt8 :=
  [0, 63, 33, 64, 35, 36, 37, 94, 38, 42, 40, 41, 95, 43, 8, 9,
   81, 87, 69, 82, 84, 89, 85, 73, 79, 80, 123, 125, 10, 0, 65, 83,
   68, 70, 71, 72, 74, 75, 76, 58, 34, 126, 0, 124, 90, 88, 67, 86,
   66, 78, 77, 60, 62, 63, 0, 0, 0, 32]

def asciiShiftCapslock : List UInt8 :=
  [0, 63, 33, 64, 35, 36, 37, 94, 38, 42, 40, 41, 95, 43, 8, 9,
   113, 119, 101, 114, 116, 121, 117, 105, 111, 112, 123, 125, 10, 0, 97, 115,
   100, 102, 103, 104, 106, 107, 108, 58, 34, 126, 0, 124, 122, 120, 99, 118,
   98, 110, 109, 60, 62, 63, 0, 0, 0, 32]

def asciiNomod : List UInt8 :=
  [0, 63, 49, 50, 51, 52, 53, 54, 55, 56, 57, 48, 45, 61, 8, 9,
   113, 119, 101, 114, 116, 121, 117, 105, 111, 112, 91, 93, 10, 0, 97, 115,
   100, 102, 103, 104, 106, 107, 108, 59, 39, 96, 0, 92, 122, 120, 99, 118,
   98, 110, 109, 44, 46, 47, 0, 0, 0, 32]

-- The keyboard buffers of a `tty_t`, which lie one after the other.
structure KbBuffers where
  l1 : Store := fun _ => 0
  l1Index : Nat := 0
  l2 : Store := fun _ => 0
  l2Index : Nat := 0

-- The ttys with the static state of keyboard.c. `overrun` records that a byte was written to a
-- buffer at an index behind it, and `lastFetch` is the tty that was read last; the code keeps
-- neither.
structure Keyboard where
  console : Console
  buffers : WhichTty → KbBuffers := fun _ => {}
  capslockActive : Bool := false
  shiftActive : Bool := false
  ctrlActive : Bool := false
  ledStatus : UInt8 := 0
  isEof : Bool := false
  overrun : Bool := false
  lastFetch : Option WhichTty := none

def Keyboard.current (s : Keyboard) : WhichTty := s.console.currentTty

def Keyboard.tty (s : Keyboard) (which : WhichTty) : TtyState := s.console.ttys which

def Keyboard.setBuffers (s : Keyboard) (which : WhichTty) (buffers : KbBuffers) : Keyboard :=
  { s with buffers := Function.update s.buffers which buffers }

def Keyboard.putchar (s : Keyboard) (c : UInt8) : Keyboard :=
  { s with console := s.console.onTty s.current (textPutchar · c) }

def hotkeys : List (UInt8 × WhichTty) :=
  [(0x58, tty0), (0x3b, tty1), (0x3c, ⟨2, by decide⟩), (0x3d, ⟨3, by decide⟩),
   (0x3e, ⟨4, by decide⟩), (0x3f, ⟨5, by decide⟩), (0x40, ⟨6, by decide⟩)]

-- What keyboard_handler takes a scancode for.
inductive KeyAction where
  | switch (which : WhichTty)
  | capslock
  | shift
  | ctrl
  | char (c : UInt8)
  | ignored
  deriving DecidableEq

-- The tables are shorter than MAX_CODE. `beyond` is what the memory behind each of them holds.
def Keyboard.keyChar (beyond : Bool → Bool → UInt8 → UInt8) (s : Keyboard) (code : UInt8) : UInt8 :=
  let table :=
    if !s.capslockActive && !s.shiftActive then asciiNomod
    else if !s.capslockActive && s.shiftActive then asciiShift
    else if s.capslockActive && s.shiftActive then asciiShiftCapslock
    else asciiCapslock
  table.getD code.toNat (beyond s.capslockActive s.shiftActive code)

def Keyboard.hotkey (s : Keyboard) (code : UInt8) : Option WhichTty :=
  if s.shiftActive then hotkeys.lookup code else none

def Keyboard.keyAction (beyond : Bool → Bool → UInt8 → UInt8) (s : Keyboard) (code : UInt8) :
    KeyAction :=
  match s.hotkey code with
  | some which => .switch which
  | none =>
      if s.ctrlActive ∧ code = 0x2e then .ignored
      else if code = CAPSLOCK then .capslock
      else if code = LEFT_SHIFT ∨ code = RIGHT_SHIFT ∨ code = LEFT_SHIFT_REL ∨ code = RIGHT_SHIFT_REL
      then .shift
      else if code = LEFT_CTRL ∨ code = LEFT_CTRL_REL then .ctrl
      else if (s.buffers s.current).l1Index < KB_L1_SIZE ∧ code < MAX_CODE then
        .char (s.keyChar beyond code)
      else .ignored

-- `kb_l2_buffer[kb_l2_buffer_index++] = c`
def Keyboard.typeRaw (s : Keyboard) (c : UInt8) : Keyboard :=
  let kb := s.buffers s.current
  { s.setBuffers s.current { kb with
      l2 := Function.update kb.l2 kb.l2Index c
      l2Index := (kb.l2Index + 1) % 2 ^ 16 } with
    overrun := s.overrun || decide (KB_L2_SIZE ≤ kb.l2Index) }

-- `kb_l1_buffer[kb_l1_buffer_index++] = c`
def Keyboard.typeL1 (s : Keyboard) (c : UInt8) : Keyboard :=
  let kb := s.buffers s.current
  { s.setBuffers s.current { kb with
      l1 := Function.update kb.l1 kb.l1Index c
      l1Index := (kb.l1Index + 1) % 2 ^ 16 } with
    overrun := s.overrun || decide (KB_L1_SIZE ≤ kb.l1Index) }

-- `kb_l1_buffer[kb_l1_buffer_index--] = 0`
def Keyboard.eraseL1 (s : Keyboard) : Keyboard :=
  let kb := s.buffers s.current
  { s.setBuffers s.current { kb with
      l1 := Function.update kb.l1 kb.l1Index 0
      l1Index := (kb.l1Index + (2 ^ 16 - 1)) % 2 ^ 16 } with
    overrun := s.overrun || decide (KB_L1_SIZE ≤ kb.l1Index) }

-- The bytes from the first buffer on; the second one follows it.
def KbBuffers.fromL1 (kb : KbBuffers) : Store := fun i =>
  if i < KB_L1_SIZE then kb.l1 i else kb.l2 (i - KB_L1_SIZE)

-- The line goes to the second buffer, with the byte behind it.
def Keyboard.flushLine (s : Keyboard) : Keyboard :=
  let kb := s.buffers s.current
  { s.setBuffers s.current {
      l2 := blit kb.l2 kb.l2Index (kb.l1Index + 1) kb.fromL1
      l2Index := (kb.l2Index + kb.l1Index) % 2 ^ 16
      l1 := Function.update kb.l1 0 0
      l1Index := 0 } with
    overrun := s.overrun || decide (KB_L2_SIZE < kb.l2Index + (kb.l1Index + 1)) }

def Keyboard.typeChar (s : Keyboard) (c : UInt8) : Keyboard :=
  if (s.tty s.current).raw then s.typeRaw c
  else if c = 0x08 then
    if (s.buffers s.current).l1Index = 0 then s else (s.putchar c).eraseL1
  else if c = 0x0A then ((s.putchar c).typeL1 c).flushLine
  else (s.putchar c).typeL1 c

def Keyboard.toggleCapslock (s : Keyboard) : Keyboard :=
  { s with
    ledStatus := if s.capslockActive then s.ledStatus &&& 0b11111011 else s.ledStatus ||| 0b00000100
    capslockActive := !s.capslockActive }

def keyboardHandler (beyond : Bool → Bool → UInt8 → UInt8) (s : Keyboard) (inputByte : UInt8) :
    Keyboard :=
  match s.keyAction beyond inputByte with
  | .switch which => { s with console := switchTty s.console which }
  | .capslock => s.toggleCapslock
  | .shift => { s with shiftActive := !s.shiftActive }
  | .ctrl => { s with ctrlActive := !s.ctrlActive }
  | .char c => s.typeChar c
  | .ignored => s

-- The conversion of a `char` to `int`.
def charToInt (c : UInt8) : Int := if c.toNat < 128 then c.toNat else c.toNat - 256

-- The loop of keyboard_fetch_char moves the whole buffer down but its last byte.
def KbBuffers.shift (kb : KbBuffers) : KbBuffers :=
  { kb with
    l2 := fun i => if i < KB_L2_SIZE - 1 then kb.l2 (i + 1) else kb.l2 i
    l2Index := kb.l2Index - 1 }

def keyboardFetchChar (s : Keyboard) (which : WhichTty) : Int × Keyboard :=
  let s := { s with lastFetch := some which }
  if s.isEof then (-1, { s with isEof := false })
  else
    let kb := s.buffers which
    if kb.l2Index ≠ 0 then
      (charToInt (kb.l2 0),
        { s.setBuffers which kb.shift with isEof := decide (kb.l2 0 = 0x0A) })
    else if (s.tty which).noblock then (0, s)
    else (IO_NOT_READY, s)

inductive KbCall where
  | key (code : UInt8)
  | fetch (which : WhichTty)
  | console (call : ConsoleCall)

def kbStep (beyond : Bool → Bool → UInt8 → UInt8) (s : Keyboard) : KbCall → Option Keyboard
  | .key code => some (keyboardHandler beyond s code)
  | .fetch which => some (keyboardFetchChar s which).2
  | .console call => (consoleStep s.console call).map fun console => { s with console := console }

end EchidnaOS
