import EchidnaOS.Devfs
import EchidnaOS.Lib.Run

namespace EchidnaOS.Tty

open EchidnaOS.Lib.ByteStore EchidnaOS.Devfs

def VD_ROWS : Nat := 25
def VD_COLS : Nat := 160
def VIDEO_BOTTOM : Nat := VD_ROWS * VD_COLS - 1
def TTY_DEF_CUR_PAL : UInt8 := 0x70
def TTY_DEF_TXT_PAL : UInt8 := 0x07

-- The conversion to `uint32_t`.
def toU32 (x : Int) : Nat := (x % 2 ^ 32).toNat

-- `tty_t`. The pointers `esc_value` and `esc_default` always designate the same one of the two
-- parameters, which is the second one after a separator.
structure TtyState where
  cursorOffset : Nat := 0
  cursorStatus : Bool := true
  cursorPalette : UInt8 := TTY_DEF_CUR_PAL
  textPalette : UInt8 := TTY_DEF_TXT_PAL
  field : Store
  escape : Bool := false
  escSecond : Bool := false
  escValue0 : Int := 0
  escValue1 : Int := 0
  escDefault0 : Bool := true
  escDefault1 : Bool := true
  raw : Bool := false
  noblock : Bool := false
  noscroll : Bool := false

-- A tty, whether it is the one shown, and the memory of the screen. `fault` records that an index
-- outside `field` or the screen was used.
structure Screen where
  tty : TtyState
  shown : Bool
  videoMem : Store
  fault : Bool := false

def Screen.setField (s : Screen) (index : Nat) (c : UInt8) : Screen :=
  { s with
    tty.field := Function.update s.tty.field index c
    fault := s.fault || decide (VD_ROWS * VD_COLS ≤ index) }

def Screen.setVideo (s : Screen) (index : Nat) (c : UInt8) : Screen :=
  if s.shown then
    { s with
      videoMem := Function.update s.videoMem index c
      fault := s.fault || decide (VD_ROWS * VD_COLS ≤ index) }
  else s

def Screen.put (s : Screen) (index : Nat) (c : UInt8) : Screen :=
  (s.setField index c).setVideo index c

def Screen.setCursor (s : Screen) (offset : Nat) : Screen := { s with tty.cursorOffset := offset }

def clearCursor (s : Screen) : Screen :=
  s.put ((s.tty.cursorOffset + 1) % 2 ^ 32) s.tty.textPalette

def drawCursor (s : Screen) : Screen :=
  if s.tty.cursorStatus then s.put ((s.tty.cursorOffset + 1) % 2 ^ 32) s.tty.cursorPalette else s

def ttyRefresh (s : Screen) : Screen :=
  if s.shown then { s with videoMem := blit s.videoMem 0 (VD_ROWS * VD_COLS) s.tty.field } else s

def Screen.copyField (s : Screen) (index source : Nat) : Screen :=
  { s.setField index (s.tty.field source) with
    fault := (s.setField index 0).fault || decide (VD_ROWS * VD_COLS ≤ source) }

-- A cell of `field` is a character and its palette.
def Screen.blankCell (s : Screen) (index : Nat) : Screen :=
  (s.setField index 0x20).setField (index + 1) s.tty.textPalette

-- The second loop walks down from the last byte, two at a time.
def scroll (s : Screen) : Screen :=
  let s := (List.range (VIDEO_BOTTOM - VD_COLS + 1)).foldl (fun s i => s.copyField i (i + VD_COLS)) s
  ttyRefresh ((List.range (VD_COLS / 2)).foldl (fun s i => s.blankCell (VIDEO_BOTTOM - 2 * i - 1)) s)

def textClearNoMove (s : Screen) : Screen :=
  let s := (List.range ((VIDEO_BOTTOM + 1) / 2)).foldl (fun s i => s.blankCell (2 * i)) (clearCursor s)
  ttyRefresh (drawCursor s)

def textGetCursorPosX (s : Screen) : Nat := s.tty.cursorOffset % VD_COLS / 2

def textGetCursorPosY (s : Screen) : Nat := s.tty.cursorOffset / VD_COLS

def textSetCursorPos (s : Screen) (x y : Nat) : Screen :=
  drawCursor ((clearCursor s).setCursor ((y * VD_COLS + x * 2) % 2 ^ 32))

-- text_putchar when no escape sequence is being read.
def putPlain (s : Screen) (c : UInt8) : Screen :=
  if c = 0x00 then s
  else if c = 0x1B then { s with tty.escape := true }
  else if c = 0x0A then
    if textGetCursorPosY s = VD_ROWS - 1 then
      textSetCursorPos (scroll (clearCursor s)) 0 (VD_ROWS - 1)
    else textSetCursorPos s 0 (textGetCursorPosY s + 1)
  else if c = 0x08 then
    if s.tty.cursorOffset = 0 then s
    else
      let s := (clearCursor s).setCursor (toU32 (s.tty.cursorOffset - 2))
      drawCursor (s.put s.tty.cursorOffset 0x20)
  else
    let s := (clearCursor s).put s.tty.cursorOffset c
    if VIDEO_BOTTOM - 1 ≤ s.tty.cursorOffset then
      if s.tty.noscroll then drawCursor s
      else drawCursor ((scroll s).setCursor (VIDEO_BOTTOM - (VD_COLS - 1)))
    else drawCursor (s.setCursor ((s.tty.cursorOffset + 2) % 2 ^ 32))

def ansiColours : List UInt8 := [0, 4, 2, 6, 1, 5, 3, 7]

def ansiColour (value : Int) : UInt8 := ansiColours.getD value.toNat 0

def sgr (s : Screen) : Screen :=
  let s := if s.tty.escValue0 = 0 then { s with tty.textPalette := TTY_DEF_TXT_PAL } else s
  let value := s.tty.escValue0
  let pal := s.tty.textPalette
  if 30 ≤ value ∧ value ≤ 37 then
    { s with tty.textPalette := (pal &&& 0xf0) + ansiColour (value - 30) }
  else if 40 ≤ value ∧ value ≤ 47 then
    { s with tty.textPalette := (pal &&& 0x0f) + ansiColour (value - 40) * 0x10 }
  else s

-- The `int` a digit makes of the parameter.
def appendDigit (value : Int) (c : UInt8) : Int := toInt (toInt (value * 10) + (c.toNat - 48))

def digit (s : Screen) (c : UInt8) : Screen :=
  if s.tty.escSecond then
    { s with
      tty.escValue1 := appendDigit s.tty.escValue1 c
      tty.escDefault1 := false }
  else
    { s with
      tty.escValue0 := appendDigit s.tty.escValue0 c
      tty.escDefault0 := false }

-- The distance of a motion, an `int` compared with and added to unsigned positions.
def motion (s : Screen) : Nat := toU32 (if s.tty.escDefault0 then 1 else s.tty.escValue0)

def cursorUp (s : Screen) : Screen :=
  let y := textGetCursorPosY s
  let value := if y < motion s then y else motion s
  textSetCursorPos s (textGetCursorPosX s) (toU32 (y - value))

def cursorDown (s : Screen) : Screen :=
  let y := textGetCursorPosY s
  let value := if VD_ROWS - 1 < (y + motion s) % 2 ^ 32 then toU32 (VD_ROWS - 1 - y) else motion s
  textSetCursorPos s (textGetCursorPosX s) ((y + value) % 2 ^ 32)

def cursorRight (s : Screen) : Screen :=
  let x := textGetCursorPosX s
  let value :=
    if VD_COLS / 2 - 1 < (x + motion s) % 2 ^ 32 then toU32 (VD_COLS / 2 - 1 - x) else motion s
  textSetCursorPos s ((x + value) % 2 ^ 32) (textGetCursorPosY s)

def cursorLeft (s : Screen) : Screen :=
  let x := textGetCursorPosX s
  let value := if x < motion s then x else motion s
  textSetCursorPos s (toU32 (x - value)) (textGetCursorPosY s)

-- A coordinate of 'H', which is compared with its limit as a signed number.
def coordinate (value : Int) (isDefault : Bool) (limit : Int) : Int :=
  let value := if isDefault then 0 else toInt (value - 1)
  if limit ≤ value then limit - 1 else value

def cursorHome (s : Screen) : Screen :=
  let column := coordinate s.tty.escValue1 s.tty.escDefault1 (VD_COLS / 2)
  let row := coordinate s.tty.escValue0 s.tty.escDefault0 VD_ROWS
  textSetCursorPos s (toU32 column) (toU32 row)

def resetEscape (s : Screen) : Screen :=
  { s with
    tty.escSecond := false
    tty.escValue0 := 0
    tty.escValue1 := 0
    tty.escDefault0 := true
    tty.escDefault1 := true
    tty.escape := false }

-- What the last character of a sequence does.
def finalChar (s : Screen) (c : UInt8) : Screen :=
  if c = 65 then cursorUp s
  else if c = 66 then cursorDown s
  else if c = 67 then cursorRight s
  else if c = 68 then cursorLeft s
  else if c = 72 then cursorHome s
  else if c = 109 then sgr s
  else if c = 74 then if s.tty.escValue0 = 2 then textClearNoMove s else s
  else if c = 114 then { s with tty.raw := !s.tty.raw }
  else if c = 98 then { s with tty.noblock := !s.tty.noblock }
  else if c = 115 then { s with tty.noscroll := !s.tty.noscroll }
  else putPlain { s with tty.escape := false } 0x3F

def escapeParse (s : Screen) (c : UInt8) : Screen :=
  if 48 ≤ c ∧ c ≤ 57 then digit s c
  else if c = 91 then s
  else if c = 59 then { s with tty.escSecond := true }
  else resetEscape (finalChar s c)

def textPutchar (s : Screen) (c : UInt8) : Screen :=
  if s.tty.escape then escapeParse s c else putPlain s c

-- The loop of init_tty, which writes every second byte up to the last one.
def initField : Store := fun i =>
  if i = 1 then TTY_DEF_CUR_PAL
  else if i < VD_ROWS * VD_COLS then if i % 2 = 0 then 0x20 else TTY_DEF_TXT_PAL else 0

-- A tty as init_tty leaves it, whatever the screen shows.
def initTty (shown : Bool) (videoMem : Store) : Screen where
  tty := { field := initField }
  shown := shown
  videoMem := videoMem

def step (s : Screen) (c : UInt8) : Option Screen := some (textPutchar s c)

end EchidnaOS.Tty
