import EchidnaOS.Tty

namespace EchidnaOS.Tty

open EchidnaOS.Lib.ByteStore

def KRNL_TTY_COUNT : Nat := 7

abbrev WhichTty := Fin KRNL_TTY_COUNT

def tty0 : WhichTty := ⟨0, by decide⟩

def tty1 : WhichTty := ⟨1, by decide⟩

-- The array `tty`, the tty that is shown, and the memory of the screen. `fault` is that of the
-- ttys' screens.
structure Console where
  ttys : WhichTty → TtyState
  currentTty : WhichTty
  videoMem : Store
  fault : Bool := false

-- What a function of tty.c sees when it is called with `which_tty`.
def Console.screen (s : Console) (which : WhichTty) : Screen where
  tty := s.ttys which
  shown := which = s.currentTty
  videoMem := s.videoMem
  fault := s.fault

def Console.onTty (s : Console) (which : WhichTty) (op : Screen → Screen) : Console :=
  let after := op (s.screen which)
  { s with
    ttys := Function.update s.ttys which after.tty
    videoMem := after.videoMem
    fault := after.fault }

def textClear (s : Screen) : Screen :=
  let s := (List.range ((VIDEO_BOTTOM + 1) / 2)).foldl (fun s i => s.blankCell (2 * i)) (clearCursor s)
  ttyRefresh (drawCursor (s.setCursor 0))

def textEnableCursor (s : Screen) : Screen := drawCursor { s with tty.cursorStatus := true }

def textDisableCursor (s : Screen) : Screen := clearCursor { s with tty.cursorStatus := false }

def textSetCursorPalette (s : Screen) (c : UInt8) : Screen :=
  drawCursor { s with tty.cursorPalette := c }

def switchTty (s : Console) (which : WhichTty) : Console :=
  { s with currentTty := which }.onTty which ttyRefresh

-- The ttys after init_tty. `current_tty` is static, and the screen shows anything.
def initConsole (videoMem : Store) : Console where
  ttys := fun which => (initTty (which = tty0) videoMem).tty
  currentTty := tty0
  videoMem := videoMem

-- The console after init_tty and switch_tty(0).
def startConsole (videoMem : Store) : Console := switchTty (initConsole videoMem) tty0

inductive ConsoleCall where
  | putchar (which : WhichTty) (c : UInt8)
  | switch (which : WhichTty)
  | clear (which : WhichTty)
  | enableCursor (which : WhichTty)
  | disableCursor (which : WhichTty)
  | cursorPalette (which : WhichTty) (c : UInt8)

def consoleStep (s : Console) : ConsoleCall → Option Console
  | .putchar which c => some (s.onTty which (textPutchar · c))
  | .switch which => some (switchTty s which)
  | .clear which => some (s.onTty which textClear)
  | .enableCursor which => some (s.onTty which textEnableCursor)
  | .disableCursor which => some (s.onTty which textDisableCursor)
  | .cursorPalette which c => some (s.onTty which (textSetCursorPalette · c))

end EchidnaOS.Tty
