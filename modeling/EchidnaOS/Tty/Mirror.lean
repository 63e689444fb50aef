import EchidnaOS.Tty.Console
import EchidnaOS.Tty.Cursor

namespace EchidnaOS.Tty

open EchidnaOS.Lib.ByteStore EchidnaOS.Lib.Run EchidnaOS.Devfs

variable {s next final : Screen} {index x y : Nat} {c : UInt8}

-- The screen shows the cells of its tty.
def Mirrored (s : Screen) : Prop :=
  s.shown = true → ∀ index, index < VD_ROWS * VD_COLS → s.videoMem index = s.tty.field index

-- A tty that is not shown leaves the memory of the screen alone.
structure Aside (s next : Screen) : Prop where
  shown : next.shown = s.shown
  hidden : s.shown = false → next.videoMem = s.videoMem

structure Mirrors (s next : Screen) : Prop extends Aside s next where
  mirror : Mirrored s → Mirrored next

theorem Aside.refl (s : Screen) : Aside s s := ⟨rfl, fun _ => rfl⟩

theorem Aside.trans (hs : Aside s next) (hnext : Aside next final) : Aside s final := by
  refine ⟨hnext.shown.trans hs.shown, ?_⟩
  intro hshown
  rw [hnext.hidden (hs.shown.trans hshown), hs.hidden hshown]

-- A change of what is neither shown nor a cell.
theorem Mirrors.of_eq (hshown : next.shown = s.shown) (hvideo : next.videoMem = s.videoMem)
    (hfield : next.tty.field = s.tty.field) : Mirrors s next := by
  refine ⟨⟨hshown, fun _ => hvideo⟩, ?_⟩
  unfold Mirrored
  rw [hshown, hvideo, hfield]
  exact id

theorem Mirrors.refl (s : Screen) : Mirrors s s := .of_eq rfl rfl rfl

theorem Mirrors.trans (hs : Mirrors s next) (hnext : Mirrors next final) : Mirrors s final :=
  ⟨hs.toAside.trans hnext.toAside, fun hmirror => hnext.mirror (hs.mirror hmirror)⟩

-- A byte of the field goes to the screen as well.
theorem put_mirrors (s : Screen) (index : Nat) (c : UInt8) : Mirrors s (s.put index c) := by
  unfold Screen.put Screen.setVideo
  split
  · rename_i hshown
    have hvisible : s.shown = true := hshown
    refine ⟨⟨rfl, fun hhidden => ?_⟩, ?_⟩
    · rw [hvisible] at hhidden
      cases hhidden
    · intro hmirror _ other hother
      simp only [Screen.setField]
      by_cases heq : other = index
      · rw [heq, Function.update_self, Function.update_self]
      · rw [Function.update_of_ne heq, Function.update_of_ne heq]
        exact hmirror hvisible other hother
  · rename_i hshown
    refine ⟨⟨rfl, fun _ => rfl⟩, ?_⟩
    intro _ hvisible
    exact absurd hvisible hshown

theorem blankCell_aside (s : Screen) (index : Nat) : Aside s (s.blankCell index) :=
  ⟨rfl, fun _ => rfl⟩

theorem copyField_aside (s : Screen) (index source : Nat) : Aside s (s.copyField index source) :=
  ⟨rfl, fun _ => rfl⟩

theorem foldl_aside {turn : Screen → Nat → Screen} (hturn : ∀ s i, Aside s (turn s i))
    (indices : List Nat) (s : Screen) : Aside s (indices.foldl turn s) := by
  induction indices generalizing s with
  | nil => exact .refl s
  | cons i rest ih => exact (hturn s i).trans (ih (turn s i))

-- Whatever was done to the field, a refresh shows it.
theorem Aside.refresh (haside : Aside s next) : Mirrors s (ttyRefresh next) := by
  unfold ttyRefresh
  split
  · rename_i hshown
    have hvisible : s.shown = true := haside.shown.symm.trans hshown
    refine ⟨⟨haside.shown, fun hhidden => ?_⟩, ?_⟩
    · rw [hvisible] at hhidden
      cases hhidden
    · intro _ _ index hindex
      have hblit := blit_inside next.videoMem 0 (VD_ROWS * VD_COLS) next.tty.field index hindex
      simpa using hblit
  · rename_i hshown
    refine ⟨haside, ?_⟩
    intro _ hvisible
    exact absurd hvisible hshown

theorem clearCursor_mirrors (s : Screen) : Mirrors s (clearCursor s) := put_mirrors _ _ _

theorem drawCursor_mirrors (s : Screen) : Mirrors s (drawCursor s) := by
  unfold drawCursor
  split
  · exact put_mirrors _ _ _
  · exact .refl s

theorem setCursor_mirrors (s : Screen) (offset : Nat) : Mirrors s (s.setCursor offset) :=
  .of_eq rfl rfl rfl

theorem textSetCursorPos_mirrors (s : Screen) (x y : Nat) : Mirrors s (textSetCursorPos s x y) :=
  (clearCursor_mirrors s).trans ((setCursor_mirrors _ _).trans (drawCursor_mirrors _))

theorem scroll_mirrors (s : Screen) : Mirrors s (scroll s) :=
  ((foldl_aside (fun s i => copyField_aside s i _) _ s).trans
    (foldl_aside (fun s i => blankCell_aside s _) _ _)).refresh

theorem textClearNoMove_mirrors (s : Screen) : Mirrors s (textClearNoMove s) :=
  ((clearCursor_mirrors s).toAside.trans ((foldl_aside (fun s i => blankCell_aside s _) _ _).trans
    (drawCursor_mirrors _).toAside)).refresh

theorem textClear_mirrors (s : Screen) : Mirrors s (textClear s) :=
  ((clearCursor_mirrors s).toAside.trans ((foldl_aside (fun s i => blankCell_aside s _) _ _).trans
    ((setCursor_mirrors _ 0).trans (drawCursor_mirrors _)).toAside)).refresh

theorem Mirrors.ite {p : Prop} [Decidable p] (hnext : Mirrors s next) (hfinal : Mirrors s final) :
    Mirrors s (if p then next else final) := by
  split
  · exact hnext
  · exact hfinal

theorem putPlain_mirrors (s : Screen) (c : UInt8) : Mirrors s (putPlain s c) := by
  have hchar := (clearCursor_mirrors s).trans (put_mirrors (clearCursor s) s.tty.cursorOffset c)
  unfold putPlain
  dsimp only
  apply Mirrors.ite (.refl s)
  refine Mirrors.ite ?_ ?_
  · exact .of_eq rfl rfl rfl
  apply Mirrors.ite
  · apply Mirrors.ite
    · exact (clearCursor_mirrors s).trans ((scroll_mirrors _).trans (textSetCursorPos_mirrors _ _ _))
    · exact textSetCursorPos_mirrors _ _ _
  apply Mirrors.ite
  · apply Mirrors.ite (.refl s)
    exact (clearCursor_mirrors s).trans ((setCursor_mirrors _ _).trans
      ((put_mirrors _ _ _).trans (drawCursor_mirrors _)))
  apply Mirrors.ite
  · apply Mirrors.ite
    · exact hchar.trans (drawCursor_mirrors _)
    · exact hchar.trans ((scroll_mirrors _).trans
        ((setCursor_mirrors _ _).trans (drawCursor_mirrors _)))
  · exact hchar.trans ((setCursor_mirrors _ _).trans (drawCursor_mirrors _))

theorem sgr_mirrors (s : Screen) : Mirrors s (sgr s) := by
  have hdefault : Mirrors s
      (if s.tty.escValue0 = 0 then { s with tty.textPalette := TTY_DEF_TXT_PAL } else s) :=
    Mirrors.ite (.of_eq rfl rfl rfl) (.refl s)
  unfold sgr
  dsimp only
  apply Mirrors.ite
  · exact hdefault.trans (.of_eq rfl rfl rfl)
  apply Mirrors.ite
  · exact hdefault.trans (.of_eq rfl rfl rfl)
  · exact hdefault

theorem finalChar_mirrors (s : Screen) (c : UInt8) : Mirrors s (finalChar s c) := by
  unfold finalChar
  -- the four motions and the position
  iterate 5
    refine Mirrors.ite ?_ ?_
    · exact textSetCursorPos_mirrors _ _ _
  apply Mirrors.ite (sgr_mirrors s)
  apply Mirrors.ite (Mirrors.ite (textClearNoMove_mirrors s) (.refl s))
  -- the modes
  iterate 3
    refine Mirrors.ite ?_ ?_
    · exact .of_eq rfl rfl rfl
  have hparsed : Mirrors s { s with tty.escape := false } := .of_eq rfl rfl rfl
  exact hparsed.trans (putPlain_mirrors _ 0x3F)

theorem digit_mirrors (s : Screen) (c : UInt8) : Mirrors s (digit s c) := by
  unfold digit
  refine Mirrors.ite ?_ ?_
  · exact .of_eq rfl rfl rfl
  · exact .of_eq rfl rfl rfl

theorem resetEscape_mirrors (s : Screen) : Mirrors s (resetEscape s) := .of_eq rfl rfl rfl

theorem textPutchar_mirrors (s : Screen) (c : UInt8) : Mirrors s (textPutchar s c) := by
  unfold textPutchar escapeParse
  apply Mirrors.ite
  · apply Mirrors.ite (digit_mirrors s c)
    apply Mirrors.ite (.refl s)
    refine Mirrors.ite ?_ ?_
    · exact .of_eq rfl rfl rfl
    · exact (finalChar_mirrors s c).trans (resetEscape_mirrors _)
  · exact putPlain_mirrors s c

def Mirror (s : Console) : Prop :=
  ∀ index, index < VD_ROWS * VD_COLS → s.videoMem index = (s.ttys s.currentTty).field index

def OffsetsBelow (s : Console) : Prop :=
  ∀ which, (s.ttys which).cursorOffset < VD_ROWS * VD_COLS

instance decidableOffsetsBelow : DecidablePred OffsetsBelow :=
  fun s => inferInstanceAs (Decidable (∀ which, (s.ttys which).cursorOffset < VD_ROWS * VD_COLS))

-- The tty an operation is about. A switch is about the screen.
def ConsoleCall.target : ConsoleCall → Option WhichTty
  | .putchar which _ => some which
  | .switch _ => none
  | .clear which => some which
  | .enableCursor which => some which
  | .disableCursor which => some which
  | .cursorPalette which _ => some which

-- An operation on a tty that is not shown changes neither the screen nor another field.
def LeavesOthers (s : Console) (call : ConsoleCall) : Prop :=
  ∀ which, call.target = some which → which ≠ s.currentTty →
    ∀ next, consoleStep s call = some next → next.videoMem = s.videoMem ∧
      ∀ other, other ≠ which → (next.ttys other).field = (s.ttys other).field

-- The operation of tty.c that a call makes on its tty.
def ConsoleCall.op : ConsoleCall → Screen → Screen
  | .putchar _ c => (textPutchar · c)
  | .switch _ => ttyRefresh
  | .clear _ => textClear
  | .enableCursor _ => textEnableCursor
  | .disableCursor _ => textDisableCursor
  | .cursorPalette _ c => (textSetCursorPalette · c)

structure ConsoleOk (s : Console) : Prop where
  mirror : Mirror s
  even : ∀ which, (s.ttys which).cursorOffset % 2 = 0
  noFault : s.fault = false

variable {console after : Console} {which : WhichTty} {call : ConsoleCall} {op : Screen → Screen}

theorem consoleStep_target (htarget : call.target = some which) :
    consoleStep console call = some (console.onTty which call.op) := by
  cases call with
  | switch => cases htarget
  | putchar | clear | enableCursor | disableCursor | cursorPalette =>
      cases htarget
      rfl

theorem op_mirrors (call : ConsoleCall) (s : Screen) : Mirrors s (call.op s) := by
  have hstatus : ∀ status, Mirrors s { s with tty.cursorStatus := status } :=
    fun status => .of_eq rfl rfl rfl
  have hpalette : ∀ c, Mirrors s { s with tty.cursorPalette := c } := fun c => .of_eq rfl rfl rfl
  cases call with
  | putchar which c => exact textPutchar_mirrors s c
  | switch which => exact (Aside.refl s).refresh
  | clear which => exact textClear_mirrors s
  | enableCursor which => exact (hstatus true).trans (drawCursor_mirrors _)
  | disableCursor which => exact (hstatus false).trans (clearCursor_mirrors _)
  | cursorPalette which c => exact (hpalette c).trans (drawCursor_mirrors _)

theorem Mirror.onTty (hmirror : Mirror console)
    (hop : Mirrors (console.screen which) (op (console.screen which))) :
    Mirror (console.onTty which op) := by
  intro index hindex
  simp only [Console.onTty]
  by_cases hcurrent : which = console.currentTty
  · have hshown : (console.screen which).shown = true := decide_eq_true hcurrent
    have hbefore : Mirrored (console.screen which) := by
      intro _ other hother
      rw [Console.screen, hcurrent]
      exact hmirror other hother
    rw [← hcurrent, Function.update_self]
    exact hop.mirror hbefore (hop.shown.trans hshown) index hindex
  · have hhidden : (console.screen which).shown = false := decide_eq_false hcurrent
    rw [Function.update_of_ne (Ne.symm hcurrent), hop.hidden hhidden]
    exact hmirror index hindex

-- A switch shows whatever the new tty has.
theorem switchTty_mirror (console : Console) (which : WhichTty) : Mirror (switchTty console which) := by
  intro index hindex
  have hshown : ({ console with currentTty := which }.screen which).shown = true :=
    decide_eq_true rfl
  have hblit := blit_inside console.videoMem 0 (VD_ROWS * VD_COLS) (console.ttys which).field
    index hindex
  simp only [switchTty, Console.onTty, ttyRefresh, hshown, if_true, Function.update_self]
  simpa [Console.screen] using hblit

theorem leavesOthers (console : Console) (call : ConsoleCall) : LeavesOthers console call := by
  intro which htarget hcurrent next hnext
  rw [consoleStep_target htarget, Option.some.injEq] at hnext
  subst hnext
  constructor
  · exact (op_mirrors call (console.screen which)).hidden (decide_eq_false hcurrent)
  · intro other hother
    simp only [Console.onTty, Function.update_of_ne hother]

-- A position moves the cursor to a cell whose number is even, if it is one of the screen.
theorem textSetCursorPos_offset (s : Screen) (x y : Nat) :
    (textSetCursorPos s x y).tty.cursorOffset = (y * VD_COLS + x * 2) % 2 ^ 32 := by
  unfold textSetCursorPos drawCursor
  split
  · unfold Screen.put Screen.setVideo
    split <;> rfl
  · rfl

theorem OnScreen.textPutchar_of_lt (hs : OnScreen s)
    (hlt : (Tty.textPutchar s c).tty.cursorOffset < VD_ROWS * VD_COLS) :
    OnScreen (Tty.textPutchar s c) := by
  apply hs.textPutchar
  intro hescape hhome
  apply hs.textSetCursorPos_of_lt
  have hmoved : (Tty.textPutchar s c).tty.cursorOffset = (Tty.cursorHome s).tty.cursorOffset := by
    rw [hhome, Tty.textPutchar, if_pos hescape]
    rfl
  rw [hmoved, Tty.cursorHome, textSetCursorPos_offset] at hlt
  exact hlt

theorem OnScreen.textClear (hs : OnScreen s) : OnScreen (textClear s) := by
  unfold Tty.textClear
  refine OnScreen.congr (OnScreen.drawCursor ?_) (ttyRefresh_still _)
  apply OnScreen.setCursor _ (by decide) (by decide)
  refine hs.clearCursor.congr (foldl_still ?_ _)
  intro s i hi
  have hlt := List.mem_range.mp hi
  apply blankCell_still
  simp only [VIDEO_BOTTOM, VD_ROWS, VD_COLS] at hlt ⊢
  omega

theorem OnScreen.operation (hs : OnScreen s) (call : ConsoleCall)
    (hlt : (call.op s).tty.cursorOffset < VD_ROWS * VD_COLS) : OnScreen (call.op s) := by
  have hstatus : ∀ status, OnScreen { s with tty.cursorStatus := status } :=
    fun status => hs.of_eq rfl rfl
  have hpalette : ∀ c, OnScreen { s with tty.cursorPalette := c } := fun c => hs.of_eq rfl rfl
  cases call with
  | putchar which c => exact hs.textPutchar_of_lt hlt
  | switch which => exact hs.congr (ttyRefresh_still s)
  | clear which => exact hs.textClear
  | enableCursor which => exact (hstatus true).drawCursor
  | disableCursor which => exact (hstatus false).clearCursor
  | cursorPalette which c => exact (hpalette c).drawCursor

theorem ConsoleOk.onScreen (hok : ConsoleOk console) (hoffsets : OffsetsBelow console)
    (which : WhichTty) : OnScreen (console.screen which) :=
  ⟨hok.even which, hoffsets which, hok.noFault⟩

theorem ConsoleOk.onTty (hok : ConsoleOk console) (hoffsets : OffsetsBelow console)
    (hafter : OffsetsBelow (console.onTty which call.op)) :
    ConsoleOk (console.onTty which call.op) := by
  have hlt : (call.op (console.screen which)).tty.cursorOffset < VD_ROWS * VD_COLS := by
    have hbelow := hafter which
    simpa only [Console.onTty, Function.update_self] using hbelow
  have hscreen := (hok.onScreen hoffsets which).operation call hlt
  refine ⟨hok.mirror.onTty (op_mirrors call _), ?_, hscreen.noFault⟩
  intro other
  simp only [Console.onTty]
  by_cases heq : other = which
  · rw [heq, Function.update_self]
    exact hscreen.even
  · rw [Function.update_of_ne heq]
    exact hok.even other

theorem switchTty_ok (hscreens : ∀ which, OnScreen (console.screen which)) (which : WhichTty) :
    ConsoleOk (switchTty console which) := by
  have hscreen : OnScreen ({ console with currentTty := which }.screen which) :=
    (hscreens which).of_eq rfl rfl
  have hrefreshed := hscreen.congr (ttyRefresh_still _)
  refine ⟨switchTty_mirror console which, ?_, hrefreshed.noFault⟩
  intro other
  simp only [switchTty, Console.onTty]
  by_cases heq : other = which
  · rw [heq, Function.update_self]
    exact hrefreshed.even
  · rw [Function.update_of_ne heq]
    exact (hscreens other).even

theorem ConsoleOk.step (hok : ConsoleOk console) (hoffsets : OffsetsBelow console)
    (hafter : OffsetsBelow after) (hstep : consoleStep console call = some after) :
    ConsoleOk after := by
  cases htarget : call.target with
  | some which =>
      rw [consoleStep_target htarget, Option.some.injEq] at hstep
      subst hstep
      exact hok.onTty hoffsets hafter
  | none =>
      cases call with
      | switch which =>
          cases hstep
          exact switchTty_ok (hok.onScreen hoffsets) which
      | putchar | clear | enableCursor | disableCursor | cursorPalette => cases htarget

theorem startConsole_ok (videoMem : Store) : ConsoleOk (startConsole videoMem) := by
  apply switchTty_ok
  intro which
  exact ⟨rfl, Nat.zero_lt_succ _, rfl⟩

-- As long as no cursor leaves the screen, the screen shows the current tty after every
-- call, no index leaves it, and no tty but the current one gets at it.
theorem screen_shows_current_tty (videoMem : Store) (calls : List ConsoleCall)
    (hoffsets : Throughout consoleStep OffsetsBelow (startConsole videoMem) calls) :
    Throughout consoleStep (fun s => Mirror s ∧ s.fault = false) (startConsole videoMem) calls ∧
      Guarded consoleStep LeavesOthers (startConsole videoMem) calls := by
  have hok := hoffsets.and (fun _ _ _ hok hbefore hafter hstep => hok.step hbefore hafter hstep)
    (startConsole_ok videoMem)
  constructor
  · exact hok.mono fun s hs => ⟨hs.2.mirror, hs.2.noFault⟩
  · exact guarded_always leavesOthers _ _

-- A character on the shown tty and one on another, which is then switched to.
theorem screen_shows_second_tty :
    Throughout consoleStep (fun s => Mirror s ∧ s.fault = false) (startConsole fun _ => 0)
        [.putchar tty0 120, .putchar ⟨1, by decide⟩ 121, .switch ⟨1, by decide⟩] ∧
      Guarded consoleStep LeavesOthers (startConsole fun _ => 0)
        [.putchar tty0 120, .putchar ⟨1, by decide⟩ 121, .switch ⟨1, by decide⟩] :=
  screen_shows_current_tty _ _ (by decide)

end EchidnaOS.Tty
