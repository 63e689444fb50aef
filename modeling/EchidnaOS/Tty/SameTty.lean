import EchidnaOS.Tty.Mirror

namespace EchidnaOS.Tty

open EchidnaOS.Lib.ByteStore EchidnaOS.Devfs

-- Two screens with the same tty, one of which may be hidden, or show something else.
structure SameTty (s t : Screen) : Prop where
  tty : s.tty = t.tty

variable {s t s' t' : Screen}

theorem SameTty.ite {p : Prop} [Decidable p] (hthen : SameTty s t) (helse : SameTty s' t') :
    SameTty (if p then s else s') (if p then t else t') := by
  split
  · exact hthen
  · exact helse

-- An operation makes of a tty the same whatever the screen shows.
theorem ttyRefresh_tty (s : Screen) : (ttyRefresh s).tty = s.tty := by
  unfold ttyRefresh
  split
  · rfl
  · rfl

theorem setVideo_tty (s : Screen) (index : Nat) (c : UInt8) : (s.setVideo index c).tty = s.tty := by
  unfold Screen.setVideo
  split
  · rfl
  · rfl

theorem SameTty.refresh (hsame : SameTty s t) : SameTty (ttyRefresh s) (ttyRefresh t) :=
  ⟨by rw [ttyRefresh_tty, ttyRefresh_tty, hsame.tty]⟩

theorem SameTty.setField (hsame : SameTty s t) (index : Nat) (c : UInt8) :
    SameTty (s.setField index c) (t.setField index c) :=
  ⟨by simp only [Screen.setField, hsame.tty]⟩

theorem SameTty.put (hsame : SameTty s t) (index : Nat) (c : UInt8) :
    SameTty (s.put index c) (t.put index c) :=
  ⟨by rw [Screen.put, Screen.put, setVideo_tty, setVideo_tty, (hsame.setField index c).tty]⟩

theorem SameTty.setCursor (hsame : SameTty s t) (offset : Nat) :
    SameTty (s.setCursor offset) (t.setCursor offset) :=
  ⟨by simp only [Screen.setCursor, hsame.tty]⟩

theorem SameTty.clearCursor (hsame : SameTty s t) : SameTty (clearCursor s) (clearCursor t) := by
  unfold Tty.clearCursor
  rw [hsame.tty]
  exact hsame.put _ _

theorem SameTty.drawCursor (hsame : SameTty s t) : SameTty (drawCursor s) (drawCursor t) := by
  unfold Tty.drawCursor
  rw [hsame.tty]
  exact .ite (hsame.put _ _) hsame

theorem SameTty.foldl {turn : Screen → Nat → Screen}
    (hturn : ∀ {s t : Screen}, SameTty s t → ∀ i, SameTty (turn s i) (turn t i))
    (hsame : SameTty s t) (indices : List Nat) :
    SameTty (indices.foldl turn s) (indices.foldl turn t) := by
  induction indices generalizing s t with
  | nil => exact hsame
  | cons i rest ih => exact ih (hturn hsame i)

theorem SameTty.copyField (hsame : SameTty s t) (index source : Nat) :
    SameTty (s.copyField index source) (t.copyField index source) :=
  ⟨by simp only [Screen.copyField, Screen.setField, hsame.tty]⟩

theorem SameTty.blankCell (hsame : SameTty s t) (index : Nat) :
    SameTty (s.blankCell index) (t.blankCell index) := by
  unfold Screen.blankCell
  rw [hsame.tty]
  exact (hsame.setField _ _).setField _ _

theorem SameTty.blank (hsame : SameTty s t) (cell : Nat → Nat) (indices : List Nat) :
    SameTty (indices.foldl (fun s i => s.blankCell (cell i)) s)
      (indices.foldl (fun s i => s.blankCell (cell i)) t) :=
  hsame.foldl (fun hsame i => hsame.blankCell (cell i)) indices

theorem SameTty.scroll (hsame : SameTty s t) : SameTty (scroll s) (scroll t) := by
  have hmoved := hsame.foldl (fun hsame i => hsame.copyField i (i + VD_COLS))
    (List.range (VIDEO_BOTTOM - VD_COLS + 1))
  exact (hmoved.blank _ _).refresh

theorem SameTty.textClearNoMove (hsame : SameTty s t) :
    SameTty (textClearNoMove s) (textClearNoMove t) :=
  (hsame.clearCursor.blank _ _).drawCursor.refresh

theorem SameTty.textClear (hsame : SameTty s t) : SameTty (textClear s) (textClear t) :=
  ((hsame.clearCursor.blank _ _).setCursor 0).drawCursor.refresh

theorem SameTty.textSetCursorPos (hsame : SameTty s t) (x y : Nat) :
    SameTty (textSetCursorPos s x y) (textSetCursorPos t x y) :=
  (hsame.clearCursor.setCursor _).drawCursor

theorem SameTty.textEnableCursor (hsame : SameTty s t) :
    SameTty (textEnableCursor s) (textEnableCursor t) := by
  apply SameTty.drawCursor
  exact ⟨by simp only [hsame.tty]⟩

theorem SameTty.textDisableCursor (hsame : SameTty s t) :
    SameTty (textDisableCursor s) (textDisableCursor t) := by
  apply SameTty.clearCursor
  exact ⟨by simp only [hsame.tty]⟩

theorem SameTty.textSetCursorPalette (hsame : SameTty s t) (c : UInt8) :
    SameTty (textSetCursorPalette s c) (textSetCursorPalette t c) := by
  apply SameTty.drawCursor
  exact ⟨by simp only [hsame.tty]⟩

theorem SameTty.putPlain (hsame : SameTty s t) (c : UInt8) : SameTty (putPlain s c) (putPlain t c) := by
  have hback := hsame.clearCursor.setCursor (toU32 (t.tty.cursorOffset - 2))
  have hput := hsame.clearCursor.put t.tty.cursorOffset c
  unfold Tty.putPlain
  simp only [textGetCursorPosY, hsame.tty, hput.tty, hback.tty]
  apply SameTty.ite hsame
  refine SameTty.ite ?_ ?_
  · exact ⟨rfl⟩
  apply SameTty.ite
  · exact .ite (hsame.clearCursor.scroll.textSetCursorPos _ _) (hsame.textSetCursorPos _ _)
  apply SameTty.ite
  · exact .ite hsame (hback.put _ _).drawCursor
  · exact .ite (.ite hput.drawCursor (hput.scroll.setCursor _).drawCursor)
      (hput.setCursor _).drawCursor

theorem SameTty.sgr (hsame : SameTty s t) : SameTty (sgr s) (sgr t) := by
  have hpalette : SameTty
      (if t.tty.escValue0 = 0 then { s with tty.textPalette := TTY_DEF_TXT_PAL } else s)
      (if t.tty.escValue0 = 0 then { t with tty.textPalette := TTY_DEF_TXT_PAL } else t) := by
    apply SameTty.ite _ hsame
    exact ⟨by simp only [hsame.tty]⟩
  unfold Tty.sgr
  simp only [hsame.tty] at hpalette ⊢
  simp only [hpalette.tty]
  refine SameTty.ite ?_ (SameTty.ite ?_ hpalette)
  · exact ⟨rfl⟩
  · exact ⟨rfl⟩

theorem SameTty.digit (hsame : SameTty s t) (c : UInt8) : SameTty (digit s c) (digit t c) := by
  unfold Tty.digit
  simp only [hsame.tty]
  refine SameTty.ite ?_ ?_
  · exact ⟨rfl⟩
  · exact ⟨rfl⟩

theorem SameTty.finalChar (hsame : SameTty s t) (c : UInt8) :
    SameTty (finalChar s c) (finalChar t c) := by
  unfold Tty.finalChar cursorUp cursorDown cursorRight cursorLeft cursorHome motion
    textGetCursorPosX textGetCursorPosY
  simp only [hsame.tty]
  -- the four motions and the position
  iterate 5
    apply SameTty.ite (hsame.textSetCursorPos _ _)
  apply SameTty.ite hsame.sgr
  apply SameTty.ite (.ite hsame.textClearNoMove hsame)
  -- the modes
  iterate 3
    refine SameTty.ite ?_ ?_
    · exact ⟨rfl⟩
  apply SameTty.putPlain
  exact ⟨rfl⟩

theorem SameTty.textPutchar (hsame : SameTty s t) (c : UInt8) :
    SameTty (textPutchar s c) (textPutchar t c) := by
  have hfinal := hsame.finalChar c
  unfold Tty.textPutchar escapeParse
  simp only [hsame.tty]
  refine SameTty.ite ?_ (hsame.putPlain c)
  apply SameTty.ite (hsame.digit c)
  apply SameTty.ite hsame
  refine SameTty.ite ?_ ?_
  · exact ⟨rfl⟩
  · exact ⟨by simp only [resetEscape, hfinal.tty]⟩

-- What an operation makes of a tty depends on the tty alone.
theorem SameTty.operation (hsame : SameTty s t) (call : ConsoleCall) :
    SameTty (call.op s) (call.op t) := by
  cases call with
  | putchar which c => exact hsame.textPutchar c
  | switch which => exact hsame.refresh
  | clear which => exact hsame.textClear
  | enableCursor which => exact hsame.textEnableCursor
  | disableCursor which => exact hsame.textDisableCursor
  | cursorPalette which c => exact hsame.textSetCursorPalette c

end EchidnaOS.Tty
