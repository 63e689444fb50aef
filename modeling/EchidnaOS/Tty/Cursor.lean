import EchidnaOS.Tty

namespace EchidnaOS.Tty

open EchidnaOS.Lib.ByteStore EchidnaOS.Lib.Run EchidnaOS.Devfs

variable {s next : Screen} {index x y : Nat} {c : UInt8}

-- The cursor is on a cell of the screen, and no index has left it.
structure OnScreen (s : Screen) : Prop where
  even : s.tty.cursorOffset % 2 = 0
  lt : s.tty.cursorOffset < VD_ROWS * VD_COLS
  noFault : s.fault = false

instance decidableOnScreen (s : Screen) : Decidable (OnScreen s) :=
  decidable_of_iff (s.tty.cursorOffset % 2 = 0 ∧ s.tty.cursorOffset < VD_ROWS * VD_COLS ∧
    s.fault = false) ⟨fun h => ⟨h.1, h.2.1, h.2.2⟩, fun h => ⟨h.even, h.lt, h.noFault⟩⟩

-- A row or column that was given is positive: its decrement, as an `int`, is not negative.
def Coordinate (value : Int) (isDefault : Bool) : Prop := isDefault = false → 0 ≤ toInt (value - 1)

def CoordinatesGiven (s : Screen) (c : UInt8) : Prop :=
  s.tty.escape = true → c = 72 →
    Coordinate s.tty.escValue0 s.tty.escDefault0 ∧ Coordinate s.tty.escValue1 s.tty.escDefault1

instance decidableCoordinate (value : Int) (isDefault : Bool) : Decidable (Coordinate value isDefault) :=
  inferInstanceAs (Decidable (_ → _))

instance decidableCoordinatesGiven (s : Screen) (c : UInt8) : Decidable (CoordinatesGiven s c) :=
  inferInstanceAs (Decidable (_ → _ → _))

-- What is left of a screen when the characters on it are put aside.
def Screen.still (s : Screen) : Screen := { s with tty.field := fun _ => 0, videoMem := fun _ => 0 }

theorem offset_of_still (hstill : next.still = s.still) :
    next.tty.cursorOffset = s.tty.cursorOffset := by
  have hoffset := congrArg (fun s : Screen => s.tty.cursorOffset) hstill
  exact hoffset

theorem fault_of_still (hstill : next.still = s.still) : next.fault = s.fault := by
  have hfault := congrArg Screen.fault hstill
  exact hfault

theorem OnScreen.of_eq (hs : OnScreen s) (hoffset : next.tty.cursorOffset = s.tty.cursorOffset)
    (hfault : next.fault = s.fault) : OnScreen next := by
  constructor
  · rw [hoffset]
    exact hs.even
  · rw [hoffset]
    exact hs.lt
  · rw [hfault]
    exact hs.noFault

theorem OnScreen.congr (hs : OnScreen s) (hstill : next.still = s.still) : OnScreen next :=
  hs.of_eq (offset_of_still hstill) (fault_of_still hstill)

theorem setField_still (hindex : index < VD_ROWS * VD_COLS) (c : UInt8) :
    (s.setField index c).still = s.still := by
  simp [Screen.setField, Screen.still, Nat.not_le.mpr hindex]

theorem setVideo_still (hindex : index < VD_ROWS * VD_COLS) (c : UInt8) :
    (s.setVideo index c).still = s.still := by
  unfold Screen.setVideo
  split <;> simp [Screen.still, Nat.not_le.mpr hindex]

theorem put_still (hindex : index < VD_ROWS * VD_COLS) (c : UInt8) :
    (s.put index c).still = s.still := by
  rw [Screen.put, setVideo_still hindex, setField_still hindex]

theorem copyField_still {source : Nat} (hindex : index < VD_ROWS * VD_COLS)
    (hsource : source < VD_ROWS * VD_COLS) : (s.copyField index source).still = s.still := by
  simp [Screen.copyField, Screen.setField, Screen.still, Nat.not_le.mpr hindex, Nat.not_le.mpr hsource]

theorem blankCell_still (hindex : index + 1 < VD_ROWS * VD_COLS) :
    (s.blankCell index).still = s.still := by
  rw [Screen.blankCell, setField_still hindex, setField_still (by omega)]

theorem ttyRefresh_still (s : Screen) : (ttyRefresh s).still = s.still := by
  unfold ttyRefresh
  split <;> simp [Screen.still]

-- A loop over cells of the screen.
theorem foldl_still {turn : Screen → Nat → Screen} {indices : List Nat}
    (hturn : ∀ s, ∀ i ∈ indices, (turn s i).still = s.still) (s : Screen) :
    (indices.foldl turn s).still = s.still := by
  induction indices generalizing s with
  | nil => rfl
  | cons i rest ih =>
      rw [List.foldl_cons, ih fun s j hj => hturn s j (List.mem_cons_of_mem i hj)]
      exact hturn s i List.mem_cons_self

theorem scroll_still (s : Screen) : (scroll s).still = s.still := by
  unfold scroll
  rw [ttyRefresh_still, foldl_still, foldl_still]
  · intro s i hi
    have hlt := List.mem_range.mp hi
    simp only [VIDEO_BOTTOM, VD_ROWS, VD_COLS] at hlt
    apply copyField_still <;> simp only [VD_ROWS, VD_COLS] <;> omega
  · intro s i hi
    apply blankCell_still
    simp only [VIDEO_BOTTOM, VD_ROWS, VD_COLS]
    omega

theorem OnScreen.scroll (hs : OnScreen s) : OnScreen (scroll s) := hs.congr (scroll_still s)

-- The palette byte of the cursor's cell.
theorem OnScreen.cursor_lt (hs : OnScreen s) :
    (s.tty.cursorOffset + 1) % 2 ^ 32 < VD_ROWS * VD_COLS := by
  have heven := hs.even
  have hlt := hs.lt
  simp only [VD_ROWS, VD_COLS] at hlt ⊢
  omega

theorem OnScreen.clearCursor_still (hs : OnScreen s) : (clearCursor s).still = s.still :=
  put_still hs.cursor_lt _

theorem OnScreen.clearCursor (hs : OnScreen s) : OnScreen (clearCursor s) :=
  hs.congr hs.clearCursor_still

theorem OnScreen.drawCursor (hs : OnScreen s) : OnScreen (drawCursor s) := by
  refine hs.congr ?_
  unfold Tty.drawCursor
  split
  · exact put_still hs.cursor_lt _
  · rfl

theorem OnScreen.put (hs : OnScreen s) (hindex : index < VD_ROWS * VD_COLS) (c : UInt8) :
    OnScreen (s.put index c) :=
  hs.congr (put_still hindex c)

theorem OnScreen.setCursor (hs : OnScreen s) (heven : index % 2 = 0)
    (hlt : index < VD_ROWS * VD_COLS) : OnScreen (s.setCursor index) :=
  ⟨heven, hlt, hs.noFault⟩

theorem OnScreen.row_lt (hs : OnScreen s) : textGetCursorPosY s < VD_ROWS := by
  unfold textGetCursorPosY
  apply Nat.div_lt_of_lt_mul
  rw [Nat.mul_comm]
  exact hs.lt

theorem column_lt (s : Screen) : textGetCursorPosX s < VD_COLS / 2 := by
  unfold textGetCursorPosX
  simp only [VD_COLS]
  omega

theorem OnScreen.textSetCursorPos_of_lt (hs : OnScreen s)
    (hinside : (y * VD_COLS + x * 2) % 2 ^ 32 < VD_ROWS * VD_COLS) :
    OnScreen (textSetCursorPos s x y) := by
  unfold Tty.textSetCursorPos
  apply OnScreen.drawCursor
  apply hs.clearCursor.setCursor _ hinside
  simp only [VD_COLS]
  omega

theorem OnScreen.textSetCursorPos (hs : OnScreen s) (hx : x < VD_COLS / 2) (hy : y < VD_ROWS) :
    OnScreen (textSetCursorPos s x y) := by
  have hinside : y * VD_COLS + x * 2 < VD_ROWS * VD_COLS := by
    simp only [VD_ROWS, VD_COLS] at hx hy ⊢
    omega
  apply hs.textSetCursorPos_of_lt
  rw [Nat.mod_eq_of_lt (hinside.trans (by decide))]
  exact hinside

-- A backspace goes back one cell.
theorem OnScreen.backspace (hs : OnScreen s) (hcursor : s.tty.cursorOffset ≠ 0) :
    OnScreen (Tty.drawCursor (((Tty.clearCursor s).setCursor (toU32 (s.tty.cursorOffset - 2))).put
      (toU32 (s.tty.cursorOffset - 2)) 0x20)) := by
  have heven := hs.even
  have hlt := hs.lt
  have hback : toU32 (s.tty.cursorOffset - 2) = s.tty.cursorOffset - 2 := by
    unfold toU32
    simp only [VD_ROWS, VD_COLS] at hlt
    omega
  rw [hback]
  have hmoved : OnScreen ((Tty.clearCursor s).setCursor (s.tty.cursorOffset - 2)) := by
    apply hs.clearCursor.setCursor <;> omega
  exact (hmoved.put hmoved.lt 0x20).drawCursor

-- A character goes to the cursor's cell, and the cursor to the next one.
theorem OnScreen.character (hs : OnScreen s) (hlast : s.tty.cursorOffset < VIDEO_BOTTOM - 1) :
    OnScreen (Tty.drawCursor (s.setCursor ((s.tty.cursorOffset + 2) % 2 ^ 32))) := by
  have heven := hs.even
  simp only [VIDEO_BOTTOM, VD_ROWS, VD_COLS] at hlast
  apply OnScreen.drawCursor
  apply hs.setCursor
  · omega
  · simp only [VD_ROWS, VD_COLS]
    omega

theorem OnScreen.lastRow (hs : OnScreen s) :
    OnScreen (Tty.drawCursor (s.setCursor (VIDEO_BOTTOM - (VD_COLS - 1)))) := by
  apply OnScreen.drawCursor
  apply hs.setCursor <;> simp [VIDEO_BOTTOM, VD_ROWS, VD_COLS]

theorem OnScreen.putPlain (hs : OnScreen s) (c : UInt8) : OnScreen (putPlain s c) := by
  have hrow := hs.row_lt
  have hput := hs.clearCursor.put hs.lt c
  unfold Tty.putPlain
  dsimp only
  split
  · exact hs
  split
  · exact ⟨hs.even, hs.lt, hs.noFault⟩
  split
  · split
    · apply hs.clearCursor.scroll.textSetCursorPos <;> simp [VD_ROWS, VD_COLS]
    · rename_i hlast
      apply hs.textSetCursorPos
      · simp [VD_COLS]
      · omega
  split
  · split
    · exact hs
    · rename_i hcursor
      exact hs.backspace hcursor
  · split
    · split
      · exact hput.drawCursor
      · exact hput.scroll.lastRow
    · rename_i hlast
      exact hput.character (Nat.lt_of_not_le hlast)

-- The clamps of the four motions compare the unsigned numbers they go on with.
theorem OnScreen.cursorUp (hs : OnScreen s) : OnScreen (cursorUp s) := by
  have hrow := hs.row_lt
  unfold Tty.cursorUp
  apply hs.textSetCursorPos (column_lt s)
  simp only [toU32, VD_ROWS] at hrow ⊢
  split <;> omega

theorem OnScreen.cursorDown (hs : OnScreen s) : OnScreen (cursorDown s) := by
  have hrow := hs.row_lt
  unfold Tty.cursorDown
  apply hs.textSetCursorPos (column_lt s)
  by_cases hclamp : VD_ROWS - 1 < (textGetCursorPosY s + motion s) % 2 ^ 32
  · rw [if_pos hclamp]
    simp only [toU32, VD_ROWS] at hrow ⊢
    omega
  · rw [if_neg hclamp]
    omega

theorem OnScreen.cursorRight (hs : OnScreen s) : OnScreen (cursorRight s) := by
  have hcolumn := column_lt s
  unfold Tty.cursorRight
  refine hs.textSetCursorPos ?_ hs.row_lt
  by_cases hclamp : VD_COLS / 2 - 1 < (textGetCursorPosX s + motion s) % 2 ^ 32
  · rw [if_pos hclamp]
    simp only [toU32, VD_COLS] at hcolumn ⊢
    omega
  · rw [if_neg hclamp]
    omega

theorem OnScreen.cursorLeft (hs : OnScreen s) : OnScreen (cursorLeft s) := by
  have hcolumn := column_lt s
  unfold Tty.cursorLeft
  refine hs.textSetCursorPos ?_ hs.row_lt
  simp only [toU32, VD_COLS] at hcolumn ⊢
  split <;> omega

theorem coordinate_range {value limit : Int} {isDefault : Bool} (hgiven : Coordinate value isDefault)
    (hlimit : 0 < limit) :
    0 ≤ coordinate value isDefault limit ∧ coordinate value isDefault limit < limit := by
  have hnonneg : 0 ≤ if isDefault then 0 else toInt (value - 1) := by
    cases isDefault with
    | true => simp
    | false => simpa using hgiven rfl
  unfold coordinate
  dsimp only
  generalize (if isDefault then 0 else toInt (value - 1)) = decremented at hnonneg ⊢
  split <;> omega

theorem OnScreen.cursorHome (hs : OnScreen s) (hrow : Coordinate s.tty.escValue0 s.tty.escDefault0)
    (hcolumn : Coordinate s.tty.escValue1 s.tty.escDefault1) : OnScreen (cursorHome s) := by
  obtain ⟨hx, hxlt⟩ := coordinate_range hcolumn (show (0 : Int) < VD_COLS / 2 by decide)
  obtain ⟨hy, hylt⟩ := coordinate_range hrow (show (0 : Int) < VD_ROWS by decide)
  unfold Tty.cursorHome
  apply hs.textSetCursorPos
  · simp only [toU32, VD_COLS] at hx hxlt ⊢
    omega
  · simp only [toU32, VD_ROWS] at hy hylt ⊢
    omega

theorem OnScreen.textClearNoMove (hs : OnScreen s) : OnScreen (textClearNoMove s) := by
  unfold Tty.textClearNoMove
  refine OnScreen.congr (OnScreen.drawCursor ?_) (ttyRefresh_still _)
  refine hs.clearCursor.congr (foldl_still ?_ _)
  intro s i hi
  have hlt := List.mem_range.mp hi
  apply blankCell_still
  simp only [VIDEO_BOTTOM, VD_ROWS, VD_COLS] at hlt ⊢
  omega

theorem sgr_kept (s : Screen) :
    (sgr s).tty.cursorOffset = s.tty.cursorOffset ∧ (sgr s).fault = s.fault := by
  unfold sgr
  dsimp only
  split <;> split
  all_goals (try split) <;> simp

theorem OnScreen.sgr (hs : OnScreen s) : OnScreen (sgr s) :=
  hs.of_eq (sgr_kept s).1 (sgr_kept s).2

theorem OnScreen.ite {p : Prop} [Decidable p] (hs : OnScreen s) (hnext : OnScreen next) :
    OnScreen (if p then s else next) := by
  split
  · exact hs
  · exact hnext

-- One case for each final character. Only a position can leave the screen.
theorem OnScreen.finalChar (hs : OnScreen s) (hposition : c = 72 → OnScreen (Tty.cursorHome s)) :
    OnScreen (finalChar s c) := by
  unfold Tty.finalChar
  apply OnScreen.ite hs.cursorUp
  apply OnScreen.ite hs.cursorDown
  apply OnScreen.ite hs.cursorRight
  apply OnScreen.ite hs.cursorLeft
  by_cases hhome : c = 72
  · rw [if_pos hhome]
    exact hposition hhome
  rw [if_neg hhome]
  apply OnScreen.ite hs.sgr
  apply OnScreen.ite (OnScreen.ite hs.textClearNoMove hs)
  -- the modes do not move the cursor
  iterate 3
    refine OnScreen.ite ?_ ?_
    · exact hs.of_eq rfl rfl
  apply OnScreen.putPlain
  exact hs.of_eq rfl rfl

theorem digit_kept (s : Screen) (c : UInt8) :
    (digit s c).tty.cursorOffset = s.tty.cursorOffset ∧ (digit s c).fault = s.fault := by
  unfold digit
  split <;> exact ⟨rfl, rfl⟩

theorem OnScreen.textPutchar (hs : OnScreen s)
    (hposition : s.tty.escape = true → c = 72 → OnScreen (Tty.cursorHome s)) :
    OnScreen (textPutchar s c) := by
  unfold Tty.textPutchar
  split
  · rename_i hescape
    unfold escapeParse
    split
    · exact hs.of_eq (digit_kept s c).1 (digit_kept s c).2
    split
    · exact hs
    split
    · exact hs.of_eq rfl rfl
    · exact (hs.finalChar (hposition hescape)).of_eq rfl rfl
  · exact hs.putPlain c

-- From init_tty on, the cursor stays on the screen for every sequence of bytes that gives no
-- position in row or column 0.
theorem cursor_stays_on_screen (shown : Bool) (videoMem : Store) (bytes : List UInt8)
    (hgiven : Guarded step CoordinatesGiven (initTty shown videoMem) bytes) :
    Throughout step OnScreen (initTty shown videoMem) bytes := by
  refine hgiven.throughout ?_ ⟨by simp [initTty], by simp [initTty, VD_ROWS, VD_COLS], rfl⟩
  intro s c next hs hcoordinates hnext
  cases hnext
  apply hs.textPutchar
  intro hescape hhome
  obtain ⟨hrow, hcolumn⟩ := hcoordinates hescape hhome
  exact hs.cursorHome hrow hcolumn

-- A position in row 2 and column 3, then a character and a motion to the left.
theorem cursor_goes_to_position :
    Throughout step OnScreen (initTty true fun _ => 0) [27, 91, 50, 59, 51, 72, 120, 27, 91, 68] :=
  cursor_stays_on_screen true (fun _ => 0) _ (by decide)

-- Row 0 is decremented to -1, far past the screen.
theorem row_zero_leaves_screen :
    ¬ Throughout step OnScreen (initTty true fun _ => 0) [27, 91, 48, 59, 49, 72] := by
  decide

end EchidnaOS.Tty
