import EchidnaOS.Keyboard.EndOfLine

namespace EchidnaOS

open EchidnaOS.Lib EchidnaOS.Lib.ByteStore EchidnaOS.Lib.Run EchidnaOS.Tty

variable {beyond : Bool → Bool → UInt8 → UInt8} {s next : Keyboard} {which : WhichTty}
  {c code : UInt8}
  {kb : KbBuffers} {call : KbCall}

-- The characters of the line that is being typed.
def KbBuffers.line (kb : KbBuffers) : List UInt8 := read kb.l1 0 kb.l1Index

-- The input that waits to be read.
def KbBuffers.unread (kb : KbBuffers) : List UInt8 := read kb.l2 0 kb.l2Index

@[simp] theorem line_length (kb : KbBuffers) : kb.line.length = kb.l1Index := by
  simp [KbBuffers.line]

@[simp] theorem unread_length (kb : KbBuffers) : kb.unread.length = kb.l2Index := by
  simp [KbBuffers.unread]

-- The new line after a character, and what goes to the reader.
def editLine (line : List UInt8) (c : UInt8) : List UInt8 :=
  if c = 0x08 then line.dropLast else if c = 0x0A then [] else line ++ [c]

def submit (line : List UInt8) (c : UInt8) : List UInt8 := if c = 0x0A then line ++ [c] else []

section Cooked

variable (hroom : (s.buffers s.current).l1Index < KB_L1_SIZE)

include hroom

theorem typeL1_line (c : UInt8) :
    ((s.typeL1 c).buffers s.current).line = (s.buffers s.current).line ++ [c] := by
  have hindex := typeL1_l1Index hroom c
  rw [KbBuffers.line, hindex]
  simp only [Keyboard.typeL1, Keyboard.setBuffers, Function.update_self]
  exact read_update_end _ _ c

theorem eraseL1_line (hne : (s.buffers s.current).l1Index ≠ 0) :
    (s.eraseL1.buffers s.current).line = (s.buffers s.current).line.dropLast := by
  simp only [KB_L1_SIZE] at hroom
  have hindex : ((s.buffers s.current).l1Index + (2 ^ 16 - 1)) % 2 ^ 16 =
      (s.buffers s.current).l1Index - 1 := by
    omega
  simp only [KbBuffers.line, Keyboard.eraseL1, Keyboard.setBuffers, Function.update_self, hindex]
  rw [read_update_behind _ (Nat.sub_le _ 1), List.dropLast_eq_take, read_length,
    read_take _ _ (Nat.sub_le _ 1)]

end Cooked

@[simp] theorem typeL1_unread (s : Keyboard) (c : UInt8) :
    ((s.typeL1 c).buffers s.current).unread = (s.buffers s.current).unread := by
  simp [Keyboard.typeL1, Keyboard.setBuffers, KbBuffers.unread]

@[simp] theorem eraseL1_unread (s : Keyboard) :
    (s.eraseL1.buffers s.current).unread = (s.buffers s.current).unread := by
  simp [Keyboard.eraseL1, Keyboard.setBuffers, KbBuffers.unread]

@[simp] theorem flushLine_line (s : Keyboard) : (s.flushLine.buffers s.current).line = [] := by
  simp [Keyboard.flushLine, Keyboard.setBuffers, KbBuffers.line, ByteStore.read]

-- The byte behind the line lands behind the unread input.
theorem flushLine_unread (hl1 : (s.buffers s.current).l1Index ≤ KB_L1_SIZE)
    (hl2 : (s.buffers s.current).l2Index + (s.buffers s.current).l1Index < 2 ^ 16) :
    (s.flushLine.buffers s.current).unread =
      (s.buffers s.current).unread ++ (s.buffers s.current).line := by
  simp only [KbBuffers.unread, KbBuffers.line, Keyboard.flushLine, Keyboard.setBuffers,
    Function.update_self, Nat.mod_eq_of_lt hl2]
  rw [read_blit_end _ _ (Nat.le_succ _)]
  congr 1
  apply read_congr
  intro address _ haddress
  exact if_pos (by omega)

-- A character typed on a cooked tty whose line has room.
structure Typed (kb next : KbBuffers) (c : UInt8) : Prop where
  line : next.line = editLine kb.line c
  unread : next.unread = kb.unread ++ submit kb.line c

theorem typeChar_typed (hcooked : (s.tty s.current).raw = false)
    (hroom : (s.buffers s.current).l1Index < KB_L1_SIZE)
    (hunread : (s.buffers s.current).l2Index ≤ KB_L2_SIZE) (c : UInt8) :
    Typed (s.buffers s.current) ((s.typeChar c).buffers s.current) c := by
  have hline : (((s.putchar c).typeL1 c).buffers s.current).line = (s.buffers s.current).line ++ [c] :=
    typeL1_line (s := s.putchar c) hroom c
  have hkept : (((s.putchar c).typeL1 c).buffers s.current).unread = (s.buffers s.current).unread :=
    typeL1_unread (s.putchar c) c
  unfold Keyboard.typeChar
  rw [if_neg (by simp [hcooked])]
  by_cases hback : c = 0x08
  · subst hback
    by_cases hempty : (s.buffers s.current).l1Index = 0
    · have hnil : (s.buffers s.current).line = [] := List.length_eq_zero_iff.mp (by simp [hempty])
      simp only [if_pos, hempty]
      exact ⟨by simp [editLine, hnil], by simp [submit]⟩
    · simp only [if_pos, if_neg hempty]
      refine ⟨?_, ?_⟩
      · rw [editLine, if_pos rfl]
        exact eraseL1_line (s := s.putchar 0x08) hroom hempty
      · have hsame := eraseL1_unread (s.putchar 0x08)
        simpa [submit] using hsame
  · rw [if_neg hback]
    by_cases hnewline : c = 0x0A
    · subst hnewline
      rw [if_pos rfl]
      refine ⟨?_, ?_⟩
      · exact flushLine_line ((s.putchar 0x0A).typeL1 0x0A)
      · have hl1 := typeL1_l1Index (s := s.putchar 0x0A) hroom 0x0A
        have hl2 := typeL1_l2Index (s.putchar 0x0A) 0x0A
        simp only [putchar_current, putchar_buffers] at hl1 hl2
        rw [submit, if_pos rfl, ← hline, ← hkept]
        simp only [KB_L1_SIZE, KB_L2_SIZE] at hroom hunread
        apply flushLine_unread (s := (s.putchar 0x0A).typeL1 0x0A)
        · exact (Nat.le_of_eq hl1).trans hroom
        · rw [show ((s.putchar 0x0A).typeL1 0x0A).current = s.current by rfl]
          omega
    · rw [if_neg hnewline]
      exact ⟨by rw [hline, editLine, if_neg hback, if_neg hnewline], by simp [hkept, submit, hnewline]⟩

-- No line is longer than its buffer, whatever happened to the second one.
def LinesFit (s : Keyboard) : Prop := ∀ which, (s.buffers which).l1Index ≤ KB_L1_SIZE

theorem LinesFit.update (hs : LinesFit s) (hbuffers : next.buffers = Function.update s.buffers which kb)
    (hkb : kb.l1Index ≤ KB_L1_SIZE) : LinesFit next := by
  intro other
  by_cases hother : other = which
  · simp [hbuffers, hother, hkb]
  · simp [hbuffers, hother, hs other]

theorem LinesFit.typeL1 (hs : LinesFit s) (hroom : (s.buffers s.current).l1Index < KB_L1_SIZE)
    (c : UInt8) : LinesFit (s.typeL1 c) := by
  apply hs.update rfl
  simp only [KB_L1_SIZE] at hroom ⊢
  omega

theorem LinesFit.typeChar (hs : LinesFit s) (hroom : (s.buffers s.current).l1Index < KB_L1_SIZE)
    (c : UInt8) : LinesFit (s.typeChar c) := by
  have hshown : LinesFit (s.putchar c) := hs
  have htyped : LinesFit ((s.putchar c).typeL1 c) := hshown.typeL1 hroom c
  unfold Keyboard.typeChar
  split
  · exact hs.update rfl (hs s.current)
  split
  · split
    · exact hs
    · next hne =>
        apply hshown.update rfl
        simp only [putchar_current, putchar_buffers, KB_L1_SIZE] at hroom ⊢
        omega
  split
  · exact htyped.update rfl (Nat.zero_le _)
  · exact htyped

theorem LinesFit.step (hs : LinesFit s) (hstep : kbStep beyond s call = some next) : LinesFit next := by
  cases call with
  | fetch which =>
      cases hstep
      unfold keyboardFetchChar
      dsimp only
      split
      · exact hs
      split
      · exact hs.update rfl (hs which)
      split
      · exact hs
      · exact hs
  | console call =>
      obtain ⟨console, -, rfl⟩ := Option.map_eq_some_iff.mp hstep
      exact hs
  | key code =>
      cases hstep
      unfold keyboardHandler
      cases haction : s.keyAction beyond code with
      | char c => exact hs.typeChar (keyAction_char haction) c
      | switch | capslock | shift | ctrl | ignored => exact hs

-- A key that types the same character whatever the modifiers are.
structure FixedKey (code c : UInt8) : Prop where
  hotkey : hotkeys.lookup code = none
  plain : code ∉ [0x2e, CAPSLOCK, LEFT_SHIFT, RIGHT_SHIFT, LEFT_SHIFT_REL, RIGHT_SHIFT_REL, LEFT_CTRL,
    LEFT_CTRL_REL]
  code_lt : code < MAX_CODE
  tables : ∀ table ∈ [asciiNomod, asciiShift, asciiShiftCapslock, asciiCapslock],
    table[code.toNat]? = some c

theorem FixedKey.charKey (hkey : FixedKey code c) (s : Keyboard) : s.charKey beyond code = some c := by
  have hplain := hkey.plain
  have htables := hkey.tables
  have hempty : 0 < KB_L1_SIZE := by decide
  simp only [List.mem_cons, List.not_mem_nil, or_false, not_or] at hplain
  simp only [List.forall_mem_cons] at htables
  have hchar : s.keyChar beyond code = c := by
    unfold Keyboard.keyChar
    cases s.shiftActive <;> cases s.capslockActive <;> simp [List.getD, htables]
  have hhotkey : s.hotkey code = none := by
    simp [Keyboard.hotkey, hkey.hotkey]
  have haction : { s with buffers := fun _ => {} }.keyAction beyond code = .char c := by
    have hchar : { s with buffers := fun _ => {} }.keyChar beyond code = c := hchar
    have hhotkey : { s with buffers := fun _ => {} }.hotkey code = none := hhotkey
    simp [Keyboard.keyAction, hhotkey, hchar, hplain, hempty, hkey.code_lt]
  rw [Keyboard.charKey, haction]

def KEY_BACKSPACE : UInt8 := 0x0E

def KEY_ALT : UInt8 := 0x38

theorem enter_key : FixedKey KEY_ENTER 0x0A := ⟨by decide, by decide, by decide, by decide⟩

theorem backspace_key : FixedKey KEY_BACKSPACE 0x08 := ⟨by decide, by decide, by decide, by decide⟩

theorem alt_key : FixedKey KEY_ALT 0 := ⟨by decide, by decide, by decide, by decide⟩

-- The whole line and a newline go to the reader, and the next line is empty.
structure Submitted (kb next : KbBuffers) : Prop where
  unread : next.unread = kb.unread ++ kb.line ++ [0x0A]
  empty : next.l1Index = 0

structure Shortened (kb next : KbBuffers) : Prop where
  index : next.l1Index + 1 = kb.l1Index
  line : next.line = kb.line.dropLast
  unread : next.unread = kb.unread

-- Room for the line, its newline, and the byte that is copied behind it.
def HasRoom (kb : KbBuffers) : Prop := kb.l2Index + (kb.l1Index + 1) + 1 ≤ KB_L2_SIZE

instance decidableHasRoom (kb : KbBuffers) : Decidable (HasRoom kb) :=
  inferInstanceAs (Decidable (_ ≤ _))

-- The tty in front has room, and no tty has been written to behind its buffers.
structure Roomy (s : Keyboard) : Prop where
  room : HasRoom (s.buffers s.current)
  inside : s.overrun = false

-- Enter and Backspace do their work on the line.
structure LineKeys (beyond : Bool → Bool → UInt8 → UInt8) (s : Keyboard) : Prop where
  enter : Submitted (s.buffers s.current) ((keyboardHandler beyond s KEY_ENTER).buffers s.current)
  backspace : (s.buffers s.current).l1Index ≠ 0 →
    Shortened (s.buffers s.current) ((keyboardHandler beyond s KEY_BACKSPACE).buffers s.current)

theorem Typed.index {kb next : KbBuffers} (htyped : Typed kb next c) :
    next.l1Index = (editLine kb.line c).length := by
  rw [← htyped.line, line_length]

theorem lineKeys_iff_room (hcooked : (s.tty s.current).raw = false)
    (hroom : HasRoom (s.buffers s.current)) :
    LineKeys beyond s ↔ (s.buffers s.current).l1Index < KB_L1_SIZE := by
  constructor
  · intro hkeys
    by_contra hfull
    have hsame : keyboardHandler beyond s KEY_ENTER = s := by
      rw [keyboardHandler_charKey (enter_key.charKey s), Keyboard.press, if_neg hfull]
    have hempty := hkeys.enter.empty
    rw [hsame] at hempty
    simp [hempty, KB_L1_SIZE] at hfull
  · intro hopen
    have hunread : (s.buffers s.current).l2Index ≤ KB_L2_SIZE := by
      unfold HasRoom at hroom
      omega
    have htyped := typeChar_typed hcooked hopen hunread
    constructor
    · rw [keyboardHandler_charKey (enter_key.charKey s), Keyboard.press, if_pos hopen]
      refine ⟨?_, ?_⟩
      · simpa [submit] using (htyped 0x0A).unread
      · simpa [editLine] using (htyped 0x0A).index
    · intro hne
      rw [keyboardHandler_charKey (backspace_key.charKey s), Keyboard.press, if_pos hopen]
      refine ⟨?_, ?_, ?_⟩
      · have hindex := (htyped 0x08).index
        simp only [editLine, if_true, List.length_dropLast, line_length] at hindex
        omega
      · simpa [editLine] using (htyped 0x08).line
      · simpa [submit] using (htyped 0x08).unread

-- In every state of a run that has a cooked tty in front, a full line alone is stuck.
theorem lineKeys_iff (console : Console) (calls : List KbCall) (s : Keyboard)
    (hrun : run (kbStep beyond) (startKeyboard console) calls = some s)
    (hcooked : (s.tty s.current).raw = false) (hroom : Roomy s) :
    LineKeys beyond s ↔ (s.buffers s.current).l1Index ≠ KB_L1_SIZE := by
  have hfit : LinesFit s :=
    run_always (fun _ _ _ hs hstep => hs.step hstep) (fun _ => Nat.zero_le KB_L1_SIZE) hrun
  rw [lineKeys_iff_room hcooked hroom.room]
  have hle := hfit s.current
  omega

theorem lineKeys_alt : LineKeys noTable
    (keyboardHandler noTable (startKeyboard (startConsole fun _ => 0)) KEY_ALT) :=
  (lineKeys_iff (startConsole fun _ => 0) [.key KEY_ALT] _ rfl (by decide) ⟨by decide, rfl⟩).mpr
    (by decide)

-- A cooked tty in front, with a line of `count` characters and nothing behind it.
structure CookedAfter (s : Keyboard) (count : Nat) : Prop where
  tty : s.tty s.current = { field := initField }
  l1 : (s.buffers s.current).l1Index = count
  l2 : (s.buffers s.current).l2Index = 0
  inside : s.overrun = false

-- A NUL is not shown, so it leaves the tty alone.
theorem CookedAfter.press {count : Nat} (hs : CookedAfter s count) (hcount : count < KB_L1_SIZE) :
    CookedAfter (keyboardHandler beyond s KEY_ALT) (count + 1) := by
  have hroom : (s.buffers s.current).l1Index < KB_L1_SIZE := by
    rw [hs.l1]
    exact hcount
  have hcooked : (s.tty s.current).raw = false := by rw [hs.tty]
  have htyped : keyboardHandler beyond s KEY_ALT = (s.putchar 0).typeL1 0 := by
    rw [keyboardHandler_charKey (alt_key.charKey s), Keyboard.press, if_pos hroom]
    simp [Keyboard.typeChar, hcooked]
  have htty : (s.putchar 0).tty s.current = s.tty s.current := by
    have hescape : (s.tty s.current).escape = false := by rw [hs.tty]
    have hplain : textPutchar (s.console.screen s.current) 0 = s.console.screen s.current := by
      rw [textPutchar, if_neg (by simp [Console.screen, show s.console.ttys = s.tty by rfl, hescape])]
      simp [putPlain]
    simp only [Keyboard.tty, Keyboard.putchar, Console.onTty, Function.update_self, hplain]
    rfl
  rw [htyped]
  constructor
  · exact htty.trans hs.tty
  · exact (typeL1_l1Index (s := s.putchar 0) hroom 0).trans (congrArg (· + 1) hs.l1)
  · exact (typeL1_l2Index (s.putchar 0) 0).trans hs.l2
  · have hinside : decide (KB_L1_SIZE ≤ (s.buffers s.current).l1Index) = false := by simpa using hroom
    exact (congrArg₂ (· || ·) hs.inside hinside)

theorem CookedAfter.presses {count presses : Nat} (hs : CookedAfter s count)
    (hcount : count + presses ≤ KB_L1_SIZE) :
    ∃ final, run (kbStep beyond) s (List.replicate presses (.key KEY_ALT)) = some final ∧
      CookedAfter final (count + presses) := by
  induction presses generalizing s count with
  | zero => exact ⟨s, rfl, hs⟩
  | succ presses ih =>
      obtain ⟨final, hrun, hfinal⟩ := ih (hs.press (by omega)) (by omega)
      rw [Nat.add_right_comm, Nat.add_assoc] at hfinal
      exact ⟨final, hrun, hfinal⟩

-- 256 characters without Enter, and neither Enter nor Backspace does anything.
theorem full_line_stuck : ¬∀ (console : Console) (calls : List KbCall) (s : Keyboard),
    run (kbStep noTable) (startKeyboard console) calls = some s →
      (s.tty s.current).raw = false → Roomy s → LineKeys noTable s := by
  intro hall
  obtain ⟨s, hrun, hs⟩ := @CookedAfter.presses noTable (startKeyboard (startConsole fun _ => 0)) 0
    KB_L1_SIZE ⟨rfl, rfl, rfl, rfl⟩ (Nat.le_of_eq (Nat.zero_add _))
  rw [Nat.zero_add] at hs
  have hcooked : (s.tty s.current).raw = false := by rw [hs.tty]
  have hroom : HasRoom (s.buffers s.current) := by
    rw [HasRoom, hs.l1, hs.l2]
    decide
  have hkeys := (lineKeys_iff_room hcooked hroom).mp (hall _ _ s hrun hcooked ⟨hroom, hs.inside⟩)
  rw [hs.l1] at hkeys
  exact absurd hkeys (Nat.lt_irrefl _)

end EchidnaOS
