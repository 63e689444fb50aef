import EchidnaOS.Keyboard

namespace EchidnaOS

open EchidnaOS.Lib.ByteStore EchidnaOS.Lib.Run EchidnaOS.Tty

variable {beyond : Bool → Bool → UInt8 → UInt8} {s next : Keyboard} {which : WhichTty}
  {kb : KbBuffers} {c code : UInt8} {call : KbCall}

structure Bounded (s : Keyboard) : Prop where
  l1 : ∀ which, (s.buffers which).l1Index ≤ KB_L1_SIZE
  l2 : ∀ which, (s.buffers which).l2Index ≤ KB_L2_SIZE
  inside : s.overrun = false

-- The second buffer of the current tty has room for a character in raw mode, and for the
-- line, its newline and the byte behind it when a line ends. Nothing else matters.
def Fits (beyond : Bool → Bool → UInt8 → UInt8) (s : Keyboard) : KbCall → Prop
  | .key code => ∀ c, s.keyAction beyond code = .char c →
      if (s.tty s.current).raw then (s.buffers s.current).l2Index < KB_L2_SIZE
      else c = 0x0A →
        (s.buffers s.current).l2Index + ((s.buffers s.current).l1Index + 1) + 1 ≤ KB_L2_SIZE
  | _ => True

-- The same of what a scancode is taken for.
def ActionFits (s : Keyboard) : KeyAction → Prop
  | .char c =>
      if (s.tty s.current).raw then (s.buffers s.current).l2Index < KB_L2_SIZE
      else c = 0x0A →
        (s.buffers s.current).l2Index + ((s.buffers s.current).l1Index + 1) + 1 ≤ KB_L2_SIZE
  | _ => True

theorem fits_key_iff : Fits beyond s (.key code) ↔ ActionFits s (s.keyAction beyond code) := by
  cases haction : s.keyAction beyond code with
  | char c => simp [Fits, ActionFits, haction]
  | switch | capslock | shift | ctrl | ignored => simp [Fits, ActionFits, haction]

instance decidableActionFits (s : Keyboard) : DecidablePred (ActionFits s)
  | .char _ => inferInstanceAs (Decidable (ite _ _ _))
  | .switch _ | .capslock | .shift | .ctrl | .ignored => isTrue trivial

instance decidableFits (beyond : Bool → Bool → UInt8 → UInt8) (s : Keyboard) :
    DecidablePred (Fits beyond s)
  | .key _ => decidable_of_iff _ fits_key_iff.symm
  | .fetch _ | .console _ => isTrue trivial

-- Zeroed buffers and keys that are up, with any console.
def startKeyboard (console : Console) : Keyboard := { console := console }

theorem startKeyboard_bounded (console : Console) : Bounded (startKeyboard console) :=
  ⟨fun _ => Nat.zero_le _, fun _ => Nat.zero_le _, rfl⟩

theorem Bounded.of_eq (hs : Bounded s) (hbuffers : next.buffers = s.buffers)
    (hoverrun : next.overrun = s.overrun) : Bounded next := by
  refine ⟨?_, ?_, hoverrun.trans hs.inside⟩
  · rw [hbuffers]
    exact hs.l1
  · rw [hbuffers]
    exact hs.l2

-- Only the buffers that are replaced can break the bounds.
theorem Bounded.setBuffers_iff (hs : Bounded s) (overrun : Bool) :
    Bounded { s.setBuffers which kb with overrun := overrun } ↔
      kb.l1Index ≤ KB_L1_SIZE ∧ kb.l2Index ≤ KB_L2_SIZE ∧ overrun = false := by
  have hset : ∀ other, { s.setBuffers which kb with overrun := overrun }.buffers other =
      if other = which then kb else s.buffers other :=
    fun other => Function.update_apply _ _ _ other
  constructor
  · intro hbounded
    have hl1 := hbounded.l1 which
    have hl2 := hbounded.l2 which
    rw [hset, if_pos rfl] at hl1 hl2
    exact ⟨hl1, hl2, hbounded.inside⟩
  · rintro ⟨hl1, hl2, hinside⟩
    refine ⟨?_, ?_, hinside⟩
    · intro other
      rw [hset]
      split
      · exact hl1
      · exact hs.l1 other
    · intro other
      rw [hset]
      split
      · exact hl2
      · exact hs.l2 other

theorem Bounded.typeRaw_iff (hs : Bounded s) :
    Bounded (s.typeRaw c) ↔ (s.buffers s.current).l2Index < KB_L2_SIZE := by
  have hl1 := hs.l1 s.current
  have hl2 := hs.l2 s.current
  unfold Keyboard.typeRaw
  dsimp only
  rw [hs.setBuffers_iff, hs.inside, Bool.false_or, decide_eq_false_iff_not]
  simp only [KB_L2_SIZE] at hl2 ⊢
  omega

-- The guard of the handler protects the first buffer.
theorem Bounded.typeL1 (hs : Bounded s) (hguard : (s.buffers s.current).l1Index < KB_L1_SIZE)
    (c : UInt8) : Bounded (s.typeL1 c) := by
  have hl2 := hs.l2 s.current
  unfold Keyboard.typeL1
  dsimp only
  rw [hs.setBuffers_iff, hs.inside, Bool.false_or, decide_eq_false_iff_not]
  simp only [KB_L1_SIZE] at hguard ⊢
  refine ⟨by omega, hl2, by omega⟩

theorem Bounded.eraseL1 (hs : Bounded s) (hguard : (s.buffers s.current).l1Index < KB_L1_SIZE)
    (hne : (s.buffers s.current).l1Index ≠ 0) : Bounded s.eraseL1 := by
  have hl2 := hs.l2 s.current
  unfold Keyboard.eraseL1
  dsimp only
  rw [hs.setBuffers_iff, hs.inside, Bool.false_or, decide_eq_false_iff_not]
  simp only [KB_L1_SIZE] at hguard ⊢
  refine ⟨by omega, hl2, by omega⟩

theorem Bounded.flushLine_iff (hs : Bounded s) :
    Bounded s.flushLine ↔
      (s.buffers s.current).l2Index + (s.buffers s.current).l1Index + 1 ≤ KB_L2_SIZE := by
  have hl1 := hs.l1 s.current
  have hl2 := hs.l2 s.current
  unfold Keyboard.flushLine
  dsimp only
  rw [hs.setBuffers_iff, hs.inside, Bool.false_or, decide_eq_false_iff_not]
  simp only [KB_L1_SIZE, KB_L2_SIZE] at hl1 hl2 ⊢
  omega

theorem Bounded.putchar (hs : Bounded s) (c : UInt8) : Bounded (s.putchar c) := hs.of_eq rfl rfl

@[simp] theorem putchar_current (s : Keyboard) (c : UInt8) : (s.putchar c).current = s.current := rfl

@[simp] theorem putchar_buffers (s : Keyboard) (c : UInt8) : (s.putchar c).buffers = s.buffers := rfl

theorem keyAction_char (hchar : s.keyAction beyond code = .char c) :
    (s.buffers s.current).l1Index < KB_L1_SIZE := by
  unfold Keyboard.keyAction at hchar
  split at hchar
  · cases hchar
  split at hchar
  · cases hchar
  split at hchar
  · cases hchar
  split at hchar
  · cases hchar
  split at hchar
  · cases hchar
  split at hchar
  · rename_i htyped
    exact htyped.1
  · cases hchar

theorem typeL1_l2Index (s : Keyboard) (c : UInt8) :
    ((s.typeL1 c).buffers s.current).l2Index = (s.buffers s.current).l2Index := by
  simp [Keyboard.typeL1, Keyboard.setBuffers]

theorem typeL1_l1Index (hguard : (s.buffers s.current).l1Index < KB_L1_SIZE) (c : UInt8) :
    ((s.typeL1 c).buffers s.current).l1Index = (s.buffers s.current).l1Index + 1 := by
  simp only [Keyboard.typeL1, Keyboard.setBuffers, Function.update_self]
  simp only [KB_L1_SIZE] at hguard
  omega

theorem Bounded.newline_iff (hs : Bounded s)
    (hguard : (s.buffers s.current).l1Index < KB_L1_SIZE) :
    Bounded ((s.putchar c).typeL1 c).flushLine ↔
      (s.buffers s.current).l2Index + ((s.buffers s.current).l1Index + 1) + 1 ≤ KB_L2_SIZE := by
  have htyped := (hs.putchar c).typeL1 hguard c
  have hcurrent : ((s.putchar c).typeL1 c).current = s.current := rfl
  have hl1 : (((s.putchar c).typeL1 c).buffers s.current).l1Index =
      (s.buffers s.current).l1Index + 1 := typeL1_l1Index hguard c
  have hl2 : (((s.putchar c).typeL1 c).buffers s.current).l2Index =
      (s.buffers s.current).l2Index := typeL1_l2Index (s.putchar c) c
  rw [htyped.flushLine_iff, hcurrent, hl1, hl2]

theorem Bounded.typeChar_iff (hs : Bounded s)
    (hguard : (s.buffers s.current).l1Index < KB_L1_SIZE) :
    Bounded (s.typeChar c) ↔
      if (s.tty s.current).raw then (s.buffers s.current).l2Index < KB_L2_SIZE
      else c = 0x0A →
        (s.buffers s.current).l2Index + ((s.buffers s.current).l1Index + 1) + 1 ≤ KB_L2_SIZE := by
  unfold Keyboard.typeChar
  by_cases hraw : (s.tty s.current).raw = true
  · rw [if_pos hraw, if_pos hraw]
    exact hs.typeRaw_iff
  rw [if_neg hraw, if_neg hraw]
  by_cases hback : c = 0x08
  · rw [if_pos hback]
    refine iff_of_true ?_ ?_
    · split
      · exact hs
      · rename_i hne
        exact (hs.putchar c).eraseL1 hguard hne
    · intro hnewline
      rw [hback] at hnewline
      cases hnewline
  rw [if_neg hback]
  by_cases hnewline : c = 0x0A
  · rw [if_pos hnewline, hs.newline_iff hguard]
    exact ⟨fun h _ => h, fun h => h hnewline⟩
  · rw [if_neg hnewline]
    exact iff_of_true ((hs.putchar c).typeL1 hguard c) fun h => absurd h hnewline

-- Reading takes bytes out of a buffer.
theorem Bounded.fetch (hs : Bounded s) (which : WhichTty) :
    Bounded (keyboardFetchChar s which).2 := by
  unfold keyboardFetchChar
  dsimp only
  split
  · exact hs.of_eq rfl rfl
  split
  · have hset : Bounded { s.setBuffers which (s.buffers which).shift with overrun := s.overrun } :=
      (hs.setBuffers_iff s.overrun).mpr
        ⟨hs.l1 which, (Nat.sub_le _ _).trans (hs.l2 which), hs.inside⟩
    exact hset.of_eq rfl rfl
  split
  · exact hs.of_eq rfl rfl
  · exact hs.of_eq rfl rfl

-- A call keeps the bounds exactly when what it adds fits.
theorem Bounded.step_iff (hs : Bounded s) (call : KbCall) :
    (∀ next, kbStep beyond s call = some next → Bounded next) ↔ Fits beyond s call := by
  cases call with
  | fetch which =>
      refine iff_of_true ?_ trivial
      rintro next hnext
      cases hnext
      exact hs.fetch which
  | console call =>
      refine iff_of_true ?_ trivial
      intro next hnext
      obtain ⟨console, -, rfl⟩ := Option.map_eq_some_iff.mp hnext
      exact hs.of_eq rfl rfl
  | key code =>
      have hnext : (∀ next, kbStep beyond s (.key code) = some next → Bounded next) ↔
          Bounded (keyboardHandler beyond s code) := by
        simp [kbStep]
      rw [hnext, keyboardHandler, Fits]
      cases haction : s.keyAction beyond code with
      | char c =>
          have hguard := keyAction_char haction
          dsimp only
          rw [hs.typeChar_iff hguard]
          simp
      | switch | capslock | shift | ctrl | ignored =>
          refine iff_of_true (hs.of_eq rfl rfl) ?_
          intro c hc
          cases hc

theorem Bounded.throughout_iff (hs : Bounded s) (calls : List KbCall) :
    Throughout (kbStep beyond) Bounded s calls ↔ Guarded (kbStep beyond) (Fits beyond) s calls :=
  throughout_iff_guarded (fun _ _ _ _ _ _ => trivial) (fun _ call (_ : True) hs => hs.step_iff call)
    trivial hs

-- Over a whole run, the buffers are in bounds if and only if everything typed fits the second
-- buffer when it is typed.
theorem keyboard_bounded_iff (console : Console) (calls : List KbCall) :
    Throughout (kbStep beyond) Bounded (startKeyboard console) calls ↔
      Guarded (kbStep beyond) (Fits beyond) (startKeyboard console) calls :=
  (startKeyboard_bounded console).throughout_iff calls

-- ESC [ r on the first tty, which makes it raw.
def rawCalls : List KbCall :=
  [.console (.putchar tty0 27), .console (.putchar tty0 91), .console (.putchar tty0 114)]

-- A raw tty that is shown, after `count` characters, with the modifiers up.
structure RawAfter (s : Keyboard) (count : Nat) : Prop where
  raw : (s.tty s.current).raw = true
  l1 : (s.buffers s.current).l1Index = 0
  l2 : (s.buffers s.current).l2Index = count
  shift : s.shiftActive = false
  ctrl : s.ctrlActive = false

-- The key 1
def KEY_1 : UInt8 := 2

theorem RawAfter.handler_eq {count : Nat} (hs : RawAfter s count) :
    keyboardHandler beyond s KEY_1 = s.typeRaw (s.keyChar beyond KEY_1) := by
  have hguard : (s.buffers s.current).l1Index < KB_L1_SIZE := by
    rw [hs.l1]
    decide
  have haction : s.keyAction beyond KEY_1 = .char (s.keyChar beyond KEY_1) := by
    simp [Keyboard.keyAction, Keyboard.hotkey, hs.shift, hs.ctrl, hguard, KEY_1, CAPSLOCK,
      LEFT_SHIFT, RIGHT_SHIFT, LEFT_SHIFT_REL, RIGHT_SHIFT_REL, LEFT_CTRL, LEFT_CTRL_REL, MAX_CODE]
  rw [keyboardHandler, haction]
  exact if_pos hs.raw

theorem RawAfter.press {count : Nat} (hs : RawAfter s count) (hcount : count < KB_L2_SIZE) :
    RawAfter (keyboardHandler beyond s KEY_1) (count + 1) := by
  rw [hs.handler_eq]
  have hcurrent : (s.typeRaw (s.keyChar beyond KEY_1)).current = s.current := rfl
  constructor
  · exact hs.raw
  · rw [hcurrent]
    simp [Keyboard.typeRaw, Keyboard.setBuffers, hs.l1]
  · rw [hcurrent]
    simp only [Keyboard.typeRaw, Keyboard.setBuffers, Function.update_self, hs.l2]
    simp only [KB_L2_SIZE] at hcount
    omega
  · exact hs.shift
  · exact hs.ctrl

theorem RawAfter.presses {count presses : Nat} (hs : RawAfter s count)
    (hcount : count + presses ≤ KB_L2_SIZE) :
    ∃ final, run (kbStep beyond) s (List.replicate presses (.key KEY_1)) = some final ∧
      RawAfter final (count + presses) := by
  induction presses generalizing s count with
  | zero => exact ⟨s, rfl, hs⟩
  | succ presses ih =>
      obtain ⟨final, hrun, hfinal⟩ := ih (hs.press (by omega)) (by omega)
      rw [Nat.add_right_comm, Nat.add_assoc] at hfinal
      exact ⟨final, hrun, hfinal⟩

-- 2048 characters fill the second buffer of a raw tty that nobody reads, and one more is
-- written behind it.
theorem raw_keys_run_over (beyond : Bool → Bool → UInt8 → UInt8) :
    ¬Throughout (kbStep beyond) Bounded (startKeyboard (startConsole fun _ => 0))
      (rawCalls ++ List.replicate KB_L2_SIZE (.key KEY_1) ++ [.key KEY_1]) := by
  intro hall
  have hraw : ∃ s, run (kbStep beyond) (startKeyboard (startConsole fun _ => 0)) rawCalls = some s ∧
      RawAfter s 0 := ⟨_, rfl, rfl, rfl, rfl, rfl, rfl⟩
  obtain ⟨s, hstart, hs⟩ := hraw
  obtain ⟨full, hfill, hfull⟩ := @RawAfter.presses beyond s 0 KB_L2_SIZE hs (by simp)
  have hrun : run (kbStep beyond) (startKeyboard (startConsole fun _ => 0))
      (rawCalls ++ List.replicate KB_L2_SIZE (.key KEY_1) ++ [.key KEY_1]) =
        some (keyboardHandler beyond full KEY_1) := by
    rw [run_append, run_append, hstart, Option.bind_some, hfill]
    rfl
  have hinside := (hall.final hrun).inside
  rw [hfull.handler_eq] at hinside
  simp [Keyboard.typeRaw, hfull.l2] at hinside

theorem raw_keys_overrun :
    ¬Throughout (kbStep fun _ _ _ => 0) Bounded (startKeyboard (startConsole fun _ => 0))
      (rawCalls ++ List.replicate KB_L2_SIZE (.key KEY_1) ++ [.key KEY_1]) :=
  raw_keys_run_over _

end EchidnaOS
