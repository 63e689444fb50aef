import EchidnaOS.Keyboard.Bounds
import EchidnaOS.Lib.Observer
import EchidnaOS.Tty.SameTty

namespace EchidnaOS

open EchidnaOS.Lib.ByteStore EchidnaOS.Lib.Run EchidnaOS.Lib.Observer EchidnaOS.Devfs EchidnaOS.Tty

-- What happens on a tty: a character key pressed while it is shown, whether or not the line
-- has room for it, a call of keyboard_fetch_char, and an operation of tty.c.
inductive TtyInput where
  | press (c : UInt8)
  | fetch
  | output (call : ConsoleCall)

-- The character of a key, which is the one that an empty line takes.
def Keyboard.charKey (beyond : Bool → Bool → UInt8 → UInt8) (s : Keyboard) (code : UInt8) :
    Option UInt8 :=
  match { s with buffers := fun _ => {} }.keyAction beyond code with
  | .char c => some c
  | _ => none

def Keyboard.press (s : Keyboard) (c : UInt8) : Keyboard :=
  if (s.buffers s.current).l1Index < KB_L1_SIZE then s.typeChar c else s

-- A tty with a keyboard to itself.
def ownKeyboard (which : WhichTty) (s : Keyboard) : TtyInput → Option Int × Keyboard
  | .press c => (none, s.press c)
  | .fetch => ((keyboardFetchChar s which).1, (keyboardFetchChar s which).2)
  | .output call => (none, { s with console := s.console.onTty which call.op })

-- What a tty sees of a run, and the results of its fetches.
def ttyView (beyond : Bool → Bool → UInt8 → UInt8) (which : WhichTty) :
    View Keyboard KbCall TtyInput Int where
  input s
    | .key code => if s.current = which then (s.charKey beyond code).map .press else none
    | .fetch other => if other = which then some .fetch else none
    | .console call => if call.target = some which then some (.output call) else none
  output s
    | .fetch other => if other = which then some (keyboardFetchChar s which).1 else none
    | _ => none

-- A fetch that finds the end of a line is for the tty that the line was read on, as far as
-- `which` is concerned.
def OwnEol (which : WhichTty) (s : Keyboard) : KbCall → Prop
  | .fetch other => s.isEof = true → (s.lastFetch = some which ↔ other = which)
  | _ => True

instance decidableOwnEol (which : WhichTty) (s : Keyboard) (call : KbCall) :
    Decidable (OwnEol which s call) := by
  cases call with
  | fetch other =>
      exact inferInstanceAs (Decidable (s.isEof = true → (s.lastFetch = some which ↔ other = which)))
  | key | console => exact isTrue trivial

-- Beside that, nothing is written over the records of the ttys: what is typed fits its buffers, and
-- no cursor has left the screen.
def KeepsApart (beyond : Bool → Bool → UInt8 → UInt8) (which : WhichTty) (s : Keyboard)
    (call : KbCall) : Prop :=
  OwnEol which s call ∧ Fits beyond s call ∧ OffsetsBelow s.console

instance decidableKeepsApart (beyond : Bool → Bool → UInt8 → UInt8) (which : WhichTty) (s : Keyboard)
    (call : KbCall) : Decidable (KeepsApart beyond which s call) :=
  inferInstanceAs (Decidable (_ ∧ _))

-- A keyboard shows a tty what the tty's own keyboard does.
structure Shows (which : WhichTty) (s own : Keyboard) : Prop where
  current : own.current = which
  tty : own.tty which = s.tty which
  buffers : own.buffers which = s.buffers which
  eol : own.isEof = true ↔ s.isEof = true ∧ s.lastFetch = some which

-- Nothing that a tty sees changes.
structure LeavesTty (which : WhichTty) (s next : Keyboard) : Prop where
  tty : next.tty which = s.tty which
  buffers : next.buffers which = s.buffers which
  eof : next.isEof = s.isEof
  lastFetch : next.lastFetch = s.lastFetch

variable {beyond : Bool → Bool → UInt8 → UInt8} {which other : WhichTty} {s next final own : Keyboard}
  {c code : UInt8} {kb : KbBuffers} {call : ConsoleCall}

theorem LeavesTty.trans (hs : LeavesTty which s next) (hnext : LeavesTty which next final) :
    LeavesTty which s final :=
  ⟨hnext.tty.trans hs.tty, hnext.buffers.trans hs.buffers, hnext.eof.trans hs.eof,
    hnext.lastFetch.trans hs.lastFetch⟩

theorem Shows.leave (hshows : Shows which s own) (hleaves : LeavesTty which s next) :
    Shows which next own := by
  refine ⟨hshows.current, hshows.tty.trans hleaves.tty.symm,
    hshows.buffers.trans hleaves.buffers.symm, ?_⟩
  rw [hleaves.eof, hleaves.lastFetch]
  exact hshows.eol

theorem setBuffers_leaves (hother : other ≠ which) (kb : KbBuffers) (overrun : Bool) :
    LeavesTty which s { s.setBuffers other kb with overrun := overrun } :=
  ⟨rfl, Function.update_of_ne (Ne.symm hother) _ _, rfl, rfl⟩

theorem onTty_leaves (hother : other ≠ which) (op : Screen → Screen) :
    LeavesTty which s { s with console := s.console.onTty other op } :=
  ⟨Function.update_of_ne (Ne.symm hother) _ _, rfl, rfl, rfl⟩

theorem typeChar_leaves (hcurrent : s.current ≠ which) (c : UInt8) :
    LeavesTty which s (s.typeChar c) := by
  have hshown : LeavesTty which s (s.putchar c) := onTty_leaves hcurrent _
  have htyped : LeavesTty which s ((s.putchar c).typeL1 c) :=
    hshown.trans (setBuffers_leaves hcurrent _ _)
  unfold Keyboard.typeChar
  split
  · exact setBuffers_leaves hcurrent _ _
  split
  · split
    · exact ⟨rfl, rfl, rfl, rfl⟩
    · exact hshown.trans (setBuffers_leaves hcurrent _ _)
  split
  · exact htyped.trans (setBuffers_leaves hcurrent _ _)
  · exact htyped

-- A switch refreshes the screen, not the tty.
theorem switchTty_leaves (s : Keyboard) (other which : WhichTty) :
    LeavesTty which s { s with console := switchTty s.console other } := by
  refine ⟨?_, rfl, rfl, rfl⟩
  simp only [Keyboard.tty, switchTty, Console.onTty, ttyRefresh_tty]
  by_cases heq : which = other
  · rw [heq, Function.update_self]
    rfl
  · rw [Function.update_of_ne heq]

-- The room in the line decides whether the character of a key is taken, and nothing else.
theorem keyAction_eq (beyond : Bool → Bool → UInt8 → UInt8) (s : Keyboard) (code : UInt8) :
    s.keyAction beyond code =
      match s.charKey beyond code with
      | some c => if (s.buffers s.current).l1Index < KB_L1_SIZE then .char c else .ignored
      | none => { s with buffers := fun _ => {} }.keyAction beyond code := by
  have hempty : (0 : Nat) < KB_L1_SIZE := by decide
  unfold Keyboard.charKey Keyboard.keyAction
  simp only [Keyboard.hotkey, Keyboard.keyChar, hempty, true_and]
  cases hlookup : (if s.shiftActive = true then hotkeys.lookup code else none) with
  | some which => rfl
  | none =>
      dsimp only
      split
      · rfl
      split
      · rfl
      split
      · rfl
      split
      · rfl
      by_cases hcode : code < MAX_CODE
      · simp only [hcode, and_true, if_true]
      · simp only [hcode, and_false, if_false]

theorem keyAction_ne_char (hnone : s.charKey beyond code = none) (c : UInt8) :
    { s with buffers := fun _ => {} }.keyAction beyond code ≠ .char c := by
  intro hchar
  rw [Keyboard.charKey, hchar] at hnone
  cases hnone

theorem keyboardHandler_charKey (hkey : s.charKey beyond code = some c) :
    keyboardHandler beyond s code = s.press c := by
  rw [keyboardHandler, keyAction_eq, hkey, Keyboard.press]
  by_cases hroom : (s.buffers s.current).l1Index < KB_L1_SIZE
  · simp only [if_pos hroom]
  · simp only [if_neg hroom]

theorem keyboardHandler_leaves (hkey : s.charKey beyond code = none) (which : WhichTty) :
    LeavesTty which s (keyboardHandler beyond s code) := by
  rw [keyboardHandler, keyAction_eq, hkey]
  dsimp only
  cases haction : { s with buffers := fun _ => {} }.keyAction beyond code with
  | char c => exact absurd haction (keyAction_ne_char hkey c)
  | switch other => exact switchTty_leaves s other which
  | capslock | shift | ctrl | ignored => exact ⟨rfl, rfl, rfl, rfl⟩

theorem Shows.ite {p : Prop} [Decidable p] {ownNext : Keyboard} (hthen : Shows which s own)
    (helse : Shows which next ownNext) :
    Shows which (if p then s else next) (if p then own else ownNext) := by
  split
  · exact hthen
  · exact helse

theorem Shows.setBuffers (hshows : Shows which s own) (kb : KbBuffers) (overrun ownOverrun : Bool) :
    Shows which { s.setBuffers which kb with overrun := overrun }
      { own.setBuffers which kb with overrun := ownOverrun } := by
  refine ⟨hshows.current, hshows.tty, ?_, hshows.eol⟩
  simp only [Keyboard.setBuffers, Function.update_self]

theorem Shows.onTty (hshows : Shows which s own) (call : ConsoleCall) :
    Shows which { s with console := s.console.onTty which call.op }
      { own with console := own.console.onTty which call.op } := by
  refine ⟨hshows.current, ?_, hshows.buffers, hshows.eol⟩
  have hsame : SameTty (own.console.screen which) (s.console.screen which) := ⟨hshows.tty⟩
  simp only [Keyboard.tty, Console.onTty, Function.update_self, (hsame.operation call).tty]

theorem Shows.putchar (hshows : Shows which s own) (hcurrent : s.current = which) (c : UInt8) :
    Shows which (s.putchar c) (own.putchar c) := by
  unfold Keyboard.putchar
  rw [hcurrent, hshows.current]
  exact hshows.onTty (.putchar which c)

theorem Shows.typeRaw (hshows : Shows which s own) (hcurrent : s.current = which) (c : UInt8) :
    Shows which (s.typeRaw c) (own.typeRaw c) := by
  unfold Keyboard.typeRaw
  rw [hcurrent, hshows.current, hshows.buffers]
  exact hshows.setBuffers _ _ _

theorem Shows.typeL1 (hshows : Shows which s own) (hcurrent : s.current = which) (c : UInt8) :
    Shows which (s.typeL1 c) (own.typeL1 c) := by
  unfold Keyboard.typeL1
  rw [hcurrent, hshows.current, hshows.buffers]
  exact hshows.setBuffers _ _ _

theorem Shows.eraseL1 (hshows : Shows which s own) (hcurrent : s.current = which) :
    Shows which s.eraseL1 own.eraseL1 := by
  unfold Keyboard.eraseL1
  rw [hcurrent, hshows.current, hshows.buffers]
  exact hshows.setBuffers _ _ _

theorem Shows.flushLine (hshows : Shows which s own) (hcurrent : s.current = which) :
    Shows which s.flushLine own.flushLine := by
  unfold Keyboard.flushLine
  rw [hcurrent, hshows.current, hshows.buffers]
  exact hshows.setBuffers _ _ _

theorem Shows.typeChar (hshows : Shows which s own) (hcurrent : s.current = which) (c : UInt8) :
    Shows which (s.typeChar c) (own.typeChar c) := by
  have hshown := hshows.putchar hcurrent c
  have htyped := hshown.typeL1 hcurrent c
  unfold Keyboard.typeChar
  rw [hcurrent, hshows.current, hshows.tty, hshows.buffers]
  apply Shows.ite (hshows.typeRaw hcurrent c)
  apply Shows.ite
  · exact .ite hshows (hshown.eraseL1 hcurrent)
  · exact .ite (htyped.flushLine hcurrent) htyped

theorem Shows.press (hshows : Shows which s own) (hcurrent : s.current = which) (c : UInt8) :
    Shows which (s.press c) (own.press c) := by
  unfold Keyboard.press
  rw [hcurrent, hshows.current, hshows.buffers]
  exact .ite (hshows.typeChar hcurrent c) hshows

-- A fetch takes from the buffer of its tty only.
theorem keyboardFetchChar_spec (s : Keyboard) (other : WhichTty) :
    ∃ isEof buffers, (keyboardFetchChar s other).2 =
        { s with lastFetch := some other, isEof := isEof, buffers := buffers } ∧
      ∀ which, other ≠ which → buffers which = s.buffers which := by
  unfold keyboardFetchChar
  dsimp only
  split
  · exact ⟨_, _, rfl, fun _ _ => rfl⟩
  split
  · exact ⟨_, _, rfl, fun which hother => Function.update_of_ne (Ne.symm hother) _ _⟩
  split
  · exact ⟨_, _, rfl, fun _ _ => rfl⟩
  · exact ⟨_, _, rfl, fun _ _ => rfl⟩

-- A fetch on another tty takes nothing of this one, the end of a line apart.
theorem Shows.fetch_other (hshows : Shows which s own) (hother : other ≠ which)
    (hguard : OwnEol which s (.fetch other)) : Shows which (keyboardFetchChar s other).2 own := by
  obtain ⟨isEof, buffers, heq, hbuffers⟩ := keyboardFetchChar_spec s other
  rw [heq]
  refine ⟨hshows.current, hshows.tty, hshows.buffers.trans (hbuffers which hother).symm,
    iff_of_false ?_ ?_⟩
  · intro heof
    have heol := hshows.eol.mp heof
    exact hother ((hguard heol.1).mp heol.2)
  · rintro ⟨-, hlast⟩
    exact hother (Option.some.inj hlast)

-- The end of a line that a tty finds is its own, so its own keyboard has it as well.
theorem Shows.isEof_eq (hshows : Shows which s own) (hguard : OwnEol which s (.fetch which)) :
    own.isEof = s.isEof := by
  rw [Bool.eq_iff_iff, hshows.eol]
  exact ⟨And.left, fun heof => ⟨heof, (hguard heof).mpr rfl⟩⟩

theorem Shows.fetch (hshows : Shows which s own) (hguard : OwnEol which s (.fetch which)) :
    (keyboardFetchChar s which).1 = (keyboardFetchChar own which).1 ∧
      Shows which (keyboardFetchChar s which).2 (keyboardFetchChar own which).2 := by
  have heof := hshows.isEof_eq hguard
  have htty : own.console.ttys which = s.console.ttys which := hshows.tty
  unfold keyboardFetchChar Keyboard.tty
  dsimp only
  rw [heof, hshows.buffers, htty]
  split
  · exact ⟨rfl, hshows.current, hshows.tty, hshows.buffers, by simp⟩
  split
  · refine ⟨rfl, hshows.current, hshows.tty, ?_, ?_⟩
    · simp only [Keyboard.setBuffers, Function.update_self]
    · simp [Keyboard.setBuffers]
  split
  · exact ⟨rfl, hshows.current, hshows.tty, hshows.buffers, by simp⟩
  · exact ⟨rfl, hshows.current, hshows.tty, hshows.buffers, by simp⟩

-- No step gets past a tty's own keyboard, the end of another tty's line apart.
theorem Shows.step {call : KbCall} (hshows : Shows which s own) (hguard : OwnEol which s call)
    (hstep : kbStep beyond s call = some next) :
    Tracks (ttyView beyond which) (ownKeyboard which) (Shows which) s own call next := by
  cases call with
  | fetch other =>
      cases hstep
      unfold Tracks ttyView
      dsimp only
      by_cases hother : other = which
      · subst hother
        simp only [if_true, ownKeyboard]
        obtain ⟨hresult, hnext⟩ := hshows.fetch hguard
        exact ⟨congrArg some hresult, hnext⟩
      · simp only [if_neg hother]
        exact ⟨trivial, hshows.fetch_other hother hguard⟩
  | console call =>
      obtain ⟨console, hconsole, rfl⟩ := Option.map_eq_some_iff.mp hstep
      unfold Tracks ttyView
      dsimp only
      cases htarget : call.target with
      | some other =>
          rw [consoleStep_target htarget, Option.some.injEq] at hconsole
          subst hconsole
          by_cases hother : other = which
          · subst hother
            rw [if_pos rfl]
            exact ⟨rfl, hshows.onTty call⟩
          · rw [if_neg fun heq => hother (Option.some.inj heq)]
            exact ⟨rfl, hshows.leave (onTty_leaves hother call.op)⟩
      | none =>
          cases call with
          | switch other =>
              cases hconsole
              exact ⟨rfl, hshows.leave (switchTty_leaves s other which)⟩
          | putchar | clear | enableCursor | disableCursor | cursorPalette => cases htarget
  | key code =>
      cases hstep
      unfold Tracks ttyView
      dsimp only
      cases hkey : s.charKey beyond code with
      | none =>
          rw [Option.map_none, ite_self]
          exact ⟨rfl, hshows.leave (keyboardHandler_leaves hkey which)⟩
      | some c =>
          rw [keyboardHandler_charKey hkey]
          by_cases hcurrent : s.current = which
          · rw [if_pos hcurrent]
            exact ⟨rfl, hshows.press hcurrent c⟩
          · rw [if_neg hcurrent]
            refine ⟨rfl, hshows.leave ?_⟩
            unfold Keyboard.press
            split
            · exact typeChar_leaves hcurrent c
            · exact ⟨rfl, rfl, rfl, rfl⟩

-- The keyboard of its own that a tty starts with.
theorem startKeyboard_shows (console : Console) (which : WhichTty) :
    Shows which (startKeyboard console) (startKeyboard { console with currentTty := which }) :=
  ⟨rfl, rfl, rfl, iff_of_false Bool.false_ne_true fun heol => Bool.false_ne_true heol.1⟩

theorem kbStep_total (s : Keyboard) (call : KbCall) : ∃ next, kbStep beyond s call = some next := by
  cases call with
  | key code => exact ⟨_, rfl⟩
  | fetch which => exact ⟨_, rfl⟩
  | console call =>
      cases call with
      | putchar | switch | clear | enableCursor | disableCursor | cursorPalette => exact ⟨_, rfl⟩

-- Two runs that press the same keys and make the same fetches on a tty get the same from it,
-- as long as no end of a line is found by another tty than the one it was read on, all that is
-- typed on any tty fits its buffers, and the cursors stay on the screen.
theorem fetches_eq (console : Console) (which : WhichTty) (calls others : List KbCall)
    (hcalls : Guarded (kbStep beyond) (KeepsApart beyond which) (startKeyboard console) calls)
    (hothers : Guarded (kbStep beyond) (KeepsApart beyond which) (startKeyboard console) others)
    (hsame : (ttyView beyond which).inputs (kbStep beyond) (startKeyboard console) calls =
      (ttyView beyond which).inputs (kbStep beyond) (startKeyboard console) others) :
    (ttyView beyond which).outputs (kbStep beyond) (startKeyboard console) calls =
      (ttyView beyond which).outputs (kbStep beyond) (startKeyboard console) others := by
  obtain ⟨final, hfinal⟩ := run_total kbStep_total (startKeyboard console) calls
  obtain ⟨otherFinal, hotherFinal⟩ := run_total kbStep_total (startKeyboard console) others
  have hshows := startKeyboard_shows console which
  exact outputs_eq (fun _ _ _ _ hshows hguard hstep => hshows.step hguard.1 hstep) hshows hshows
    hcalls hothers hfinal hotherFinal hsame

def noTable : Bool → Bool → UInt8 → UInt8 := fun _ _ _ => 0

def KEY_ENTER : UInt8 := 0x1C

-- A line on the first tty, with and without a fetch on the second one after the end.
def enterCalls : List KbCall := [.key KEY_ENTER, .fetch tty0, .fetch tty0]

def enterLateCalls : List KbCall := [.key KEY_ENTER, .fetch tty0, .fetch tty0, .fetch tty1]

def enterBetweenCalls : List KbCall := [.key KEY_ENTER, .fetch tty0, .fetch tty1, .fetch tty0]

theorem fetches_eq_enter :
    (ttyView noTable tty0).outputs (kbStep noTable) (startKeyboard (startConsole fun _ => 0))
        enterCalls =
      (ttyView noTable tty0).outputs (kbStep noTable) (startKeyboard (startConsole fun _ => 0))
        enterLateCalls :=
  fetches_eq _ tty0 _ _ (by decide) (by decide) rfl

-- A fetch on the second tty between the newline and the next fetch on the first one takes
-- the end of the line, and the first tty is not ready.
theorem fetch_steals_end_of_line :
    ¬∀ calls others : List KbCall,
      (ttyView noTable tty0).inputs (kbStep noTable) (startKeyboard (startConsole fun _ => 0)) calls =
          (ttyView noTable tty0).inputs (kbStep noTable) (startKeyboard (startConsole fun _ => 0))
            others →
        (ttyView noTable tty0).outputs (kbStep noTable) (startKeyboard (startConsole fun _ => 0))
            calls =
          (ttyView noTable tty0).outputs (kbStep noTable) (startKeyboard (startConsole fun _ => 0))
            others := by
  intro hsame
  have hstolen := hsame enterCalls enterBetweenCalls rfl
  revert hstolen
  decide

end EchidnaOS
