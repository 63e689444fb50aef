import EchidnaOS.Keyboard.Line
import Mathlib.Data.List.Infix

namespace EchidnaOS

open EchidnaOS.Lib EchidnaOS.Lib.ByteStore EchidnaOS.Lib.Run EchidnaOS.Lib.Observer EchidnaOS.Devfs
  EchidnaOS.Tty

-- The lines that were submitted, with their newlines, and the one that is being typed.
structure Editing where
  lines : List (List UInt8) := []
  line : List UInt8 := []

def Editing.press (e : Editing) (c : UInt8) : Editing :=
  if c = 0x08 then { e with line := e.line.dropLast }
  else if c = 0x0A then { lines := e.lines ++ [e.line ++ [c]], line := [] }
  else { e with line := e.line ++ [c] }

def edited (typed : List UInt8) : Editing := typed.foldl Editing.press {}

def submitted (typed : List UInt8) : List UInt8 := (edited typed).lines.flatten

-- What a call of keyboard_fetch_char finds: a character, the end of the line that was just read,
-- or nothing.
inductive Fetched where
  | char (c : UInt8)
  | endOfLine
  | nothing
  | notReady
  deriving DecidableEq

def Fetched.result : Fetched → Int
  | .char c => charToInt c
  | .endOfLine => -1
  | .nothing => 0
  | .notReady => IO_NOT_READY

def Keyboard.fetched (s : Keyboard) (which : WhichTty) : Fetched :=
  if s.isEof then .endOfLine
  else if (s.buffers which).l2Index ≠ 0 then .char ((s.buffers which).l2 0)
  else if (s.tty which).noblock then .nothing
  else .notReady

inductive TtyEvent where
  | typed (c : UInt8)
  | fetched (found : Fetched)
  deriving DecidableEq

-- The events of one tty.
def ttyEvents (beyond : Bool → Bool → UInt8 → UInt8) (which : WhichTty) :
    View Keyboard KbCall TtyEvent Int where
  input s
    | .key code => if s.current = which then (s.charKey beyond code).map .typed else none
    | .fetch other => if other = which then some (.fetched (s.fetched which)) else none
    | .console _ => none
  output s
    | .fetch other => if other = which then some (keyboardFetchChar s which).1 else none
    | _ => none

def typed (events : List TtyEvent) : List UInt8 :=
  events.filterMap fun | .typed c => some c | .fetched _ => none

def fetches (events : List TtyEvent) : List Fetched :=
  events.filterMap fun | .typed _ => none | .fetched found => some found

def fetchedChars (events : List TtyEvent) : List UInt8 :=
  (fetches events).filterMap fun | .char c => some c | _ => none

-- The last thing that was read is a newline.
def EndDue (events : List TtyEvent) : Prop := (fetches events).getLast? = some (.char 0x0A)

-- What a fetch after some events has to find.
structure Answers (before : List TtyEvent) (found : Fetched) : Prop where
  endOfLine : found = .endOfLine ↔ EndDue before
  notReady : found = .notReady ↔ fetchedChars before = submitted (typed before) ∧ ¬EndDue before

structure InOrder (events : List TtyEvent) : Prop where
  characters : fetchedChars events <+: submitted (typed events)
  answers : ∀ before found, before ++ [.fetched found] <+: events → Answers before found

-- The line and the unread input stay below the sizes of their buffers.
structure WithinLimits (events : List TtyEvent) : Prop where
  line : (edited (typed events)).line.length ≤ KB_L1_SIZE - 1
  unread : (submitted (typed events)).length ≤
    (fetchedChars events).length + (KB_L2_SIZE - KB_L1_SIZE - 1)

-- What a tty has shown of its keyboard so far, and what is still held.
structure Delivering (which : WhichTty) (s : Keyboard) (events : List TtyEvent) : Prop where
  line : (s.buffers which).line = (edited (typed events)).line
  unread : fetchedChars events ++ (s.buffers which).unread = submitted (typed events)
  eof : s.isEof = true ↔ EndDue events
  answers : ∀ before found, before ++ [.fetched found] <+: events → Answers before found

structure Cooked (which : WhichTty) (s : Keyboard) : Prop where
  raw : (s.tty which).raw = false
  noblock : (s.tty which).noblock = false

-- What is typed on another tty fits its buffers.
def FitsElsewhere (beyond : Bool → Bool → UInt8 → UInt8) (which : WhichTty) (s : Keyboard)
    (call : KbCall) : Prop :=
  s.current ≠ which → Fits beyond s call

variable {beyond : Bool → Bool → UInt8 → UInt8} {which : WhichTty} {s next : Keyboard}
  {events before : List TtyEvent} {found : Fetched} {kb : KbBuffers} {c : UInt8} {call : KbCall}

theorem keyboardFetchChar_result (s : Keyboard) (which : WhichTty) :
    (keyboardFetchChar s which).1 = (s.fetched which).result := by
  unfold keyboardFetchChar Keyboard.fetched Keyboard.tty
  dsimp only
  split_ifs <;> rfl

theorem editing_line (e : Editing) (c : UInt8) : (e.press c).line = editLine e.line c := by
  unfold Editing.press editLine
  split_ifs <;> rfl

theorem editing_submitted (e : Editing) (c : UInt8) :
    (e.press c).lines.flatten = e.lines.flatten ++ submit e.line c := by
  unfold Editing.press submit
  by_cases hback : c = 0x08
  · simp [hback]
  · by_cases hnewline : c = 0x0A
    · simp [hnewline]
    · simp [hback, hnewline]

@[simp] theorem typed_snoc (events : List TtyEvent) (c : UInt8) :
    typed (events ++ [.typed c]) = typed events ++ [c] := by
  simp [typed]

@[simp] theorem typed_fetched (events : List TtyEvent) (found : Fetched) :
    typed (events ++ [.fetched found]) = typed events := by
  simp [typed]

@[simp] theorem fetches_typed (events : List TtyEvent) (c : UInt8) :
    fetches (events ++ [.typed c]) = fetches events := by
  simp [fetches]

@[simp] theorem fetches_snoc (events : List TtyEvent) (found : Fetched) :
    fetches (events ++ [.fetched found]) = fetches events ++ [found] := by
  simp [fetches]

@[simp] theorem fetchedChars_typed (events : List TtyEvent) (c : UInt8) :
    fetchedChars (events ++ [.typed c]) = fetchedChars events := by
  simp [fetchedChars]

@[simp] theorem fetchedChars_char (events : List TtyEvent) (c : UInt8) :
    fetchedChars (events ++ [.fetched (.char c)]) = fetchedChars events ++ [c] := by
  simp [fetchedChars]

@[simp] theorem fetchedChars_endOfLine (events : List TtyEvent) :
    fetchedChars (events ++ [.fetched .endOfLine]) = fetchedChars events := by
  simp [fetchedChars]

@[simp] theorem fetchedChars_notReady (events : List TtyEvent) :
    fetchedChars (events ++ [.fetched .notReady]) = fetchedChars events := by
  simp [fetchedChars]

@[simp] theorem endDue_typed (events : List TtyEvent) (c : UInt8) :
    EndDue (events ++ [.typed c]) ↔ EndDue events := by
  simp [EndDue]

@[simp] theorem endDue_fetched (events : List TtyEvent) (found : Fetched) :
    EndDue (events ++ [.fetched found]) ↔ found = .char 0x0A := by
  simp [EndDue]

theorem edited_snoc (typed : List UInt8) (c : UInt8) : edited (typed ++ [c]) = (edited typed).press c := by
  simp [edited]

-- A fetch takes the first character that waits.
theorem unread_shift (hne : kb.l2Index ≠ 0) (hle : kb.l2Index ≤ KB_L2_SIZE) :
    kb.unread = kb.l2 0 :: kb.shift.unread := by
  obtain ⟨count, hcount⟩ := Nat.exists_eq_succ_of_ne_zero hne
  simp only [KB_L2_SIZE] at hle
  have hrest : ByteStore.read kb.shift.l2 0 count = ByteStore.read kb.l2 1 count := by
    apply List.ext_getElem
    · simp
    · intro index hleft hright
      have hindex : index < 2047 := by
        rw [read_length] at hleft
        omega
      simp [ByteStore.read, KbBuffers.shift, KB_L2_SIZE, hindex, Nat.add_comm 1 index]
  have hshift : kb.shift.l2Index = count := by
    simp [KbBuffers.shift, hcount]
  rw [KbBuffers.unread, KbBuffers.unread, hshift, hcount, read_succ, hrest]

-- The fetch that comes last is the only new one.
theorem answers_snoc (hall : ∀ before found, before ++ [.fetched found] <+: events → Answers before found)
    (hlast : Answers events found) (before : List TtyEvent) (other : Fetched)
    (hstart : before ++ [.fetched other] <+: events ++ [.fetched found]) : Answers before other := by
  rcases List.prefix_concat_iff.mp hstart with heq | hearlier
  · obtain ⟨rfl, hfound⟩ := List.append_inj' heq rfl
    cases hfound
    exact hlast
  · exact hall before other hearlier

theorem answers_typed (hall : ∀ before found, before ++ [.fetched found] <+: events → Answers before found)
    (before : List TtyEvent) (found : Fetched)
    (hstart : before ++ [.fetched found] <+: events ++ [.typed c]) : Answers before found := by
  rcases List.prefix_concat_iff.mp hstart with heq | hearlier
  · have hlast := (List.append_inj' heq rfl).2
    cases hlast
  · exact hall before found hearlier

theorem Delivering.leave (hs : Delivering which s events) (hbuffers : next.buffers which = s.buffers which)
    (heof : next.isEof = s.isEof) : Delivering which next events :=
  ⟨by rw [hbuffers, hs.line], by rw [hbuffers, hs.unread], by rw [heof, hs.eof], hs.answers⟩

theorem typeChar_isEof (s : Keyboard) (c : UInt8) : (s.typeChar c).isEof = s.isEof := by
  unfold Keyboard.typeChar
  split_ifs <;> rfl

theorem Delivering.within (hs : Delivering which s events) (hlimits : WithinLimits events) :
    (s.buffers which).l1Index < KB_L1_SIZE ∧ (s.buffers which).l2Index ≤ KB_L2_SIZE := by
  have hline := hlimits.line
  have hunread := hlimits.unread
  have hheld := congrArg List.length hs.unread
  rw [← hs.line, line_length] at hline
  rw [List.length_append, unread_length] at hheld
  simp only [KB_L1_SIZE, KB_L2_SIZE] at hline hunread ⊢
  omega

-- What is typed on the tty fits its buffers.
theorem Delivering.fits (hs : Delivering which s events) (hcooked : Cooked which s)
    (hlimits : WithinLimits events) (helsewhere : s.current ≠ which → Fits beyond s call) :
    Fits beyond s call := by
  by_cases hcurrent : s.current = which
  · subst hcurrent
    obtain ⟨hroom, -⟩ := hs.within hlimits
    have hunread := hlimits.unread
    have hheld := congrArg List.length hs.unread
    rw [List.length_append, unread_length] at hheld
    cases call with
    | fetch | console => trivial
    | key code =>
        intro c _
        rw [if_neg (by rw [hcooked.raw]; exact Bool.false_ne_true)]
        intro _
        simp only [KB_L1_SIZE, KB_L2_SIZE] at hroom hunread ⊢
        omega
  · exact helsewhere hcurrent

theorem Delivering.press (hs : Delivering s.current s events) (hraw : (s.tty s.current).raw = false)
    (hlimits : WithinLimits events) (c : UInt8) :
    Delivering s.current (s.press c) (events ++ [.typed c]) := by
  obtain ⟨hroom, hunread⟩ := hs.within hlimits
  have htyped := typeChar_typed hraw hroom hunread c
  rw [Keyboard.press, if_pos hroom]
  constructor
  · rw [htyped.line, typed_snoc, edited_snoc, editing_line, hs.line]
  · rw [htyped.unread, fetchedChars_typed, typed_snoc, submitted, edited_snoc, editing_submitted,
      ← List.append_assoc, hs.unread, hs.line, submitted]
  · rw [typeChar_isEof, endDue_typed]
    exact hs.eof
  · exact answers_typed hs.answers

-- What a fetch leaves to the tty that it is made on.
theorem keyboardFetchChar_next (s : Keyboard) (which : WhichTty) :
    (keyboardFetchChar s which).2.isEof = decide (s.fetched which = .char 0x0A) ∧
      (keyboardFetchChar s which).2.buffers which =
        if s.isEof = false ∧ (s.buffers which).l2Index ≠ 0 then (s.buffers which).shift
        else s.buffers which := by
  unfold keyboardFetchChar Keyboard.fetched Keyboard.tty
  dsimp only
  cases heof : s.isEof
  · by_cases hempty : (s.buffers which).l2Index = 0
    · cases hnoblock : (s.console.ttys which).noblock <;> simp [hempty]
    · simp [hempty, Keyboard.setBuffers]
  · simp

theorem Delivering.fetch (hs : Delivering which s events) (hcooked : Cooked which s)
    (hlimits : WithinLimits events) :
    Delivering which (keyboardFetchChar s which).2 (events ++ [.fetched (s.fetched which)]) := by
  obtain ⟨-, hle⟩ := hs.within hlimits
  obtain ⟨heof, hbuffers⟩ := keyboardFetchChar_next s which
  have hheld := hs.unread
  have hdue := hs.eof
  by_cases hend : s.isEof = true
  · have hfound : s.fetched which = .endOfLine := by
      simp [Keyboard.fetched, hend]
    have hsame : (keyboardFetchChar s which).2.buffers which = s.buffers which := by
      simp [hbuffers, hend]
    rw [hfound] at heof ⊢
    have hanswer : Answers events .endOfLine := by
      constructor
      · simp [hdue.mp hend]
      · simp [hdue.mp hend]
    constructor
    · rw [hsame, typed_fetched, hs.line]
    · rw [hsame, fetchedChars_endOfLine, typed_fetched, hheld]
    · simp [heof]
    · exact answers_snoc hs.answers hanswer
  · have hnot : ¬EndDue events := mt hdue.mpr hend
    rw [Bool.not_eq_true] at hend
    by_cases hempty : (s.buffers which).l2Index = 0
    · have hfound : s.fetched which = .notReady := by
        simp [Keyboard.fetched, hend, hempty, hcooked.noblock]
      have hsame : (keyboardFetchChar s which).2.buffers which = s.buffers which := by
        simp [hbuffers, hempty]
      have hnone : (s.buffers which).unread = [] := List.length_eq_zero_iff.mp (by simp [hempty])
      rw [hfound] at heof ⊢
      have hanswer : Answers events .notReady := by
        constructor
        · simp [hnot]
        · simp [hnot, ← hheld, hnone]
      constructor
      · rw [hsame, typed_fetched, hs.line]
      · rw [hsame, fetchedChars_notReady, typed_fetched, hheld]
      · simp [heof]
      · exact answers_snoc hs.answers hanswer
    · have hfound : s.fetched which = .char ((s.buffers which).l2 0) := by
        simp [Keyboard.fetched, hend, hempty]
      have hshift : (keyboardFetchChar s which).2.buffers which = (s.buffers which).shift := by
        simp [hbuffers, hend, hempty]
      have hfirst := unread_shift hempty hle
      rw [hfound] at heof ⊢
      have hanswer : Answers events (.char ((s.buffers which).l2 0)) := by
        constructor
        · simp [hnot]
        · simp [hnot, ← hheld, hfirst]
      constructor
      · rw [hshift, typed_fetched, ← hs.line]
        rfl
      · rw [hshift, fetchedChars_char, typed_fetched, ← hheld, hfirst, List.append_assoc]
        rfl
      · simp [heof]
      · exact answers_snoc hs.answers hanswer

theorem Delivering.step (hs : Delivering which s events) (hcooked : Cooked which s)
    (hfetch : ∀ other, call = .fetch other → other = which) (hlimits : WithinLimits events)
    (hstep : kbStep beyond s call = some next) :
    Delivering which next (events ++ ((ttyEvents beyond which).input s call).toList) := by
  cases call with
  | fetch other =>
      cases hstep
      obtain rfl := hfetch other rfl
      simpa [ttyEvents] using hs.fetch hcooked hlimits
  | console call =>
      obtain ⟨console, -, rfl⟩ := Option.map_eq_some_iff.mp hstep
      have hleft : Delivering which { s with console := console } events := hs.leave rfl rfl
      simpa [ttyEvents] using hleft
  | key code =>
      cases hstep
      cases hkey : s.charKey beyond code with
      | none =>
          have hleaves := keyboardHandler_leaves hkey which
          simpa [ttyEvents, hkey] using hs.leave hleaves.buffers hleaves.eof
      | some c =>
          rw [keyboardHandler_charKey hkey]
          by_cases hcurrent : s.current = which
          · subst hcurrent
            simpa [ttyEvents, hkey] using hs.press hcooked.raw hlimits c
          · have hleaves : LeavesTty which s (s.press c) := by
              unfold Keyboard.press
              split
              · exact typeChar_leaves hcurrent c
              · exact ⟨rfl, rfl, rfl, rfl⟩
            simpa [ttyEvents, hcurrent] using hs.leave hleaves.buffers hleaves.eof

theorem Delivering.run {calls : List KbCall} (hs : Delivering which s events)
    (hcooked : Throughout (kbStep beyond) (Cooked which) s calls)
    (hfetch : ∀ other, .fetch other ∈ calls → other = which)
    (hlimits : ∀ front, front <+: events ++ (ttyEvents beyond which).inputs (kbStep beyond) s calls →
      WithinLimits front)
    (helsewhere : Guarded (kbStep beyond) (FitsElsewhere beyond which) s calls) :
    (∃ final, Delivering which final
      (events ++ (ttyEvents beyond which).inputs (kbStep beyond) s calls)) ∧
    Guarded (kbStep beyond) (Fits beyond) s calls := by
  induction calls generalizing s events with
  | nil => exact ⟨⟨s, by simpa [View.inputs] using hs⟩, trivial⟩
  | cons call rest ih =>
      obtain ⟨next, hnext⟩ := @kbStep_total beyond s call
      simp only [View.inputs, hnext, Option.elim_some, ← List.append_assoc] at hlimits ⊢
      have hnow := hlimits events ((List.prefix_append _ _).trans (List.prefix_append _ _))
      have hfirst : ∀ other, call = .fetch other → other = which := by
        rintro other rfl
        exact hfetch other List.mem_cons_self
      have hbehind : ∀ other, .fetch other ∈ rest → other = which :=
        fun other hother => hfetch other (List.mem_cons_of_mem call hother)
      obtain ⟨hfinal, hfits⟩ := ih (hs.step hcooked.head hfirst hnow hnext) (hcooked.2 next hnext)
        hbehind hlimits (helsewhere.2 next hnext)
      exact ⟨hfinal, .cons (hs.fits hcooked.head hnow helsewhere.1) hnext hfits⟩

theorem fetch_results (s : Keyboard) (calls : List KbCall) :
    (ttyEvents beyond which).outputs (kbStep beyond) s calls =
      (fetches ((ttyEvents beyond which).inputs (kbStep beyond) s calls)).map Fetched.result := by
  induction calls generalizing s with
  | nil => rfl
  | cons call rest ih =>
      obtain ⟨next, hnext⟩ := @kbStep_total beyond s call
      simp only [View.inputs, View.outputs, hnext, Option.elim_some, ih, fetches,
        List.filterMap_append, List.map_append]
      congr 1
      cases call with
      | fetch other =>
          by_cases hother : other = which <;> simp [ttyEvents, hother, keyboardFetchChar_result]
      | console call => rfl
      | key code =>
          cases hkey : s.charKey beyond code <;> by_cases hcurrent : s.current = which <;>
            simp [ttyEvents, hkey, hcurrent]

theorem startKeyboard_delivering (console : Console) (which : WhichTty) :
    Delivering which (startKeyboard console) [] := by
  constructor
  · rfl
  · rfl
  · simp [EndDue, fetches, startKeyboard]
  · simp

-- A cooked tty hands over the lines that were typed on it, in order, and tells their ends. All the
-- while the buffers stay in bounds.
theorem lines_delivered (console : Console) (which : WhichTty) (calls : List KbCall)
    (hcooked : Throughout (kbStep beyond) (Cooked which) (startKeyboard console) calls)
    (hfetch : ∀ other, .fetch other ∈ calls → other = which)
    (hlimits : ∀ front, front <+: (ttyEvents beyond which).inputs (kbStep beyond)
      (startKeyboard console) calls → WithinLimits front)
    (helsewhere : Guarded (kbStep beyond) (FitsElsewhere beyond which) (startKeyboard console) calls) :
    InOrder ((ttyEvents beyond which).inputs (kbStep beyond) (startKeyboard console) calls) ∧
      (ttyEvents beyond which).outputs (kbStep beyond) (startKeyboard console) calls =
        (fetches ((ttyEvents beyond which).inputs (kbStep beyond)
          (startKeyboard console) calls)).map Fetched.result ∧
      Throughout (kbStep beyond) Bounded (startKeyboard console) calls := by
  obtain ⟨⟨final, hfinal⟩, hfits⟩ :=
    (startKeyboard_delivering console which).run hcooked hfetch hlimits helsewhere
  refine ⟨⟨?_, hfinal.answers⟩, fetch_results _ _, ?_⟩
  · exact ⟨_, hfinal.unread⟩
  · exact ((startKeyboard_bounded console).throughout_iff calls).mpr hfits

instance decidableCooked (which : WhichTty) (s : Keyboard) : Decidable (Cooked which s) :=
  decidable_of_iff ((s.tty which).raw = false ∧ (s.tty which).noblock = false)
    ⟨fun h => ⟨h.1, h.2⟩, fun h => ⟨h.raw, h.noblock⟩⟩

instance decidableFitsElsewhere (beyond : Bool → Bool → UInt8 → UInt8) (which : WhichTty)
    (s : Keyboard) (call : KbCall) : Decidable (FitsElsewhere beyond which s call) :=
  inferInstanceAs (Decidable (_ → _))

instance decidableWithinLimits (events : List TtyEvent) : Decidable (WithinLimits events) :=
  decidable_of_iff ((edited (typed events)).line.length ≤ KB_L1_SIZE - 1 ∧
      (submitted (typed events)).length ≤
        (fetchedChars events).length + (KB_L2_SIZE - KB_L1_SIZE - 1))
    ⟨fun h => ⟨h.1, h.2⟩, fun h => ⟨h.line, h.unread⟩⟩

def KEY_A : UInt8 := 0x1E

def KEY_B : UInt8 := 0x30

-- A fetch that comes too early, a line with a letter taken back, and the fetches behind it.
def correctedCalls : List KbCall :=
  [.key KEY_A, .fetch tty0, .key KEY_B, .key KEY_BACKSPACE, .key KEY_B, .key KEY_ENTER,
    .fetch tty0, .fetch tty0, .fetch tty0, .fetch tty0, .fetch tty0]

theorem corrected_delivered :
    (ttyEvents noTable tty0).outputs (kbStep noTable) (startKeyboard (startConsole fun _ => 0))
        correctedCalls = [IO_NOT_READY, 97, 98, 10, -1, IO_NOT_READY] ∧
      InOrder ((ttyEvents noTable tty0).inputs (kbStep noTable)
        (startKeyboard (startConsole fun _ => 0)) correctedCalls) := by
  have hevents : (ttyEvents noTable tty0).inputs (kbStep noTable)
      (startKeyboard (startConsole fun _ => 0)) correctedCalls =
        [.typed 97, .fetched .notReady, .typed 98, .typed 0x08, .typed 98, .typed 0x0A,
          .fetched (.char 97), .fetched (.char 98), .fetched (.char 0x0A), .fetched .endOfLine,
          .fetched .notReady] := by
    decide +kernel
  have hlimits : ∀ front, front <+: (ttyEvents noTable tty0).inputs (kbStep noTable)
      (startKeyboard (startConsole fun _ => 0)) correctedCalls → WithinLimits front := by
    intro front hfront
    rw [hevents, ← List.mem_inits] at hfront
    revert front
    decide
  obtain ⟨hordered, hresults, -⟩ := lines_delivered (startConsole fun _ => 0) tty0 correctedCalls
    (by decide +kernel) (by simp [correctedCalls]) hlimits (by decide +kernel)
  refine ⟨?_, hordered⟩
  rw [hresults, hevents]
  rfl

end EchidnaOS
