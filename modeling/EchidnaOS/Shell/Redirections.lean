import EchidnaOS.Shell.Theorems

namespace EchidnaOS.Shell

open EchidnaOS.Lib.ByteStore

-- `char prog_stdin[128]` and the others.
def NAME_SIZE : Nat := 128

-- A file that is removed or created.
inductive Change where
  | remove (name : List UInt8)
  | create (name : List UInt8)
  deriving DecidableEq

-- What a line says of the program it launches, beside its words.
structure Streams where
  stdin : List UInt8
  stdout : List UInt8
  stderr : List UInt8
  noBlock : Bool := false
  changes : List Change := []
  deriving DecidableEq

def Streams.redirect (s : Streams) (operator target : List UInt8) : Streams :=
  if operator = ['>'.toUInt8] then
    { s with stdout := target, changes := s.changes ++ [.remove target, .create target] }
  else if operator = ['<'.toUInt8] then { s with stdin := target }
  else if operator = ['2'.toUInt8, '>'.toUInt8] then
    { s with stderr := target, changes := s.changes ++ [.remove target, .create target] }
  else
    { s with
      stdout := target
      stderr := target
      changes := s.changes ++ [.remove target, .remove target, .create target, .create target] }

-- A later redirection of a stream replaces an earlier one.
def Segment.apply (s : Streams) : Segment → Streams
  | .redirect operator _ target => s.redirect operator target
  | .ampersand => { s with noBlock := true }
  | .space | .word _ => s

def Segment.Fits : Segment → Prop
  | .redirect _ _ target => target.length < NAME_SIZE
  | _ => True

instance decidableFits : DecidablePred Segment.Fits
  | .redirect _ _ target => inferInstanceAs (Decidable (target.length < NAME_SIZE))
  | .space | .ampersand | .word _ => inferInstanceAs (Decidable True)

def buffers (layout : Layout) : List Nat := [layout.progStdin, layout.progStdout, layout.progStderr]

def Apart (bases : List Nat) : Prop :=
  bases.Pairwise fun first second => first + NAME_SIZE ≤ second ∨ second + NAME_SIZE ≤ first

instance decidableApart (bases : List Nat) : Decidable (Apart bases) :=
  inferInstanceAs (Decidable (bases.Pairwise _))

-- The calls that change files, as the filesystem gets them.
def Call.changes : Call → Bool
  | .getMetadata .. => false
  | _ => true

def IsChange : Call × Store → Change → Prop
  | (.remove path, data), .remove name => Holds data path name
  | (.vfsCreate path, data), .create name => Holds data path name
  | _, _ => False

structure Reads (layout : Layout) (st : ArgvState) (s : Streams) : Prop where
  stdin : Holds st.data layout.progStdin s.stdin
  stdout : Holds st.data layout.progStdout s.stdout
  stderr : Holds st.data layout.progStderr s.stderr
  stdin_lt : s.stdin.length < NAME_SIZE
  stdout_lt : s.stdout.length < NAME_SIZE
  stderr_lt : s.stderr.length < NAME_SIZE
  noBlock : st.noBlock = s.noBlock
  changes : List.Forall₂ IsChange (st.calls.filter fun call => call.1.changes) s.changes

variable {layout : Layout} {st st' : ArgvState} {s : Streams} {l target : List UInt8} {bases : List Nat}

-- The parts of the state that a redirection and the probes read.
structure SameEffects (st st' : ArgvState) : Prop where
  data : st'.data = st.data
  noBlock : st'.noBlock = st.noBlock
  calls : st'.calls = st.calls

theorem SameEffects.trans {st'' : ArgvState} (hfirst : SameEffects st st') (hsecond : SameEffects st' st'') :
    SameEffects st st'' :=
  ⟨hsecond.data.trans hfirst.data, hsecond.noBlock.trans hfirst.noBlock,
    hsecond.calls.trans hfirst.calls⟩

theorem Reads.of_same (hreads : Reads layout st s) (hsame : SameEffects st st') : Reads layout st' s := by
  obtain ⟨hin, hout, herr, hinLt, houtLt, herrLt, hblock, hchanges⟩ := hreads
  rw [← hsame.data] at hin hout herr
  exact ⟨hin, hout, herr, hinLt, houtLt, herrLt, hsame.noBlock.trans hblock, by rwa [hsame.calls]⟩

theorem eraseSpaces_same {fuel : Nat} (hloop : eraseSpaces fuel st = some st') : SameEffects st st' := by
  induction fuel generalizing st with
  | zero => cases hloop
  | succ fuel ih =>
      rw [eraseSpaces] at hloop
      split at hloop
      · have hrest := ih hloop
        exact ⟨hrest.data, hrest.noBlock, hrest.calls⟩
      · cases hloop
        exact ⟨rfl, rfl, rfl⟩

theorem store_data (st : ArgvState) (bases : List Nat) (i : Nat) (c : UInt8) (address : Nat) :
    (st.store bases i c).data address =
      if ∃ base ∈ bases, base + i = address then c else st.data address := by
  unfold ArgvState.store
  dsimp only
  generalize st.data = data
  induction bases generalizing data with
  | nil => simp
  | cons base rest ih =>
      rw [List.foldl_cons, ih]
      by_cases hrest : ∃ base ∈ rest, base + i = address
      · obtain ⟨other, hother, heq⟩ := hrest
        rw [if_pos ⟨other, hother, heq⟩, if_pos ⟨other, List.mem_cons_of_mem base hother, heq⟩]
      · rw [if_neg hrest]
        by_cases hfirst : base + i = address
        · rw [if_pos ⟨base, List.mem_cons_self, hfirst⟩, ← hfirst, Function.update_self]
        · rw [Function.update_of_ne (Ne.symm hfirst), if_neg]
          rintro ⟨other, hother, heq⟩
          rcases List.mem_cons.mp hother with rfl | hother
          · exact hfirst heq
          · exact hrest ⟨other, hother, heq⟩

theorem Apart.of_mem (hapart : Apart bases) {first second : Nat} (hfirst : first ∈ bases)
    (hsecond : second ∈ bases) (hne : first ≠ second) :
    first + NAME_SIZE ≤ second ∨ second + NAME_SIZE ≤ first := by
  have hsymm : Std.Symm fun first second : Nat =>
      first + NAME_SIZE ≤ second ∨ second + NAME_SIZE ≤ first := ⟨fun _ _ h => h.symm⟩
  exact List.Pairwise.forall hapart hfirst hsecond hne

-- A byte goes to its place in each of the buffers.
theorem store_same (st : ArgvState) {base : Nat} (hbase : base ∈ bases) (i : Nat) (c : UInt8) :
    (st.store bases i c).data (base + i) = c := by
  rw [store_data, if_pos ⟨base, hbase, rfl⟩]

theorem store_kept (st : ArgvState) (hapart : Apart bases) {base i j : Nat} (hbase : base ∈ bases)
    (hi : i < NAME_SIZE) (hj : j < NAME_SIZE) (hne : i ≠ j) (c : UInt8) :
    (st.store bases i c).data (base + j) = st.data (base + j) := by
  rw [store_data, if_neg]
  rintro ⟨other, hother, heq⟩
  by_cases he : other = base
  · omega
  · have hsep := hapart.of_mem hother hbase he
    omega

theorem store_outside (st : ArgvState) {i address : Nat} (hi : i < NAME_SIZE) (c : UInt8)
    (hout : ∀ base ∈ bases, address < base ∨ base + NAME_SIZE ≤ address) :
    (st.store bases i c).data address = st.data address := by
  rw [store_data, if_neg]
  rintro ⟨base, hbase, rfl⟩
  have hsep := hout base hbase
  omega

-- What the loop over a target leaves, from place `i` of the buffers on.
structure Moved (bases : List Nat) (i : Nat) (target : List UInt8) (st st' : ArgvState) : Prop where
  noBlock : st'.noBlock = st.noBlock
  calls : st'.calls = st.calls
  before : ∀ base ∈ bases, ∀ j, j < i → st'.data (base + j) = st.data (base + j)
  target : ∀ base ∈ bases, Holds st'.data (base + i) target
  outside : ∀ address, (∀ base ∈ bases, address < base ∨ base + NAME_SIZE ≤ address) →
    st'.data address = st.data address

theorem Moved.terminated (st : ArgvState) (hapart : Apart bases) {i : Nat} (hi : i < NAME_SIZE) :
    Moved bases i [] st (st.store bases i 0) := by
  refine ⟨rfl, rfl, ?_, ?_, fun address hout => store_outside st hi 0 hout⟩
  · intro base hbase j hj
    exact store_kept st hapart hbase hi (by omega) (by omega) 0
  · exact fun base hbase => store_same st hbase i 0

theorem moveTarget_moved (hapart : Apart bases) {fuel i : Nat} (h : Holds st.string st.index l)
    (hlen : i + (l.takeWhile inWord).length < NAME_SIZE)
    (hloop : moveTarget bases fuel i st = some st') : Moved bases i (l.takeWhile inWord) st st' := by
  induction l generalizing st fuel i with
  | nil =>
      cases fuel with
      | zero => cases hloop
      | succ fuel =>
          have hzero : st.string st.index = 0 := h
          rw [moveTarget, hzero, if_neg (by decide)] at hloop
          cases hloop
          exact .terminated st hapart (by simpa using hlen)
  | cons c l ih =>
      cases fuel with
      | zero => cases hloop
      | succ fuel =>
          rw [moveTarget, h.1] at hloop
          by_cases hc : inWord c
          · rw [if_pos hc] at hloop
            rw [List.takeWhile_cons_of_pos hc] at hlen ⊢
            rw [List.length_cons] at hlen
            have hstored := store_passed h bases i c
            have hnext := (erase_passed hstored.rest).rest
            have hrest := ih hnext (show i + 1 + (l.takeWhile inWord).length < NAME_SIZE by omega) hloop
            refine ⟨hrest.noBlock, hrest.calls, ?_, ?_, ?_⟩
            · intro base hbase j hj
              exact (hrest.before base hbase j (by omega)).trans
                (store_kept st hapart hbase (by omega) (by omega) (by omega) c)
            · intro base hbase
              refine ⟨?_, h.2.1, hrest.target base hbase⟩
              exact (hrest.before base hbase i (by omega)).trans (store_same st hbase i c)
            · intro address hout
              exact (hrest.outside address hout).trans (store_outside st (by omega) c hout)
          · rw [if_neg hc] at hloop
            cases hloop
            rw [List.takeWhile_cons_of_neg hc] at hlen ⊢
            exact .terminated st hapart (by simpa using hlen)

-- A redirection behind its operator: the buffers hold the target, and the calls get it.
structure Redirected (bases : List Nat) (target : List UInt8) (calls : List Call) (st st' : ArgvState) :
    Prop where
  noBlock : st'.noBlock = st.noBlock
  calls : st'.calls = st.calls ++ calls.map fun call => (call, st'.data)
  target : ∀ base ∈ bases, Holds st'.data base target
  outside : ∀ address, (∀ base ∈ bases, address < base ∨ base + NAME_SIZE ≤ address) →
    st'.data address = st.data address

theorem redirect_redirected (hapart : Apart bases) {calls : List Call} (h : Holds st.string st.index l)
    (hlen : l.length < INPUT_SIZE)
    (hfits : ((l.dropWhile isSpace).takeWhile inWord).length < NAME_SIZE)
    (hredirect : redirect st bases calls = some st') :
    Redirected bases ((l.dropWhile isSpace).takeWhile inWord) calls st st' := by
  obtain ⟨erased, hspaces, hpassed⟩ := eraseSpaces_passed h hlen
  have hsame := eraseSpaces_same hspaces
  simp only [redirect, hspaces, Option.bind_eq_bind, Option.bind_some] at hredirect
  obtain ⟨moved, hloop, hst'⟩ := Option.bind_eq_some_iff.mp hredirect
  cases hst'
  have hmoved := moveTarget_moved (i := 0) hapart hpassed.rest (by omega) hloop
  refine ⟨hmoved.noBlock.trans hsame.noBlock, ?_, hmoved.target, ?_⟩
  · show moved.calls ++ _ = _
    rw [hmoved.calls, hsame.calls]
    rfl
  · intro address hout
    rw [← hsame.data]
    exact hmoved.outside address hout

-- A name in a buffer that a redirection does not touch.
theorem Redirected.keeps {calls : List Call} (hredirected : Redirected bases target calls st st')
    {base : Nat} {name : List UInt8} (hholds : Holds st.data base name) (hname : name.length < NAME_SIZE)
    (hsep : ∀ other ∈ bases, other + NAME_SIZE ≤ base ∨ base + NAME_SIZE ≤ other) :
    Holds st'.data base name := by
  refine hholds.congr ?_
  intro address hlow hhigh
  apply hredirected.outside
  intro other hother
  have := hsep other hother
  omega

theorem Redirected.holds {calls : List Call} (hredirected : Redirected bases target calls st st')
    (hapart : Apart (buffers layout)) (hsub : bases ⊆ buffers layout) {base : Nat}
    (hbase : base ∈ buffers layout) {name : List UInt8} (hholds : Holds st.data base name)
    (hname : name.length < NAME_SIZE) : Holds st'.data base (if base ∈ bases then target else name) := by
  split
  · rename_i hmem
    exact hredirected.target base hmem
  · rename_i hmem
    apply hredirected.keeps hholds hname
    intro other hother
    exact hapart.of_mem (hsub hother) hbase fun he => hmem (he ▸ hother)

-- The streams that are not redirected stay.
theorem Reads.redirected {calls : List Call} (changes : List Change) (hreads : Reads layout st s)
    (hapart : Apart (buffers layout)) (hsub : bases ⊆ buffers layout)
    (hredirected : Redirected bases target calls st st') (hfits : target.length < NAME_SIZE)
    (hchanges : List.Forall₂ IsChange
      ((calls.map fun call => (call, st'.data)).filter fun call => call.1.changes) changes) :
    Reads layout st' { s with
      stdin := if layout.progStdin ∈ bases then target else s.stdin
      stdout := if layout.progStdout ∈ bases then target else s.stdout
      stderr := if layout.progStderr ∈ bases then target else s.stderr
      changes := s.changes ++ changes } := by
  have hshort : ∀ {base : Nat} {name : List UInt8}, name.length < NAME_SIZE →
      (if base ∈ bases then target else name).length < NAME_SIZE := by
    intro base name hname
    split
    · exact hfits
    · exact hname
  refine ⟨?_, ?_, ?_, hshort hreads.stdin_lt, hshort hreads.stdout_lt, hshort hreads.stderr_lt,
    hredirected.noBlock.trans hreads.noBlock, ?_⟩
  · exact hredirected.holds hapart hsub (by simp [buffers]) hreads.stdin hreads.stdin_lt
  · exact hredirected.holds hapart hsub (by simp [buffers]) hreads.stdout hreads.stdout_lt
  · exact hredirected.holds hapart hsub (by simp [buffers]) hreads.stderr hreads.stderr_lt
  · rw [hredirected.calls, List.filter_append]
    exact List.rel_append hreads.changes hchanges

-- The probes of a name change no file.
theorem Reads.probed (hreads : Reads layout st s) (isFile : Bool) :
    Reads layout (st.call (probes layout isFile)) s := by
  obtain ⟨hin, hout, herr, hinLt, houtLt, herrLt, hblock, hchanges⟩ := hreads
  refine ⟨hin, hout, herr, hinLt, houtLt, herrLt, hblock, ?_⟩
  have hnone : ((probes layout isFile).map fun call => (call, st.data)).filter
      (fun call => call.1.changes) = [] := by
    cases isFile with
    | false => rfl
    | true => rfl
  show List.Forall₂ IsChange ((st.calls ++ _).filter _) s.changes
  rw [List.filter_append, hnone, List.append_nil]
  exact hchanges

theorem buffers_ne (hapart : Apart (buffers layout)) : layout.progStdin ≠ layout.progStdout ∧
    layout.progStdin ≠ layout.progStderr ∧ layout.progStdout ≠ layout.progStderr := by
  simp only [Apart, buffers, NAME_SIZE, List.pairwise_cons, List.mem_cons, List.not_mem_nil, or_false,
    forall_eq_or_imp, forall_eq] at hapart
  omega

theorem Reads.out (hreads : Reads layout st s) (hapart : Apart (buffers layout))
    (hfits : target.length < NAME_SIZE)
    (hredirected : Redirected [layout.progStdout] target
      [.remove layout.progStdout, .vfsCreate layout.progStdout] st st') :
    Reads layout st' (s.redirect ['>'.toUInt8] target) := by
  obtain ⟨hin, -, hboth⟩ := buffers_ne hapart
  have hname := hredirected.target layout.progStdout (by simp)
  have hnext := hreads.redirected [.remove target, .create target] hapart (by simp [buffers])
    hredirected hfits (.cons hname (.cons hname .nil))
  simpa [Streams.redirect, hin, hboth.symm] using hnext

theorem Reads.into (hreads : Reads layout st s) (hapart : Apart (buffers layout))
    (hfits : target.length < NAME_SIZE) (hredirected : Redirected [layout.progStdin] target [] st st') :
    Reads layout st' (s.redirect ['<'.toUInt8] target) := by
  obtain ⟨hout, herr, -⟩ := buffers_ne hapart
  have hnext := hreads.redirected [] hapart (by simp [buffers]) hredirected hfits .nil
  have hother : '<'.toUInt8 ≠ '>'.toUInt8 := by decide
  simpa [Streams.redirect, hother, hout.symm, herr.symm] using hnext

theorem Reads.err (hreads : Reads layout st s) (hapart : Apart (buffers layout))
    (hfits : target.length < NAME_SIZE)
    (hredirected : Redirected [layout.progStderr] target
      [.remove layout.progStderr, .vfsCreate layout.progStderr] st st') :
    Reads layout st' (s.redirect ['2'.toUInt8, '>'.toUInt8] target) := by
  obtain ⟨-, hin, hout⟩ := buffers_ne hapart
  have hname := hredirected.target layout.progStderr (by simp)
  have hnext := hreads.redirected [.remove target, .create target] hapart (by simp [buffers])
    hredirected hfits (.cons hname (.cons hname .nil))
  simpa [Streams.redirect, hin, hout] using hnext

theorem Reads.both (hreads : Reads layout st s) (hapart : Apart (buffers layout))
    (hfits : target.length < NAME_SIZE)
    (hredirected : Redirected [layout.progStdout, layout.progStderr] target
      [.remove layout.progStdout, .remove layout.progStderr, .vfsCreate layout.progStdout,
        .vfsCreate layout.progStderr] st st') :
    Reads layout st' (s.redirect ['&'.toUInt8, '>'.toUInt8] target) := by
  obtain ⟨hout, herr, -⟩ := buffers_ne hapart
  have hname := hredirected.target layout.progStdout (by simp)
  have hname' := hredirected.target layout.progStderr (by simp)
  have hnext := hreads.redirected [.remove target, .remove target, .create target, .create target]
    hapart (by simp [buffers]) hredirected hfits
    (.cons hname (.cons hname' (.cons hname (.cons hname' .nil))))
  have hother : '&'.toUInt8 ≠ '2'.toUInt8 := by decide
  simpa [Streams.redirect, hother, hout, herr] using hnext

-- What a line makes of the streams.
def launches (s : Streams) (line : List UInt8) : Streams := (segments line).foldl Segment.apply s

theorem launches_cons {c : UInt8} {rest : List UInt8} {segment : Segment}
    (hsegments : segments (c :: l) = segment :: segments rest) (s : Streams) :
    launches s (c :: l) = launches (segment.apply s) rest := by
  rw [launches, hsegments, List.foldl_cons, launches]

theorem erase_same (st : ArgvState) : SameEffects st st.erase := ⟨rfl, rfl, rfl⟩

theorem redirectOf_fits {operator : List UInt8} (hfits : (redirectOf operator l).Fits) :
    ((l.dropWhile isSpace).takeWhile inWord).length < NAME_SIZE := hfits

-- A redirection of the loop, and what is left for it to do.
theorem redirect_rest {f : ArgvState → Option ArgvState} {calls : List Call} {operator : List UInt8}
    (hloop : (redirect st bases calls).bind f = some st') (hapart : Apart bases)
    (h : Holds st.string st.index l) (hlen : l.length < INPUT_SIZE)
    (hfits : (redirectOf operator l).Fits) :
    ∃ next, f next = some st' ∧ Holds next.string next.index (behindTarget l) ∧
      Redirected bases ((l.dropWhile isSpace).takeWhile inWord) calls st next := by
  obtain ⟨next, hredirect, hrest⟩ := Option.bind_eq_some_iff.mp hloop
  obtain ⟨passed, hsame, hpassed⟩ := redirect_passed bases calls h hlen
  obtain rfl : passed = next := Option.some.inj (hsame.symm.trans hredirect)
  exact ⟨passed, hrest, hpassed.rest,
    redirect_redirected hapart h hlen (redirectOf_fits hfits) hredirect⟩

-- The loop takes the line one segment after the other.
theorem argvLoop_reads (hapart : Apart (buffers layout)) (isFile : Store → Bool)
    (h : Holds st.string st.index l) {fuel : Nat} (hfuel : l.length < fuel)
    (hlen : l.length < INPUT_SIZE) (hfits : ∀ segment ∈ segments l, segment.Fits)
    (hreads : Reads layout st s) (hloop : argvLoop layout isFile fuel st = some st') :
    Reads layout st' (launches s l) := by
  induction l using segments.induct generalizing st fuel s with
  | case1 =>
    obtain ⟨fuel, rfl⟩ := Nat.exists_eq_add_one.mpr (Nat.zero_lt_of_lt hfuel)
    have hend : st.string st.index = 0 := h
    rw [argvLoop, if_pos hend] at hloop
    cases hloop
    rw [launches, segments_nil]
    exact hreads
  | case2 c l hc ih =>
    obtain ⟨fuel, rfl⟩ := Nat.exists_eq_add_one.mpr (Nat.zero_lt_of_lt hfuel)
    have hsegments : segments (c :: l) = .space :: segments l := segments_of_space hc
    rw [hsegments, List.forall_mem_cons] at hfits
    rw [launches_cons hsegments]
    simp only [List.length_cons] at hfuel hlen
    rw [argvLoop_space h hc] at hloop
    exact ih (erase_passed h).rest (by omega) (by omega) hfits.2 (hreads.of_same (erase_same st)) hloop
  | case3 c l hc htwo ih =>
    obtain ⟨fuel, rfl⟩ := Nat.exists_eq_add_one.mpr (Nat.zero_lt_of_lt hfuel)
    obtain ⟨l, rfl⟩ := List.head?_eq_some_iff.mp htwo.2
    have hsegments : segments (c :: '>'.toUInt8 :: l) =
        redirectOf [c, '>'.toUInt8] l :: segments (behindTarget l) := segments_of_pair hc htwo
    rw [hsegments, List.forall_mem_cons] at hfits
    rw [launches_cons hsegments]
    simp only [List.length_cons] at hfuel hlen
    have hlong := behindTarget_length l
    have hsecond := erase_passed (erase_passed h).rest
    have herased : Reads layout st.erase.erase s :=
      hreads.of_same ((erase_same st).trans (erase_same st.erase))
    have hname := redirectOf_fits hfits.1
    rcases htwo.1 with rfl | rfl
    · rw [argvLoop_err h] at hloop
      obtain ⟨next, hrest, hbehind, hredirected⟩ :=
        redirect_rest hloop (by simp [Apart]) hsecond.rest (by omega) hfits.1
      exact ih hbehind (show (behindTarget l).length < fuel by omega)
        (show (behindTarget l).length < _ by omega) hfits.2 (herased.err hapart hname hredirected) hrest
    · rw [argvLoop_both h] at hloop
      have houterr : Apart [layout.progStdout, layout.progStderr] := (List.pairwise_cons.mp hapart).2
      obtain ⟨next, hrest, hbehind, hredirected⟩ :=
        redirect_rest hloop houterr hsecond.rest (by omega) hfits.1
      exact ih hbehind (show (behindTarget l).length < fuel by omega)
        (show (behindTarget l).length < _ by omega) hfits.2 (herased.both hapart hname hredirected) hrest
  | case4 c l hc htwo hone ih =>
    obtain ⟨fuel, rfl⟩ := Nat.exists_eq_add_one.mpr (Nat.zero_lt_of_lt hfuel)
    have hsegments := segments_of_single hc htwo hone
    rw [hsegments, List.forall_mem_cons] at hfits
    rw [launches_cons hsegments]
    simp only [List.length_cons] at hfuel hlen
    have hlong := behindTarget_length l
    have hop := erase_passed h
    have herased := hreads.of_same (erase_same st)
    have hname := redirectOf_fits hfits.1
    rcases hone with rfl | rfl
    · rw [argvLoop_out h] at hloop
      obtain ⟨next, hrest, hbehind, hredirected⟩ :=
        redirect_rest hloop (by simp [Apart]) hop.rest (by omega) hfits.1
      exact ih hbehind (show (behindTarget l).length < fuel by omega)
        (show (behindTarget l).length < _ by omega) hfits.2 (herased.out hapart hname hredirected) hrest
    · rw [argvLoop_into h] at hloop
      obtain ⟨next, hrest, hbehind, hredirected⟩ :=
        redirect_rest hloop (by simp [Apart]) hop.rest (by omega) hfits.1
      have hinto := herased.into hapart hname hredirected
      exact @ih (next.call (probes layout (isFile next.data))) _ hbehind _
        (show (behindTarget l).length < fuel by omega) (show (behindTarget l).length < _ by omega)
        hfits.2 (hinto.probed (isFile next.data)) hrest
  | case5 l hc htwo hone ih =>
    obtain ⟨fuel, rfl⟩ := Nat.exists_eq_add_one.mpr (Nat.zero_lt_of_lt hfuel)
    have hhead : l.head? ≠ some '>'.toUInt8 := fun hhead => htwo ⟨.inr rfl, hhead⟩
    have hsegments := segments_of_ampersand hhead
    rw [hsegments, List.forall_mem_cons] at hfits
    rw [launches_cons hsegments]
    simp only [List.length_cons] at hfuel hlen
    rw [argvLoop_ampersand h hhead] at hloop
    have hbackground : Reads layout { st.erase with noBlock := true } { s with noBlock := true } :=
      ⟨hreads.stdin, hreads.stdout, hreads.stderr, hreads.stdin_lt, hreads.stdout_lt,
        hreads.stderr_lt, rfl, hreads.changes⟩
    have hbehind : Holds ({ st.erase with noBlock := true } : ArgvState).string
        ({ st.erase with noBlock := true } : ArgvState).index l := (erase_passed h).rest
    exact ih hbehind (show l.length < fuel by omega) (by omega) hfits.2 hbackground hloop
  | case6 c l hc htwo hone hamp ih =>
    obtain ⟨fuel, rfl⟩ := Nat.exists_eq_add_one.mpr (Nat.zero_lt_of_lt hfuel)
    have hsegments := segments_of_word hc htwo hone hamp
    rw [hsegments, List.forall_mem_cons] at hfits
    rw [launches_cons hsegments]
    rw [argvLoop_word h hlen hc htwo hone hamp] at hloop
    simp only [List.length_cons] at hfuel hlen
    have hlong := (List.dropWhile_sublist inWord (l := l)).length_le
    let next : ArgvState := { st.push with index := st.index + (c :: l.takeWhile inWord).length }
    have hbehind : Holds next.string next.index (l.dropWhile inWord) := (word_stop h hc).2
    have hreads' : Reads layout next s := hreads.of_same ⟨rfl, rfl, rfl⟩
    exact ih hbehind (show (l.dropWhile inWord).length < fuel + 1 by omega) (by omega) hfits.2 hreads'
      hloop

-- Behind `get_argv` the buffers name the streams as the last redirection of each has them, the
-- files of the output redirections have been removed and created in the order of the line, and
-- `no_block` tells whether the line has an `&` of its own. The targets fit the buffers.
theorem get_argv_redirects (hapart : Apart (buffers layout)) (isFile : Store → Bool) {data : Store}
    (argv : Nat → Nat) {string : Store} {line stdin stdout stderr : List UInt8}
    (h : Holds string 0 line) (hlen : line.length ≤ 255)
    (hfits : ∀ segment ∈ segments line, segment.Fits)
    (hin : Holds data layout.progStdin stdin ∧ stdin.length < NAME_SIZE)
    (hout : Holds data layout.progStdout stdout ∧ stdout.length < NAME_SIZE)
    (herr : Holds data layout.progStderr stderr ∧ stderr.length < NAME_SIZE) :
    ∃ st, getArgv layout isFile data argv string = some st ∧
      Reads layout st (launches { stdin, stdout, stderr } line) := by
  have hshort : line.length < INPUT_SIZE := by
    simp only [INPUT_SIZE]
    omega
  have hfew := (words_length h.not_mem).1
  obtain ⟨st, hloop, -⟩ := @argvLoop_stored { string, argv, data, noBlock := false } line layout
    isFile h INPUT_SIZE hshort hshort (show 0 + (words line).length < 2 ^ 8 by omega)
  have hstart : Reads layout { string, argv, data, noBlock := false } { stdin, stdout, stderr } :=
    ⟨hin.1, hout.1, herr.1, hin.2, hout.2, herr.2, rfl, .nil⟩
  exact ⟨st, hloop, argvLoop_reads hapart isFile h hshort hshort hfits hstart hloop⟩

-- A line with two redirections of the same stream, in the background.
theorem ls_redirected_twice :
    ∃ st, getArgv ⟨0, 128, 256⟩ (fun _ => true) (fun _ => 0) (fun _ => 0)
        (write (fun _ => 0) 0 (bytesOf "ls >a >b &")) = some st ∧
      Reads ⟨0, 128, 256⟩ st (launches { stdin := [], stdout := [], stderr := [] }
        (bytesOf "ls >a >b &")) :=
  get_argv_redirects (by decide) _ _ (by decide +kernel) (by decide) (by decide +kernel) ⟨rfl, by decide⟩
    ⟨rfl, by decide⟩ ⟨rfl, by decide⟩

-- The file of the first redirection is made and left empty.
example : launches { stdin := [], stdout := [], stderr := [] } (bytesOf "ls >a >b &") =
    { stdin := [], stdout := bytesOf "b", stderr := [], noBlock := true
      changes := [.remove (bytesOf "a"), .create (bytesOf "a"), .remove (bytesOf "b"),
        .create (bytesOf "b")] } := by
  decide +kernel

end EchidnaOS.Shell
