import EchidnaOS.Shell.Segments

namespace EchidnaOS.Shell

open EchidnaOS.Lib.ByteStore

-- The C string at an index.
def Holds (string : Store) : Nat → List UInt8 → Prop
  | index, [] => string index = 0
  | index, c :: l => string index = c ∧ c ≠ 0 ∧ Holds string (index + 1) l

instance decidableHolds (string : Store) :
    ∀ (index : Nat) (l : List UInt8), Decidable (Holds string index l)
  | index, [] => inferInstanceAs (Decidable (string index = 0))
  | index, c :: l =>
      have := decidableHolds string (index + 1) l
      inferInstanceAs (Decidable (string index = c ∧ c ≠ 0 ∧ Holds string (index + 1) l))

section Line

variable {string string' : Store} {index : Nat} {l : List UInt8} {p : UInt8 → Bool}

theorem Holds.not_mem (h : Holds string index l) : 0 ∉ l := by
  induction l generalizing index with
  | nil => simp
  | cons c l ih => simpa using ⟨h.2.1.symm, ih h.2.2⟩

-- A string is read off its own bytes and the one behind them.
theorem Holds.congr (h : Holds string index l)
    (hsame : ∀ j, index ≤ j → j ≤ index + l.length → string' j = string j) :
    Holds string' index l := by
  induction l generalizing index with
  | nil => exact (hsame index (by omega) (by simp)).trans h
  | cons c l ih =>
    refine ⟨(hsame index (by omega) (by omega)).trans h.1, h.2.1, ih h.2.2 ?_⟩
    intro j hlow hhigh
    exact hsame j (by omega) (by simp; omega)

-- A string up to a byte that becomes its terminator.
theorem Holds.take (h : Holds string index l) {n : Nat} (hn : n ≤ l.length)
    (hsame : ∀ j, index ≤ j → j < index + n → string' j = string j)
    (hend : string' (index + n) = 0) : Holds string' index (l.take n) := by
  induction n generalizing index l with
  | zero => exact hend
  | succ n ih =>
    cases l with
    | nil => simp at hn
    | cons c l =>
      refine ⟨(hsame index (by omega) (by omega)).trans h.1, h.2.1, ih h.2.2 ?_ ?_ ?_⟩
      · simpa using hn
      · intro j hlow hhigh
        exact hsame j (by omega) (by omega)
      · rwa [show index + 1 + n = index + (n + 1) by omega]

theorem Holds.drop (h : Holds string index l) {n : Nat} (hn : n ≤ l.length) :
    Holds string (index + n) (l.drop n) := by
  induction n generalizing index l with
  | zero => exact h
  | succ n ih =>
    cases l with
    | nil => simp at hn
    | cons c l =>
      have := ih h.2.2 (show n ≤ l.length by simpa using hn)
      rwa [show index + 1 + n = index + (n + 1) by omega] at this

-- The bytes that the loop over a class of bytes passes.
def run (p : UInt8 → Bool) (l : List UInt8) : Nat := (l.takeWhile p).length

theorem run_le (p : UInt8 → Bool) (l : List UInt8) : run p l ≤ l.length :=
  (List.takeWhile_sublist p).length_le

theorem drop_run (p : UInt8 → Bool) (l : List UInt8) : l.drop (run p l) = l.dropWhile p := by
  have hdrop : (l.takeWhile p ++ l.dropWhile p).drop (run p l) = l.dropWhile p :=
    List.drop_left' rfl
  rwa [List.takeWhile_append_dropWhile] at hdrop

theorem Holds.dropWhile (h : Holds string index l) (p : UInt8 → Bool) :
    Holds string (index + run p l) (l.dropWhile p) := by
  rw [← drop_run]
  exact h.drop (run_le p l)

theorem advance_eq (hp : p 0 = false) (h : Holds string index l) {fuel : Nat}
    (hfuel : l.length < fuel) : advance p string fuel index = some (index + run p l) := by
  induction l generalizing index fuel with
  | nil =>
    cases fuel with
    | zero => simp at hfuel
    | succ fuel =>
      have hend : string index = 0 := h
      simp [advance, run, hend, hp]
  | cons c l ih =>
    cases fuel with
    | zero => simp at hfuel
    | succ fuel =>
      by_cases hc : p c
      · have hrun : run p (c :: l) = run p l + 1 := by simp [run, hc]
        rw [advance, h.1, if_pos hc, ih h.2.2 (by simpa using hfuel), hrun]
        congr 1
        omega
      · have hrun : run p (c :: l) = 0 := by simp [run, hc]
        rw [advance, h.1, if_neg hc, hrun]
        rfl

@[simp] theorem isSpace_zero : isSpace 0 = false := rfl

@[simp] theorem inWord_zero : inWord 0 = false := rfl

theorem redirectOf_length (operator l : List UInt8) :
    (redirectOf operator l).bytes.length =
      operator.length + run isSpace l + run inWord (l.dropWhile isSpace) := by
  simp [redirectOf, Segment.bytes, run, Nat.add_assoc]

theorem skipTarget_eq (operator : List UInt8) (h : Holds string (index + operator.length) l)
    (hlen : l.length < INPUT_SIZE) :
    skipTarget string (index + operator.length) =
      some (index + (redirectOf operator l).bytes.length) ∧
    Holds string (index + (redirectOf operator l).bytes.length) (behindTarget l) := by
  have hspaces := h.dropWhile isSpace
  have hrest : (l.dropWhile isSpace).length < INPUT_SIZE :=
    (List.dropWhile_sublist _).length_le.trans_lt hlen
  have hstop := hspaces.dropWhile inWord
  simp only [redirectOf_length, ← Nat.add_assoc]
  exact ⟨by simp [skipTarget, advance_eq isSpace_zero h hlen, advance_eq inWord_zero hspaces hrest],
    hstop⟩

theorem startsTwo_iff {c : UInt8} (h : Holds string index (c :: l)) (first : Char) :
    startsTwo string index first '>' = true ↔
      c = first.toUInt8 ∧ l.head? = some '>'.toUInt8 := by
  have hnext : string (index + 1) = '>'.toUInt8 ↔ l.head? = some '>'.toUInt8 := by
    cases l with
    | nil =>
      have hend : string (index + 1) = 0 := h.2.2
      simp only [hend, List.head?_nil]
      decide
    | cons d l => simp [h.2.2.1]
  simp [startsTwo, h.1, hnext]

theorem startsTwo_not {c : UInt8} (h : Holds string index (c :: l))
    (htwo : ¬ ((c = '2'.toUInt8 ∨ c = '&'.toUInt8) ∧ l.head? = some '>'.toUInt8)) :
    ¬ startsTwo string index '2' '>' ∧ ¬ startsTwo string index '&' '>' := by
  rw [startsTwo_iff h, startsTwo_iff h, ← not_or, ← or_and_right]
  exact htwo

-- The word that the line starts with.
theorem word_stop {c : UInt8} (h : Holds string index (c :: l)) (hc : ¬ isSpace c) :
    run inWord (c :: l) = (c :: l.takeWhile inWord).length ∧
      Holds string (index + (c :: l.takeWhile inWord).length) (l.dropWhile inWord) := by
  have hword : inWord c = true := by
    simp only [inWord, bne_iff_ne, ne_eq, Bool.and_eq_true]
    exact ⟨by simpa [isSpace] using hc, h.2.1⟩
  have hrun : run inWord (c :: l) = (c :: l.takeWhile inWord).length := by
    simp [run, hword]
  have hrest := h.dropWhile inWord
  rw [List.dropWhile_cons_of_pos hword, hrun] at hrest
  exact ⟨hrun, hrest⟩

-- The loop of `get_argc` counts the words of what is left of the line.
theorem argcLoop_eq (h : Holds string index l) {fuel : Nat} (hfuel : l.length < fuel)
    (hlen : l.length < INPUT_SIZE) (argc : Nat) (runs : List (Nat × Nat)) :
    argcLoop string fuel index argc runs =
      some (argc + (wordRuns index (segments l)).length,
        runs ++ wordRuns index (segments l)) := by
  induction l using segments.induct generalizing index fuel argc runs with
  | case1 =>
    obtain ⟨fuel, rfl⟩ := Nat.exists_eq_add_one.mpr (Nat.zero_lt_of_lt hfuel)
    have hend : string index = 0 := h
    simp [argcLoop, hend, wordRuns]
  | case2 c l hc ih =>
    obtain ⟨fuel, rfl⟩ := Nat.exists_eq_add_one.mpr (Nat.zero_lt_of_lt hfuel)
    simp only [List.length_cons] at hfuel hlen
    rw [argcLoop, h.1, if_neg h.2.1, if_pos hc]
    rw [segments_of_space hc, wordRuns]
    exact ih h.2.2 (by omega) (by omega) argc runs
  | case3 c l hc htwo ih =>
    obtain ⟨fuel, rfl⟩ := Nat.exists_eq_add_one.mpr (Nat.zero_lt_of_lt hfuel)
    have hpair : startsTwo string index '2' '>' ∨ startsTwo string index '&' '>' := by
      rw [startsTwo_iff h, startsTwo_iff h, ← or_and_right]
      exact htwo
    cases l with
    | nil => simp at htwo
    | cons d l =>
      simp only [List.length_cons] at hfuel hlen
      obtain ⟨hskip, hrest⟩ := skipTarget_eq [c, '>'.toUInt8] h.2.2.2.2 (by omega)
      have hlong := behindTarget_length l
      rw [argcLoop, h.1, if_neg h.2.1, if_neg hc, if_pos hpair]
      rw [segments_of_pair hc htwo, wordRuns]
      simp only [List.length_cons, List.length_nil] at hskip
      simp only [hskip]
      exact ih hrest (by simp; omega) (by simp; omega) argc runs
  | case4 c l hc htwo hone ih =>
    obtain ⟨fuel, rfl⟩ := Nat.exists_eq_add_one.mpr (Nat.zero_lt_of_lt hfuel)
    have hpair := not_or.mpr (startsTwo_not h htwo)
    simp only [List.length_cons] at hfuel hlen
    obtain ⟨hskip, hrest⟩ := skipTarget_eq [c] h.2.2 (by omega)
    have hlong := behindTarget_length l
    rw [argcLoop, h.1, if_neg h.2.1, if_neg hc, if_neg hpair, if_pos hone]
    rw [segments_of_single hc htwo hone, wordRuns]
    simp only [List.length_singleton] at hskip
    simp only [hskip]
    exact ih hrest (by omega) (by omega) argc runs
  | case5 l hc htwo hone ih =>
    obtain ⟨fuel, rfl⟩ := Nat.exists_eq_add_one.mpr (Nat.zero_lt_of_lt hfuel)
    have hpair := not_or.mpr (startsTwo_not h htwo)
    simp only [List.length_cons] at hfuel hlen
    rw [argcLoop, h.1, if_neg h.2.1, if_neg hc, if_neg hpair, if_neg hone, if_pos rfl]
    rw [segments_of_ampersand fun hhead => htwo ⟨.inr rfl, hhead⟩, wordRuns]
    exact ih h.2.2 (by omega) (by omega) argc runs
  | case6 c l hc htwo hone hamp ih =>
    obtain ⟨fuel, rfl⟩ := Nat.exists_eq_add_one.mpr (Nat.zero_lt_of_lt hfuel)
    have hpair := not_or.mpr (startsTwo_not h htwo)
    obtain ⟨hword, hrest⟩ := word_stop h hc
    have hadvance := advance_eq inWord_zero h hlen
    rw [hword] at hadvance
    simp only [List.length_cons] at hfuel hlen
    have hlong := (List.dropWhile_sublist inWord (l := l)).length_le
    rw [argcLoop, h.1, if_neg h.2.1, if_neg hc, if_neg hpair, if_neg hone, if_neg hamp]
    rw [segments_of_word hc htwo hone hamp, wordRuns]
    simp only [hadvance]
    have hloop := ih hrest (show (l.dropWhile inWord).length < fuel by omega) (by omega) (argc + 1)
      (runs ++ [(index, index + (c :: l.takeWhile inWord).length)])
    refine hloop.trans ?_
    simp [Segment.runs, Segment.bytes, Nat.add_assoc, Nat.add_comm 1]

theorem Holds.append {s rest : List UInt8} (h : Holds string index (s ++ rest)) :
    read string index s.length = s ∧ Holds string (index + s.length) rest := by
  induction s generalizing index with
  | nil => exact ⟨rfl, h⟩
  | cons c s ih =>
    obtain ⟨hread, hrest⟩ := ih h.2.2
    rw [List.length_cons, read_succ, hread, h.1]
    exact ⟨rfl, by rwa [show index + (s.length + 1) = index + 1 + s.length by omega]⟩

-- What stands at a run.
def textOf (string : Store) (run : Nat × Nat) : List UInt8 := read string run.1 (run.2 - run.1)

theorem wordRuns_text {parts : List Segment}
    (h : Holds string index (parts.flatMap Segment.bytes)) :
    (wordRuns index parts).map (textOf string) = parts.filterMap Segment.word? := by
  induction parts generalizing index with
  | nil => rfl
  | cons segment parts ih =>
    obtain ⟨hread, hrest⟩ := Holds.append h
    rw [wordRuns, List.map_append, ih hrest]
    cases segment with
    | word w =>
      simp only [Segment.bytes] at hread
      simp [Segment.runs, Segment.word?, textOf, hread]
    | space | redirect | ampersand =>
      rw [List.filterMap_cons_none rfl]
      rfl

theorem wordRuns_words (h : Holds string index l) :
    (wordRuns index (segments l)).map (textOf string) = words l :=
  wordRuns_text (by rwa [segments_spell])

end Line

section Argv

variable {st st' st'' : ArgvState} {l rest rest' : List UInt8} {n m : Nat}

-- The parser passed some bytes of the line, and the rest of the line is still to come.
structure Passed (st : ArgvState) (n : Nat) (rest : List UInt8) (st' : ArgvState) : Prop where
  index : st'.index = st.index + n
  arg : st'.arg = st.arg
  argv : st'.argv = st.argv
  kept : ∀ j < st.index, st'.string j = st.string j
  rest : Holds st'.string st'.index rest

theorem Passed.trans (h : Passed st n rest st') (h' : Passed st' m rest' st'') :
    Passed st (n + m) rest' st'' where
  index := by rw [h'.index, h.index, Nat.add_assoc]
  arg := h'.arg.trans h.arg
  argv := h'.argv.trans h.argv
  kept := by
    intro j hj
    have := h.index
    exact (h'.kept j (by omega)).trans (h.kept j hj)
  rest := h'.rest

theorem erase_passed {c : UInt8} (h : Holds st.string st.index (c :: l)) :
    Passed st 1 l st.erase where
  index := rfl
  arg := rfl
  argv := rfl
  kept := fun j hj => Function.update_of_ne (by omega) _ _
  rest := h.2.2.congr fun j hlow _ => Function.update_of_ne (by omega) _ _

theorem store_passed (h : Holds st.string st.index l) (buffers : List Nat) (i : Nat) (c : UInt8) :
    Passed st 0 l (st.store buffers i c) := ⟨rfl, rfl, rfl, fun _ _ => rfl, h⟩

theorem eraseSpaces_passed (h : Holds st.string st.index l) {fuel : Nat} (hfuel : l.length < fuel) :
    ∃ st', eraseSpaces fuel st = some st' ∧ Passed st (run isSpace l) (l.dropWhile isSpace) st' := by
  induction l generalizing st fuel with
  | nil =>
    obtain ⟨fuel, rfl⟩ := Nat.exists_eq_add_one.mpr (Nat.zero_lt_of_lt hfuel)
    have hend : st.string st.index = 0 := h
    exact ⟨st, by simp [eraseSpaces, hend], rfl, rfl, rfl, fun _ _ => rfl, h⟩
  | cons c l ih =>
    obtain ⟨fuel, rfl⟩ := Nat.exists_eq_add_one.mpr (Nat.zero_lt_of_lt hfuel)
    by_cases hc : isSpace c
    · have hstep := erase_passed h
      obtain ⟨st', hloop, hst'⟩ := ih hstep.rest (by simpa using hfuel)
      have hrun : run isSpace (c :: l) = 1 + run isSpace l := by simp [run, hc, Nat.add_comm]
      refine ⟨st', by rw [eraseSpaces, h.1, if_pos hc, hloop], ?_⟩
      rw [hrun, List.dropWhile_cons_of_pos hc]
      exact hstep.trans hst'
    · have hrun : run isSpace (c :: l) = 0 := by simp [run, hc]
      refine ⟨st, by rw [eraseSpaces, h.1, if_neg hc], ?_⟩
      rw [hrun, List.dropWhile_cons_of_neg hc]
      exact ⟨rfl, rfl, rfl, fun _ _ => rfl, h⟩

theorem moveTarget_passed (buffers : List Nat) (h : Holds st.string st.index l) {fuel : Nat}
    (hfuel : l.length < fuel) (i : Nat) :
    ∃ st', moveTarget buffers fuel i st = some st' ∧
      Passed st (run inWord l) (l.dropWhile inWord) st' := by
  induction l generalizing st fuel i with
  | nil =>
    obtain ⟨fuel, rfl⟩ := Nat.exists_eq_add_one.mpr (Nat.zero_lt_of_lt hfuel)
    have hend : st.string st.index = 0 := h
    exact ⟨_, by simp [moveTarget, hend], store_passed h buffers i 0⟩
  | cons c l ih =>
    obtain ⟨fuel, rfl⟩ := Nat.exists_eq_add_one.mpr (Nat.zero_lt_of_lt hfuel)
    by_cases hc : inWord c
    · have hstore := store_passed h buffers i (st.string st.index)
      have hstep := hstore.trans (erase_passed hstore.rest)
      obtain ⟨st', hloop, hst'⟩ := ih hstep.rest (by simpa using hfuel) (i + 1)
      have hrun : run inWord (c :: l) = 0 + 1 + run inWord l := by simp [run, hc, Nat.add_comm]
      refine ⟨st', by rw [moveTarget, if_pos (by rwa [h.1]), hloop], ?_⟩
      rw [hrun, List.dropWhile_cons_of_pos hc]
      exact hstep.trans hst'
    · have hrun : run inWord (c :: l) = 0 := by simp [run, hc]
      refine ⟨_, by rw [moveTarget, h.1, if_neg hc], ?_⟩
      rw [hrun, List.dropWhile_cons_of_neg hc]
      exact store_passed h buffers i 0

theorem redirect_passed (buffers : List Nat) (calls : List Call) (h : Holds st.string st.index l)
    (hlen : l.length < INPUT_SIZE) :
    ∃ st', redirect st buffers calls = some st' ∧
      Passed st (run isSpace l + run inWord (l.dropWhile isSpace)) (behindTarget l) st' := by
  have hrest : (l.dropWhile isSpace).length < INPUT_SIZE :=
    (List.dropWhile_sublist _).length_le.trans_lt hlen
  obtain ⟨st₁, hspaces, hst₁⟩ := eraseSpaces_passed h hlen
  obtain ⟨st₂, htarget, hst₂⟩ := moveTarget_passed buffers hst₁.rest hrest 0
  refine ⟨st₂.call calls, by simp [redirect, hspaces, htarget], ?_⟩
  have hboth := hst₁.trans hst₂
  exact ⟨hboth.index, hboth.arg, hboth.argv, hboth.kept, hboth.rest⟩

-- What the loop has stored for the words of a line.
structure Stored (st : ArgvState) (l : List UInt8) (st' : ArgvState) : Prop where
  arg : st'.arg = st.arg + (words l).length
  argv : ∀ k < st.arg, st'.argv k = st.argv k
  kept : ∀ j < st.index, st'.string j = st.string j
  -- Where the line does not go on with a word, the byte is a terminator now.
  ended : l.head? = none ∨ l.head? = some ' '.toUInt8 → st'.string st.index = 0
  pointers : ∀ k run, (wordRuns st.index (segments l))[k]? = some run →
    st'.argv (st.arg + k) = run.1
  strings : ∀ k w, (words l)[k]? = some w → Holds st'.string (st'.argv (st.arg + k)) w

-- A stretch of the line without a word goes before the words of the rest.
theorem Stored.of_passed (segment : Segment) {c : UInt8}
    (hpass : Passed st segment.bytes.length rest st') (hstored : Stored st' rest st'')
    (hsegments : segments (c :: l) = segment :: segments rest) (hnone : segment.word? = none)
    (hruns : segment.runs st.index = []) (hended : c = ' '.toUInt8 → st'.string st.index = 0)
    (hpos : 0 < segment.bytes.length) : Stored st (c :: l) st'' := by
  have hwords : words (c :: l) = words rest := by
    rw [words, hsegments, List.filterMap_cons_none hnone, words]
  have hindex := hpass.index
  constructor
  · rw [hstored.arg, hpass.arg, hwords]
  · intro k hk
    rw [hstored.argv k (by rwa [hpass.arg]), hpass.argv]
  · intro j hj
    exact (hstored.kept j (by omega)).trans (hpass.kept j hj)
  · intro h
    have hc : c = ' '.toUInt8 := by simpa using h
    exact (hstored.kept _ (by omega)).trans (hended hc)
  · intro k run hrun
    rw [hsegments, wordRuns, hruns, List.nil_append, ← hindex] at hrun
    rw [← hpass.arg]
    exact hstored.pointers k run hrun
  · intro k w hw
    rw [hwords] at hw
    rw [← hpass.arg]
    exact hstored.strings k w hw

-- Behind a word the loop goes on at its end.
theorem argvLoop_behind_word (layout : Layout) (isFile : Store → Bool) (fuel : Nat)
    (h : Holds st.string st.index l) (hl : l = [] ∨ ∃ rest, l = ' '.toUInt8 :: rest) :
    (if st.string st.index ≠ 0 then argvLoop layout isFile fuel st.erase else some st) =
      argvLoop layout isFile (fuel + 1) st := by
  cases hl with
  | inl hend =>
    subst hend
    have hzero : st.string st.index = 0 := h
    simp [argvLoop, hzero]
  | inr hspace =>
    obtain ⟨rest, rfl⟩ := hspace
    have hfirst : isSpace (st.string st.index) := by rw [h.1]; decide
    have hnext : st.string st.index ≠ 0 := by rw [h.1]; exact h.2.1
    rw [if_pos hnext, argvLoop, if_neg hnext, if_pos hfirst]

theorem words_of_segments {segment : Segment} {c : UInt8}
    (hsegments : segments (c :: l) = segment :: segments rest) (hnone : segment.word? = none) :
    words (c :: l) = words rest := by
  rw [words, hsegments, List.filterMap_cons_none hnone, words]

-- A redirection behind its operator, which has been erased.
theorem redirect_behind (operator : List UInt8) {st₀ : ArgvState}
    (hop : Passed st₀ operator.length l st) (hlen : l.length < INPUT_SIZE) (buffers : List Nat)
    (calls : List Call) :
    ∃ st', redirect st buffers calls = some st' ∧
      Passed st₀ (redirectOf operator l).bytes.length (behindTarget l) st' := by
  obtain ⟨st', hredirect, hst'⟩ := redirect_passed buffers calls hop.rest hlen
  refine ⟨st', hredirect, ?_⟩
  rw [redirectOf_length, Nat.add_assoc]
  exact hop.trans hst'

theorem Passed.call (h : Passed st n rest st') (calls : List Call) :
    Passed st n rest (st'.call calls) := ⟨h.index, h.arg, h.argv, h.kept, h.rest⟩

theorem Stored.of_redirect (operator : List UInt8) {c : UInt8}
    (hpass : Passed st (redirectOf operator rest).bytes.length (behindTarget rest) st')
    (hstored : Stored st' (behindTarget rest) st'')
    (hsegments : segments (c :: l) = redirectOf operator rest :: segments (behindTarget rest))
    (hc : ¬ isSpace c) (hpos : 0 < operator.length) : Stored st (c :: l) st'' := by
  refine hstored.of_passed _ hpass hsegments rfl rfl ?_ ?_
  · intro hspace
    exact absurd (by simp [isSpace, hspace]) hc
  · rw [redirectOf_length]
    omega

-- A word goes before the words behind it.
theorem Stored.of_word {c : UInt8} {w : List UInt8} (h : Holds st.string st.index (c :: l))
    (hw : c :: l = w ++ rest)
    (hrest : rest = [] ∨ ∃ r, rest = ' '.toUInt8 :: r) (harg : st.arg + 1 < 2 ^ 8)
    (hsegments : segments (c :: l) = .word w :: segments rest) (hc : ¬ isSpace c)
    (hstored : Stored { st.push with index := st.index + w.length } rest st') :
    Stored st (c :: l) st' := by
  have hwords : words (c :: l) = w :: words rest := by
    rw [words, hsegments, List.filterMap_cons_some (f := Segment.word?) rfl, words]
  have hnext : st.push.arg = st.arg + 1 := Nat.mod_eq_of_lt harg
  have hpointer : st'.argv st.arg = st.index := by
    have hkept := hstored.argv st.arg (show st.arg < st.push.arg by omega)
    rw [hkept]
    exact Function.update_self _ _ _
  constructor
  · have := hstored.arg
    simp only [hnext] at this
    rw [this, hwords, List.length_cons]
    omega
  · intro k hk
    have hkept := hstored.argv k (show k < st.push.arg by omega)
    exact hkept.trans (Function.update_of_ne (by omega) _ _)
  · intro j hj
    exact hstored.kept j (show j < st.index + w.length by omega)
  · intro hend
    have hspace : c = ' '.toUInt8 := by simpa using hend
    exact absurd (by simp [isSpace, hspace]) hc
  · intro k run hrun
    rw [hsegments, wordRuns] at hrun
    cases k with
    | zero =>
      have : (st.index, st.index + w.length) = run := by simpa [Segment.runs] using hrun
      rw [← this]
      exact hpointer
    | succ k =>
      have := hstored.pointers k run (by simpa [Segment.runs, Segment.bytes] using hrun)
      simp only [hnext] at this
      rwa [show st.arg + (k + 1) = st.arg + 1 + k by omega]
  · intro k text htext
    rw [hwords] at htext
    cases k with
    | zero =>
      obtain rfl : w = text := by simpa using htext
      have hend : st'.string (st.index + w.length) = 0 := by
        apply hstored.ended
        cases hrest with
        | inl hnone => exact .inl (by rw [hnone]; rfl)
        | inr hspace =>
          obtain ⟨r, hspace⟩ := hspace
          exact .inr (by rw [hspace]; rfl)
      have hlen : w.length ≤ (c :: l).length := by
        rw [hw, List.length_append]
        omega
      have htake := h.take hlen (fun j _ hj => hstored.kept j hj) hend
      rw [Nat.add_zero, hpointer]
      rwa [hw, List.take_left] at htake
    | succ k =>
      have := hstored.strings k text (by simpa using htext)
      simp only [hnext] at this
      rwa [show st.arg + (k + 1) = st.arg + 1 + k by omega]

-- What the loop does with the segment in front of it.
section Turns

variable {layout : Layout} {isFile : Store → Bool} {fuel : Nat} {c : UInt8}

theorem argvLoop_space (h : Holds st.string st.index (c :: l)) (hc : isSpace c) :
    argvLoop layout isFile (fuel + 1) st = argvLoop layout isFile fuel st.erase := by
  rw [argvLoop, h.1, if_neg h.2.1, if_pos hc]

theorem argvLoop_out (h : Holds st.string st.index ('>'.toUInt8 :: l)) :
    argvLoop layout isFile (fuel + 1) st =
      (redirect st.erase [layout.progStdout]
        [.remove layout.progStdout, .vfsCreate layout.progStdout]).bind
        (argvLoop layout isFile fuel) := by
  rw [argvLoop, h.1, if_neg (by decide), if_neg (by decide), if_pos rfl]
  rfl

theorem argvLoop_into (h : Holds st.string st.index ('<'.toUInt8 :: l)) :
    argvLoop layout isFile (fuel + 1) st =
      (redirect st.erase [layout.progStdin] []).bind fun st =>
        argvLoop layout isFile fuel (st.call (probes layout (isFile st.data))) := by
  rw [argvLoop, h.1, if_neg (by decide), if_neg (by decide), if_neg (by decide), if_pos rfl]
  rfl

theorem argvLoop_err (h : Holds st.string st.index ('2'.toUInt8 :: '>'.toUInt8 :: l)) :
    argvLoop layout isFile (fuel + 1) st =
      (redirect st.erase.erase [layout.progStderr]
        [.remove layout.progStderr, .vfsCreate layout.progStderr]).bind
        (argvLoop layout isFile fuel) := by
  have hpair := (startsTwo_iff h '2').mpr ⟨rfl, rfl⟩
  rw [argvLoop, h.1, if_neg (by decide), if_neg (by decide), if_neg (by decide), if_neg (by decide),
    if_pos hpair]
  rfl

theorem argvLoop_both (h : Holds st.string st.index ('&'.toUInt8 :: '>'.toUInt8 :: l)) :
    argvLoop layout isFile (fuel + 1) st =
      (redirect st.erase.erase [layout.progStdout, layout.progStderr]
        [.remove layout.progStdout, .remove layout.progStderr,
          .vfsCreate layout.progStdout, .vfsCreate layout.progStderr]).bind
        (argvLoop layout isFile fuel) := by
  have hpair := (startsTwo_iff h '&').mpr ⟨rfl, rfl⟩
  have hother : ¬ startsTwo st.string st.index '2' '>' := by
    rw [startsTwo_iff h]
    exact fun h => absurd h.1 (by decide)
  rw [argvLoop, h.1, if_neg (by decide), if_neg (by decide), if_neg (by decide), if_neg (by decide),
    if_neg hother, if_pos hpair]
  rfl

theorem argvLoop_ampersand (h : Holds st.string st.index ('&'.toUInt8 :: l))
    (hhead : l.head? ≠ some '>'.toUInt8) :
    argvLoop layout isFile (fuel + 1) st =
      argvLoop layout isFile fuel { st.erase with noBlock := true } := by
  obtain ⟨hnotTwo, hnotAmp⟩ := startsTwo_not h fun hpair => hhead hpair.2
  rw [argvLoop, h.1, if_neg (by decide), if_neg (by decide), if_neg (by decide), if_neg (by decide),
    if_neg hnotTwo, if_neg hnotAmp, if_pos rfl]

-- A word is passed; the byte behind it is looked at in the next turn.
theorem argvLoop_word (h : Holds st.string st.index (c :: l)) (hlen : (c :: l).length < INPUT_SIZE)
    (hc : ¬ isSpace c)
    (htwo : ¬ ((c = '2'.toUInt8 ∨ c = '&'.toUInt8) ∧ l.head? = some '>'.toUInt8))
    (hone : ¬ (c = '>'.toUInt8 ∨ c = '<'.toUInt8)) (hamp : ¬ c = '&'.toUInt8) :
    argvLoop layout isFile (fuel + 1) st = argvLoop layout isFile (fuel + 1)
      { st.push with index := st.index + (c :: l.takeWhile inWord).length } := by
  obtain ⟨hnotTwo, hnotAmp⟩ := startsTwo_not h htwo
  obtain ⟨hword, hrest⟩ := word_stop h hc
  have hadvance := advance_eq inWord_zero h hlen
  rw [hword] at hadvance
  have hl : 0 ∉ l := h.2.2.not_mem
  have hsame : advance inWord st.push.string INPUT_SIZE st.push.index =
    some (st.index + (c :: l.takeWhile inWord).length) := hadvance
  rw [argvLoop, h.1, if_neg h.2.1, if_neg hc, if_neg (fun h => hone (.inl h)),
    if_neg (fun h => hone (.inr h)), if_neg hnotTwo, if_neg hnotAmp, if_neg hamp]
  simp only [hsame]
  exact @argvLoop_behind_word
    { st.push with index := st.index + (c :: l.takeWhile inWord).length } _ layout isFile fuel hrest
    (dropWhile_inWord hl)

end Turns

theorem argvLoop_stored (layout : Layout) (isFile : Store → Bool)
    (h : Holds st.string st.index l) {fuel : Nat} (hfuel : l.length < fuel)
    (hlen : l.length < INPUT_SIZE) (hargs : st.arg + (words l).length < 2 ^ 8) :
    ∃ st', argvLoop layout isFile fuel st = some st' ∧ Stored st l st' := by
  induction l using segments.induct generalizing st fuel with
  | case1 =>
    obtain ⟨fuel, rfl⟩ := Nat.exists_eq_add_one.mpr (Nat.zero_lt_of_lt hfuel)
    have hend : st.string st.index = 0 := h
    refine ⟨st, by simp [argvLoop, hend], ?_⟩
    constructor <;> simp [words_nil, hend, wordRuns]
  | case2 c l hc ih =>
    obtain ⟨fuel, rfl⟩ := Nat.exists_eq_add_one.mpr (Nat.zero_lt_of_lt hfuel)
    have hsegments : segments (c :: l) = .space :: segments l := segments_of_space hc
    rw [words_of_segments hsegments rfl] at hargs
    simp only [List.length_cons] at hfuel hlen
    have hstep := erase_passed h
    obtain ⟨st', hloop, hst'⟩ :=
      ih hstep.rest (show l.length < fuel by omega) (by omega) (by rwa [hstep.arg])
    refine ⟨st', by rw [argvLoop_space h hc, hloop], ?_⟩
    exact hst'.of_passed .space hstep hsegments rfl rfl (fun _ => Function.update_self _ _ _)
      (by simp [Segment.bytes])
  | case3 c l hc htwo ih =>
    obtain ⟨fuel, rfl⟩ := Nat.exists_eq_add_one.mpr (Nat.zero_lt_of_lt hfuel)
    obtain ⟨l, rfl⟩ := List.head?_eq_some_iff.mp htwo.2
    have hsegments : segments (c :: '>'.toUInt8 :: l) =
        redirectOf [c, '>'.toUInt8] l :: segments (behindTarget l) := segments_of_pair hc htwo
    rw [words_of_segments hsegments rfl] at hargs
    simp only [List.length_cons] at hfuel hlen
    have hlong := behindTarget_length l
    have hfirst := erase_passed h
    have hop := hfirst.trans (erase_passed hfirst.rest)
    rcases htwo.1 with rfl | rfl
    · obtain ⟨st₁, hredirect, hst₁⟩ := redirect_behind ['2'.toUInt8, '>'.toUInt8] hop (by omega)
        [layout.progStderr] [.remove layout.progStderr, .vfsCreate layout.progStderr]
      obtain ⟨st', hloop, hst'⟩ := ih hst₁.rest (show (behindTarget l).length < fuel by omega)
        (show (behindTarget l).length < _ by omega) (by rwa [hst₁.arg])
      refine ⟨st', ?_, hst'.of_redirect _ hst₁ hsegments hc (by simp)⟩
      rw [argvLoop_err h, hredirect]
      exact hloop
    · obtain ⟨st₁, hredirect, hst₁⟩ := redirect_behind ['&'.toUInt8, '>'.toUInt8] hop (by omega)
        [layout.progStdout, layout.progStderr]
        [.remove layout.progStdout, .remove layout.progStderr,
          .vfsCreate layout.progStdout, .vfsCreate layout.progStderr]
      obtain ⟨st', hloop, hst'⟩ := ih hst₁.rest (show (behindTarget l).length < fuel by omega)
        (show (behindTarget l).length < _ by omega) (by rwa [hst₁.arg])
      refine ⟨st', ?_, hst'.of_redirect _ hst₁ hsegments hc (by simp)⟩
      rw [argvLoop_both h, hredirect]
      exact hloop
  | case4 c l hc htwo hone ih =>
    obtain ⟨fuel, rfl⟩ := Nat.exists_eq_add_one.mpr (Nat.zero_lt_of_lt hfuel)
    have hsegments := segments_of_single hc htwo hone
    rw [words_of_segments hsegments rfl] at hargs
    simp only [List.length_cons] at hfuel hlen
    have hlong := behindTarget_length l
    have hop := erase_passed h
    rcases hone with rfl | rfl
    · obtain ⟨st₁, hredirect, hst₁⟩ := redirect_behind ['>'.toUInt8] hop (by omega)
        [layout.progStdout] [.remove layout.progStdout, .vfsCreate layout.progStdout]
      obtain ⟨st', hloop, hst'⟩ := ih hst₁.rest (show (behindTarget l).length < fuel by omega)
        (show (behindTarget l).length < _ by omega) (by rwa [hst₁.arg])
      refine ⟨st', ?_, hst'.of_redirect _ hst₁ hsegments hc (by simp)⟩
      rw [argvLoop_out h, hredirect]
      exact hloop
    · obtain ⟨st₁, hredirect, hst₁⟩ := redirect_behind ['<'.toUInt8] hop (by omega) [layout.progStdin] []
      have hcall := hst₁.call (probes layout (isFile st₁.data))
      obtain ⟨st', hloop, hst'⟩ := ih hcall.rest (show (behindTarget l).length < fuel by omega)
        (show (behindTarget l).length < _ by omega) (by rwa [hcall.arg])
      refine ⟨st', ?_, hst'.of_redirect _ hcall hsegments hc (by simp)⟩
      rw [argvLoop_into h, hredirect]
      exact hloop
  | case5 l hc htwo hone ih =>
    obtain ⟨fuel, rfl⟩ := Nat.exists_eq_add_one.mpr (Nat.zero_lt_of_lt hfuel)
    have hhead : l.head? ≠ some '>'.toUInt8 := fun hhead => htwo ⟨.inr rfl, hhead⟩
    have hsegments := segments_of_ampersand hhead
    rw [words_of_segments hsegments rfl] at hargs
    simp only [List.length_cons] at hfuel hlen
    have hstep : Passed st 1 l { st.erase with noBlock := true } :=
      ⟨rfl, rfl, rfl, (erase_passed h).kept, (erase_passed h).rest⟩
    obtain ⟨st', hloop, hst'⟩ :=
      ih hstep.rest (show l.length < fuel by omega) (by omega) (by rwa [hstep.arg])
    refine ⟨st', ?_, hst'.of_passed .ampersand hstep hsegments rfl rfl (fun h => absurd h (by decide))
      (by simp [Segment.bytes])⟩
    rw [argvLoop_ampersand h hhead]
    exact hloop
  | case6 c l hc htwo hone hamp ih =>
    obtain ⟨fuel, rfl⟩ := Nat.exists_eq_add_one.mpr (Nat.zero_lt_of_lt hfuel)
    have hsegments := segments_of_word hc htwo hone hamp
    have hwords : words (c :: l) = (c :: l.takeWhile inWord) :: words (l.dropWhile inWord) := by
      rw [words, hsegments, List.filterMap_cons_some (f := Segment.word?) rfl, words]
    rw [hwords, List.length_cons] at hargs
    have hrest := (word_stop h hc).2
    have hturn := @argvLoop_word st l layout isFile fuel c h hlen hc htwo hone hamp
    simp only [List.length_cons] at hfuel hlen
    have hlong := (List.dropWhile_sublist inWord (l := l)).length_le
    have hl : 0 ∉ l := h.2.2.not_mem
    have harg : st.push.arg = st.arg + 1 := Nat.mod_eq_of_lt (by omega)
    obtain ⟨st', hloop, hst'⟩ := @ih
      { st.push with index := st.index + (c :: l.takeWhile inWord).length } hrest (fuel + 1)
      (by omega) (by omega) (show st.push.arg + _ < _ by omega)
    refine ⟨st', hturn.trans hloop, ?_⟩
    exact Stored.of_word h (by simp) (dropWhile_inWord hl) (by omega) hsegments hc hst'

end Argv

-- Both parsers read the line as the grammar has it, in the one way there is. They agree on the
-- runs of its words, where no operator, no target and no ampersand of its own is among them, and
-- each pointer designates its word as a string of its own.
theorem parsers_agree (layout : Layout) (isFile : Store → Bool) (data : Store) (argv : Nat → Nat)
    {string : Store} {line : List UInt8} (h : Holds string 0 line) (hlen : line.length ≤ 255) :
    ∃ parts st, IsReading line parts ∧ (∀ other, IsReading line other → other = parts) ∧
      (wordRuns 0 parts).map (textOf string) = parts.filterMap Segment.word? ∧
      getArgcRuns string = some ((wordRuns 0 parts).length, wordRuns 0 parts) ∧
      getArgv layout isFile data argv string = some st ∧
      getArgc string = some st.arg ∧
      ∀ k run, (wordRuns 0 parts)[k]? = some run →
        st.argv k = run.1 ∧ Holds st.string (st.argv k) (textOf string run) := by
  have htexts := wordRuns_words h
  have hlength : (wordRuns 0 (segments line)).length = (words line).length := by
    rw [← htexts, List.length_map]
  have hfew := (words_length h.not_mem).1
  have hcount := argcLoop_eq h (show line.length < INPUT_SIZE by simp [INPUT_SIZE]; omega)
    (by simp [INPUT_SIZE]; omega) 0 []
  rw [Nat.zero_add, List.nil_append] at hcount
  obtain ⟨st, hloop, hst⟩ := @argvLoop_stored { string, argv, data, noBlock := false } line layout
    isFile h INPUT_SIZE (by simp [INPUT_SIZE]; omega) (by simp [INPUT_SIZE]; omega)
    (by simp only; omega)
  have harg := hst.arg
  rw [Nat.zero_add] at harg
  refine ⟨segments line, st, segments_reading h.not_mem, fun _ hother => hother.unique, htexts, hcount,
    hloop, ?_, ?_⟩
  · simp [getArgc, getArgcRuns, hcount, harg, hlength]
  · intro k run hrun
    have hpointer := hst.pointers k run hrun
    have hstring := hst.strings k (textOf string run) (by
      rw [← htexts, List.getElem?_map, hrun]
      rfl)
    rw [Nat.zero_add] at hpointer hstring
    exact ⟨hpointer, hstring⟩

def bytesOf (text : String) : List UInt8 := text.toList.map Char.toUInt8

-- Two words, a redirection with a space before its target, and an ampersand.
def inBackground : List UInt8 := bytesOf "ls -l > f &"

def inBackgroundParts : List Segment :=
  [.word (bytesOf "ls"), .space, .word (bytesOf "-l"), .space,
    .redirect (bytesOf ">") (bytesOf " ") (bytesOf "f"), .space, .ampersand]

-- The target is a word for neither parser.
theorem parsers_agree_inBackground : ∃ st,
    getArgc (write (fun _ => 0) 0 inBackground) = some st.arg ∧ st.arg = 2 ∧
    getArgv ⟨0, 128, 256⟩ (fun _ => true) (fun _ => 0) (fun _ => 0)
      (write (fun _ => 0) 0 inBackground) = some st ∧
    st.argv 0 = 0 ∧ Holds st.string (st.argv 0) (bytesOf "ls") ∧
    st.argv 1 = 3 ∧ Holds st.string (st.argv 1) (bytesOf "-l") := by
  obtain ⟨parts, st, hreading, -, -, hcount, hloop, hargc, hwords⟩ :=
    parsers_agree ⟨0, 128, 256⟩ (fun _ => true) (fun _ => 0) (fun _ => 0)
      (show Holds (write (fun _ => 0) 0 inBackground) 0 inBackground by decide +kernel)
      (by decide +kernel)
  have hsegments : segments inBackground = inBackgroundParts := by decide +kernel
  obtain rfl := hreading.unique.trans hsegments
  have hruns : wordRuns 0 inBackgroundParts = [(0, 2), (3, 5)] := by decide +kernel
  rw [hruns] at hcount hwords
  obtain ⟨hfirst, hls⟩ := hwords 0 (0, 2) rfl
  obtain ⟨hsecond, hoption⟩ := hwords 1 (3, 5) rfl
  have htwo : some st.arg = some 2 := by rw [← hargc, getArgc, hcount]; rfl
  have htexts : textOf (write (fun _ => 0) 0 inBackground) (0, 2) = bytesOf "ls" ∧
      textOf (write (fun _ => 0) 0 inBackground) (3, 5) = bytesOf "-l" := by
    decide +kernel
  rw [htexts.1] at hls
  rw [htexts.2] at hoption
  exact ⟨st, hargc, Option.some.inj htwo, hloop, hfirst, hls, hsecond, hoption⟩

end EchidnaOS.Shell
