import EchidnaOS.Shell
import Mathlib.Data.List.Chain
import Mathlib.Data.List.TakeWhile

namespace EchidnaOS.Shell

-- What a line is made of. A redirection has its operator, the spaces behind that and its target,
-- which is empty where the line ends first.
inductive Segment where
  | space
  | redirect (operator gap target : List UInt8)
  | ampersand
  | word (w : List UInt8)
  deriving DecidableEq

def Segment.bytes : Segment → List UInt8
  | .space => [' '.toUInt8]
  | .redirect operator gap target => operator ++ gap ++ target
  | .ampersand => ['&'.toUInt8]
  | .word w => w

def Segment.word? : Segment → Option (List UInt8)
  | .word w => some w
  | _ => none

def redirectOf (operator l : List UInt8) : Segment :=
  .redirect operator (l.takeWhile isSpace) ((l.dropWhile isSpace).takeWhile inWord)

def behindTarget (l : List UInt8) : List UInt8 := (l.dropWhile isSpace).dropWhile inWord

theorem behindTarget_length (l : List UInt8) : (behindTarget l).length ≤ l.length :=
  ((List.dropWhile_sublist _).trans (List.dropWhile_sublist _)).length_le

-- The segments of a line, from its first byte on.
def segments : List UInt8 → List Segment
  | [] => []
  | c :: l =>
    if isSpace c then .space :: segments l
    else if (c = '2'.toUInt8 ∨ c = '&'.toUInt8) ∧ l.head? = some '>'.toUInt8 then
      redirectOf [c, '>'.toUInt8] l.tail :: segments (behindTarget l.tail)
    else if c = '>'.toUInt8 ∨ c = '<'.toUInt8 then redirectOf [c] l :: segments (behindTarget l)
    else if c = '&'.toUInt8 then .ampersand :: segments l
    else .word (c :: l.takeWhile inWord) :: segments (l.dropWhile inWord)
termination_by l => l.length
decreasing_by
  · simp
  · have := behindTarget_length l.tail
    simp at *
    omega
  · have := behindTarget_length l
    simp
    omega
  · simp
  · have := (List.dropWhile_sublist inWord (l := l)).length_le
    simp
    omega

section Equations

variable {c : UInt8} {l : List UInt8}

theorem segments_of_space (hc : isSpace c) : segments (c :: l) = .space :: segments l := by
  rw [segments, if_pos hc]

theorem segments_of_pair (hc : ¬ isSpace c)
    (htwo : (c = '2'.toUInt8 ∨ c = '&'.toUInt8) ∧ l.head? = some '>'.toUInt8) :
    segments (c :: l) = redirectOf [c, '>'.toUInt8] l.tail :: segments (behindTarget l.tail) := by
  rw [segments, if_neg hc, if_pos htwo]

theorem segments_of_single (hc : ¬ isSpace c)
    (htwo : ¬ ((c = '2'.toUInt8 ∨ c = '&'.toUInt8) ∧ l.head? = some '>'.toUInt8))
    (hone : c = '>'.toUInt8 ∨ c = '<'.toUInt8) :
    segments (c :: l) = redirectOf [c] l :: segments (behindTarget l) := by
  rw [segments, if_neg hc, if_neg htwo, if_pos hone]

theorem segments_of_ampersand (hhead : l.head? ≠ some '>'.toUInt8) :
    segments ('&'.toUInt8 :: l) = .ampersand :: segments l := by
  rw [segments, if_neg (by decide), if_neg fun h => hhead h.2, if_neg (by decide), if_pos rfl]

theorem segments_of_word (hc : ¬ isSpace c)
    (htwo : ¬ ((c = '2'.toUInt8 ∨ c = '&'.toUInt8) ∧ l.head? = some '>'.toUInt8))
    (hone : ¬ (c = '>'.toUInt8 ∨ c = '<'.toUInt8)) (hamp : ¬ c = '&'.toUInt8) :
    segments (c :: l) = .word (c :: l.takeWhile inWord) :: segments (l.dropWhile inWord) := by
  rw [segments, if_neg hc, if_neg htwo, if_neg hone, if_neg hamp]

end Equations

-- The words of a line.
def words (line : List UInt8) : List (List UInt8) := (segments line).filterMap Segment.word?

-- The run of a word, by its first index and the one behind it.
def Segment.runs (index : Nat) : Segment → List (Nat × Nat)
  | .word w => [(index, index + w.length)]
  | _ => []

-- The runs of the words, for a line that starts at the index.
def wordRuns : Nat → List Segment → List (Nat × Nat)
  | _, [] => []
  | index, segment :: rest =>
    segment.runs index ++ wordRuns (index + segment.bytes.length) rest

theorem redirectOf_bytes (operator l : List UInt8) :
    (redirectOf operator l).bytes ++ behindTarget l = operator ++ l := by
  simp [redirectOf, Segment.bytes, behindTarget]

-- The segments take up the whole line.
theorem segments_spell (line : List UInt8) : (segments line).flatMap Segment.bytes = line := by
  induction line using segments.induct with
  | case1 => simp [segments]
  | case2 c l hc ih =>
    have hspace : c = ' '.toUInt8 := by simpa [isSpace] using hc
    rw [segments_of_space hc, List.flatMap_cons, ih]
    simp [Segment.bytes, hspace]
  | case3 c l hc htwo ih =>
    rw [segments_of_pair hc htwo, List.flatMap_cons, ih, redirectOf_bytes]
    cases l with
    | nil => simp at htwo
    | cons d l =>
      have : d = '>'.toUInt8 := by simpa using htwo.2
      simp [this]
  | case4 c l hc htwo hone ih =>
    rw [segments_of_single hc htwo hone, List.flatMap_cons, ih, redirectOf_bytes]
    rfl
  | case5 l hc htwo hone ih =>
    rw [segments_of_ampersand fun hhead => htwo ⟨.inr rfl, hhead⟩, List.flatMap_cons, ih]
    rfl
  | case6 c l hc htwo hone hamp ih =>
    rw [segments_of_word hc htwo hone hamp, List.flatMap_cons, ih]
    simp [Segment.bytes]

-- What follows a word of a line is a space, unless it is the end.
theorem dropWhile_inWord {l : List UInt8} (hnul : 0 ∉ l) :
    l.dropWhile inWord = [] ∨ ∃ rest, l.dropWhile inWord = ' '.toUInt8 :: rest := by
  induction l with
  | nil => exact .inl rfl
  | cons c l ih =>
    have hc : c ≠ 0 := fun h => hnul (by simp [h])
    have hl : 0 ∉ l := fun h => hnul (by simp [h])
    by_cases hspace : c = ' '.toUInt8
    · exact .inr ⟨l, by simp [inWord, hspace]⟩
    · have hword : inWord c = true := by
        simp only [inWord, bne_iff_ne, ne_eq, Bool.and_eq_true]
        exact ⟨hspace, hc⟩
      rw [List.dropWhile_cons_of_pos hword]
      exact ih hl

theorem not_mem_dropWhile {l : List UInt8} (hnul : 0 ∉ l) (p : UInt8 → Bool) :
    0 ∉ l.dropWhile p :=
  fun h => hnul ((List.dropWhile_sublist p).subset h)

-- What may stand behind a segment. Words and targets run up to a space, a target is missing only
-- at the end of the line, and an ampersand before `>` is part of an operator.
def Segment.Precedes : Segment → Segment → Prop
  | .space, _ => True
  | .redirect _ _ target, next => target ≠ [] ∧ next = .space
  | .ampersand, next => ∀ gap target, next ≠ .redirect ['>'.toUInt8] gap target
  | .word _, next => next = .space

@[simp] theorem segments_nil : segments [] = [] := by
  simp [segments]

@[simp] theorem segments_space (l : List UInt8) :
    segments (' '.toUInt8 :: l) = .space :: segments l := by
  rw [segments, if_pos (by decide)]

-- A line ends behind an operator without a target.
theorem behindTarget_nil {l : List UInt8} (hnul : 0 ∉ l)
    (hnone : (l.dropWhile isSpace).takeWhile inWord = []) : behindTarget l = [] := by
  unfold behindTarget
  cases hrest : l.dropWhile isSpace with
  | nil => rfl
  | cons c rest =>
    have hspace : isSpace c = false := by
      have hnonempty : l.dropWhile isSpace ≠ [] := by rw [hrest]; simp
      simpa [hrest] using List.head_dropWhile_not isSpace hnonempty
    have hzero : c ≠ 0 := by
      rintro rfl
      exact not_mem_dropWhile hnul isSpace (by rw [hrest]; exact List.mem_cons_self)
    have hword : inWord c = true := by
      simp only [inWord, isSpace, beq_eq_false_iff_ne, bne_iff_ne, ne_eq, Bool.and_eq_true] at *
      exact ⟨hspace, hzero⟩
    rw [hrest, List.takeWhile_cons_of_pos hword] at hnone
    cases hnone

-- The first segment of a line is spelt at its start.
theorem segments_head {l : List UInt8} {segment : Segment} (h : (segments l).head? = some segment) :
    segment.bytes <+: l := by
  cases hsegments : segments l with
  | nil => simp [hsegments] at h
  | cons first rest =>
    obtain rfl : first = segment := by simpa [hsegments] using h
    have hspell := segments_spell l
    rw [hsegments, List.flatMap_cons] at hspell
    exact ⟨_, hspell⟩

theorem segments_chain {line : List UInt8} (hnul : 0 ∉ line) :
    (segments line).IsChain Segment.Precedes := by
  have opened : ∀ {l : List UInt8} (segment : Segment), 0 ∉ l →
      (l.dropWhile inWord ≠ [] → segment.Precedes .space) →
      (segments (l.dropWhile inWord)).IsChain Segment.Precedes →
      (segment :: segments (l.dropWhile inWord)).IsChain Segment.Precedes := by
    intro l segment hl hsegment hchain
    cases dropWhile_inWord hl with
    | inl hend => simp [hend]
    | inr hspace =>
      obtain ⟨rest, hrest⟩ := hspace
      have hprecedes := hsegment (by rw [hrest]; simp)
      rw [hrest, segments_space] at hchain ⊢
      exact List.isChain_cons_cons.mpr ⟨hprecedes, hchain⟩
  have target : ∀ {l : List UInt8} (operator : List UInt8), 0 ∉ l → behindTarget l ≠ [] →
      (redirectOf operator l).Precedes .space :=
    fun operator hl hmore => ⟨fun hnone => hmore (behindTarget_nil hl hnone), rfl⟩
  induction line using segments.induct with
  | case1 => simp
  | case2 c l hc ih =>
    rw [segments_of_space hc]
    exact List.IsChain.cons (ih fun h => hnul (by simp [h])) fun _ _ => trivial
  | case3 c l hc htwo ih =>
    have hl : 0 ∉ l.tail := fun h => hnul (by simp [List.mem_of_mem_tail h])
    rw [segments_of_pair hc htwo]
    exact opened _ (not_mem_dropWhile hl _) (target _ hl)
      (ih (not_mem_dropWhile (not_mem_dropWhile hl _) _))
  | case4 c l hc htwo hone ih =>
    have hl : 0 ∉ l := fun h => hnul (by simp [h])
    rw [segments_of_single hc htwo hone]
    exact opened _ (not_mem_dropWhile hl _) (target _ hl)
      (ih (not_mem_dropWhile (not_mem_dropWhile hl _) _))
  | case5 l hc htwo hone ih =>
    rw [segments_of_ampersand fun hhead => htwo ⟨.inr rfl, hhead⟩]
    apply List.IsChain.cons (ih fun h => hnul (by simp [h]))
    rintro next hnext gap target rfl
    obtain ⟨rest, rfl⟩ := segments_head (Option.mem_def.mp hnext)
    exact htwo ⟨.inr rfl, rfl⟩
  | case6 c l hc htwo hone hamp ih =>
    have hl : 0 ∉ l := fun h => hnul (by simp [h])
    rw [segments_of_word hc htwo hone hamp]
    exact opened _ hl (fun _ => rfl) (ih (not_mem_dropWhile hl _))

theorem words_nil : words [] = [] := by
  simp [words]

-- The operators of a redirection.
def operators : List (List UInt8) :=
  [['>'.toUInt8], ['<'.toUInt8], ['2'.toUInt8, '>'.toUInt8], ['&'.toUInt8, '>'.toUInt8]]

-- A word does not start with an operator, nor with an ampersand.
def Segment.Valid : Segment → Prop
  | .space | .ampersand => True
  | .redirect operator gap target =>
    operator ∈ operators ∧ (∀ c ∈ gap, isSpace c) ∧ ∀ c ∈ target, inWord c
  | .word w =>
    w ≠ [] ∧ (∀ c ∈ w, inWord c) ∧ w.head? ≠ some '&'.toUInt8 ∧
      ∀ operator ∈ operators, ¬ operator <+: w

-- A line as the shell's grammar has it.
structure IsReading (line : List UInt8) (parts : List Segment) : Prop where
  spells : parts.flatMap Segment.bytes = line
  valid : ∀ segment ∈ parts, segment.Valid
  follows : parts.IsChain Segment.Precedes

theorem redirectOf_valid {operator : List UInt8} (hop : operator ∈ operators) (l : List UInt8) :
    (redirectOf operator l).Valid :=
  ⟨hop, fun _ hc => List.mem_takeWhile_imp hc, fun _ hc => List.mem_takeWhile_imp hc⟩

theorem word_valid {c : UInt8} {l : List UInt8} (hnul : 0 ∉ c :: l) (hc : ¬ isSpace c)
    (htwo : ¬ ((c = '2'.toUInt8 ∨ c = '&'.toUInt8) ∧ l.head? = some '>'.toUInt8))
    (hone : ¬ (c = '>'.toUInt8 ∨ c = '<'.toUInt8)) (hamp : c ≠ '&'.toUInt8) :
    (Segment.word (c :: l.takeWhile inWord)).Valid := by
  have hword : inWord c = true := by
    simp only [inWord, bne_iff_ne, ne_eq, Bool.and_eq_true]
    exact ⟨by simpa [isSpace] using hc, fun h => hnul (by simp [h])⟩
  have hsecond : (l.takeWhile inWord).head? = some '>'.toUInt8 → l.head? = some '>'.toUInt8 := by
    cases l with
    | nil => simp
    | cons d l =>
      rw [List.takeWhile_cons]
      split_ifs <;> simp
  refine ⟨by simp, ?_, by simpa using hamp, ?_⟩
  · exact List.forall_mem_cons.mpr ⟨hword, fun _ hd => List.mem_takeWhile_imp hd⟩
  · intro operator hop hstart
    obtain ⟨rest, hrest⟩ := hstart
    simp only [operators, List.mem_cons, List.not_mem_nil, or_false] at hop
    obtain rfl | rfl | rfl | rfl := hop
    · exact hone (.inl (List.cons.inj hrest).1.symm)
    · exact hone (.inr (List.cons.inj hrest).1.symm)
    · have htail := (List.cons.inj hrest).2
      exact htwo ⟨.inl (List.cons.inj hrest).1.symm, hsecond (by rw [← htail]; rfl)⟩
    · exact hamp (List.cons.inj hrest).1.symm

theorem segments_valid {line : List UInt8} (hnul : 0 ∉ line) :
    ∀ segment ∈ segments line, segment.Valid := by
  induction line using segments.induct with
  | case1 => simp
  | case2 c l hc ih =>
    rw [segments_of_space hc]
    simpa [Segment.Valid] using ih fun h => hnul (by simp [h])
  | case3 c l hc htwo ih =>
    have hl : 0 ∉ l.tail := fun h => hnul (by simp [List.mem_of_mem_tail h])
    have hop : [c, '>'.toUInt8] ∈ operators := by
      cases htwo.1 with
      | inl h2 => simp [operators, h2]
      | inr hamp => simp [operators, hamp]
    rw [segments_of_pair hc htwo]
    exact List.forall_mem_cons.mpr
      ⟨redirectOf_valid hop _, ih (not_mem_dropWhile (not_mem_dropWhile hl _) _)⟩
  | case4 c l hc htwo hone ih =>
    have hl : 0 ∉ l := fun h => hnul (by simp [h])
    have hop : [c] ∈ operators := by
      cases hone with
      | inl hout => simp [operators, hout]
      | inr hin => simp [operators, hin]
    rw [segments_of_single hc htwo hone]
    exact List.forall_mem_cons.mpr
      ⟨redirectOf_valid hop _, ih (not_mem_dropWhile (not_mem_dropWhile hl _) _)⟩
  | case5 l hc htwo hone ih =>
    rw [segments_of_ampersand fun hhead => htwo ⟨.inr rfl, hhead⟩]
    simpa [Segment.Valid] using ih fun h => hnul (by simp [h])
  | case6 c l hc htwo hone hamp ih =>
    have hl : 0 ∉ l := fun h => hnul (by simp [h])
    rw [segments_of_word hc htwo hone hamp]
    exact List.forall_mem_cons.mpr
      ⟨word_valid hnul hc htwo hone hamp, ih (not_mem_dropWhile hl _)⟩

theorem segments_reading {line : List UInt8} (hnul : 0 ∉ line) : IsReading line (segments line) :=
  ⟨segments_spell line, segments_valid hnul, segments_chain hnul⟩

section Unique

variable {parts : List Segment} {line rest : List UInt8} {segment : Segment}

theorem head_ne {c d : UInt8} (hne : c ≠ d) (l : List UInt8) : (c :: l).head? ≠ some d := by
  simpa using hne

-- The rest of the line is empty or starts with a space.
def Stops (rest : List UInt8) : Prop := rest = [] ∨ ∃ more, rest = ' '.toUInt8 :: more

theorem takeWhile_stops {w : List UInt8} (hword : ∀ c ∈ w, inWord c) (hstops : Stops rest) :
    (w ++ rest).takeWhile inWord = w ∧ (w ++ rest).dropWhile inWord = rest := by
  rw [List.takeWhile_append_of_pos hword, List.dropWhile_append_of_pos hword]
  rcases hstops with rfl | ⟨more, rfl⟩
  · simp
  · simp [inWord]

-- Of a gap and a target that ends the line where it is missing.
theorem redirectOf_append {operator gap target : List UInt8} (hgap : ∀ c ∈ gap, isSpace c)
    (htarget : ∀ c ∈ target, inWord c) (hstops : Stops rest) (hnone : target = [] → rest = []) :
    redirectOf operator (gap ++ (target ++ rest)) = .redirect operator gap target ∧
      behindTarget (gap ++ (target ++ rest)) = rest := by
  have hfirst : (target ++ rest).takeWhile isSpace = [] ∧
      (target ++ rest).dropWhile isSpace = target ++ rest := by
    cases target with
    | nil => simp [hnone rfl]
    | cons c target =>
      have hc : isSpace c = false := by
        have hword := htarget c List.mem_cons_self
        simp only [inWord, bne_iff_ne, ne_eq, Bool.and_eq_true] at hword
        simpa [isSpace] using hword.1
      simp [hc]
  have hsplit := takeWhile_stops htarget hstops
  rw [redirectOf, behindTarget, List.takeWhile_append_of_pos hgap, List.dropWhile_append_of_pos hgap,
    hfirst.1, hfirst.2, hsplit.1, hsplit.2, List.append_nil]
  exact ⟨rfl, rfl⟩

theorem IsReading.tail (h : IsReading line (segment :: parts)) :
    IsReading (parts.flatMap Segment.bytes) parts where
  spells := rfl
  valid other hother := h.valid other (List.mem_cons_of_mem _ hother)
  follows := h.follows.tail

-- Behind a word or a target the line stops.
theorem stops_of_chain (hchain : (segment :: parts).IsChain Segment.Precedes)
    (hspace : ∀ next, segment.Precedes next → next = .space) :
    Stops (parts.flatMap Segment.bytes) := by
  cases parts with
  | nil => exact .inl rfl
  | cons next parts =>
    obtain rfl := hspace next (List.isChain_cons_cons.mp hchain).1
    exact .inr ⟨_, rfl⟩

theorem segments_word {w : List UInt8} (hvalid : (Segment.word w).Valid) (hstops : Stops rest) :
    segments (w ++ rest) = .word w :: segments rest := by
  obtain ⟨hnonempty, hword, hamp, hoperators⟩ := hvalid
  obtain ⟨c, w, rfl⟩ := List.exists_cons_of_ne_nil hnonempty
  have hsplit := takeWhile_stops (w := w) (fun d hd => hword d (List.mem_cons_of_mem _ hd)) hstops
  have hspace : ¬ isSpace c = true := by
    have hc := hword c List.mem_cons_self
    simp only [inWord, bne_iff_ne, ne_eq, Bool.and_eq_true] at hc
    simpa [isSpace] using hc.1
  have hone : ¬ (c = '>'.toUInt8 ∨ c = '<'.toUInt8) := by
    rintro (rfl | rfl)
    · exact hoperators ['>'.toUInt8] (by simp [operators]) ⟨w, rfl⟩
    · exact hoperators ['<'.toUInt8] (by simp [operators]) ⟨w, rfl⟩
  have hnotAmp : c ≠ '&'.toUInt8 := fun h => hamp (by rw [h]; rfl)
  have htwo : ¬ ((c = '2'.toUInt8 ∨ c = '&'.toUInt8) ∧ (w ++ rest).head? = some '>'.toUInt8) := by
    rintro ⟨htwo | h, hhead⟩
    · cases w with
      | nil =>
        rcases hstops with rfl | ⟨more, rfl⟩
        · cases hhead
        · exact head_ne (by decide) more hhead
      | cons d w =>
        obtain rfl : d = '>'.toUInt8 := by simpa using hhead
        exact hoperators ['2'.toUInt8, '>'.toUInt8] (by simp [operators]) ⟨w, by rw [htwo]; rfl⟩
    · exact hnotAmp h
  rw [List.cons_append, segments, if_neg hspace, if_neg htwo, if_neg hone, if_neg hnotAmp, hsplit.1,
    hsplit.2]

theorem segments_redirect {operator gap target : List UInt8}
    (hvalid : (Segment.redirect operator gap target).Valid) (hstops : Stops rest)
    (hnone : target = [] → rest = []) :
    segments (operator ++ gap ++ target ++ rest) =
      .redirect operator gap target :: segments rest := by
  obtain ⟨hoperator, hgap, htarget⟩ := hvalid
  obtain ⟨hredirect, hbehind⟩ :=
    @redirectOf_append rest operator gap target hgap htarget hstops hnone
  rw [List.append_assoc, List.append_assoc]
  simp only [operators, List.mem_cons, List.not_mem_nil, or_false] at hoperator
  obtain rfl | rfl | rfl | rfl := hoperator
  · have htwo : ¬ ('>'.toUInt8 = '2'.toUInt8 ∨ '>'.toUInt8 = '&'.toUInt8) := by decide
    rw [List.singleton_append, segments, if_neg (by decide), if_neg fun h => htwo h.1,
      if_pos (.inl rfl), hredirect, hbehind]
  · have htwo : ¬ ('<'.toUInt8 = '2'.toUInt8 ∨ '<'.toUInt8 = '&'.toUInt8) := by decide
    rw [List.singleton_append, segments, if_neg (by decide), if_neg fun h => htwo h.1,
      if_pos (.inr rfl), hredirect, hbehind]
  · rw [List.cons_append, List.singleton_append, segments, if_neg (by decide), if_pos (by simp),
      List.tail_cons, hredirect, hbehind]
  · rw [List.cons_append, List.singleton_append, segments, if_neg (by decide), if_pos (by simp),
      List.tail_cons, hredirect, hbehind]

theorem segments_ampersand (hchain : (Segment.ampersand :: parts).IsChain Segment.Precedes)
    (hvalid : ∀ segment ∈ parts, segment.Valid) :
    segments ('&'.toUInt8 :: parts.flatMap Segment.bytes) =
      .ampersand :: segments (parts.flatMap Segment.bytes) := by
  have hhead : (parts.flatMap Segment.bytes).head? ≠ some '>'.toUInt8 := by
    cases parts with
    | nil => simp
    | cons next parts =>
      have hnext := hvalid next List.mem_cons_self
      have hprecedes := (List.isChain_cons_cons.mp hchain).1
      intro hhead
      rw [List.flatMap_cons] at hhead
      cases next with
      | space | ampersand => exact head_ne (by decide) _ hhead
      | word w =>
        obtain ⟨c, w, rfl⟩ := List.exists_cons_of_ne_nil hnext.1
        obtain rfl : c = '>'.toUInt8 := by simpa [Segment.bytes] using hhead
        exact hnext.2.2.2 ['>'.toUInt8] (by simp [operators]) ⟨w, rfl⟩
      | redirect operator gap target =>
        have hoperator := hnext.1
        simp only [operators, List.mem_cons, List.not_mem_nil, or_false] at hoperator
        obtain rfl | rfl | rfl | rfl := hoperator
        · exact hprecedes gap target rfl
        · exact head_ne (c := '<'.toUInt8) (by decide) _ hhead
        · exact head_ne (c := '2'.toUInt8) (by decide) _ hhead
        · exact head_ne (c := '&'.toUInt8) (by decide) _ hhead
  exact segments_of_ampersand hhead

-- The grammar is not ambiguous.
theorem IsReading.unique (h : IsReading line parts) : parts = segments line := by
  induction parts generalizing line with
  | nil =>
    have hline : [] = line := h.spells
    rw [← hline, segments_nil]
  | cons segment parts ih =>
    have hrest := ih h.tail
    have hvalid := h.valid segment List.mem_cons_self
    rw [← h.spells, List.flatMap_cons]
    cases segment with
    | space => exact (congrArg _ hrest).trans (segments_space _).symm
    | ampersand =>
      have htail := h.tail.valid
      exact (congrArg _ hrest).trans (segments_ampersand h.follows htail).symm
    | word w =>
      have hstops := stops_of_chain h.follows fun _ hnext => hnext
      exact (congrArg _ hrest).trans (segments_word hvalid hstops).symm
    | redirect operator gap target =>
      have hstops := stops_of_chain h.follows fun _ hnext => hnext.2
      have hnone : target = [] → parts.flatMap Segment.bytes = [] := by
        intro hempty
        cases parts with
        | nil => rfl
        | cons next parts => exact absurd hempty (List.isChain_cons_cons.mp h.follows).1.1
      exact (congrArg _ hrest).trans (segments_redirect hvalid hstops hnone).symm

end Unique

-- Each word but the last has a space of its own behind it.
theorem words_length {line : List UInt8} (hnul : 0 ∉ line) :
    2 * (words line).length ≤ line.length + 1 ∧
      (line.head? = some ' '.toUInt8 → 2 * (words line).length ≤ line.length) := by
  induction line using segments.induct with
  | case1 => simp [words_nil]
  | case2 c l hc ih =>
    have := (ih fun h => hnul (by simp [h])).1
    rw [words, segments_of_space hc, List.filterMap_cons_none rfl, ← words]
    simp only [List.length_cons]
    omega
  | case3 c l hc htwo ih =>
    have hl : 0 ∉ l.tail := fun h => hnul (by simp [List.mem_of_mem_tail h])
    have := (ih (not_mem_dropWhile (not_mem_dropWhile hl _) _)).1
    have := behindTarget_length l.tail
    rw [words, segments_of_pair hc htwo, List.filterMap_cons_none rfl, ← words]
    simp only [List.length_cons, List.length_tail] at *
    omega
  | case4 c l hc htwo hone ih =>
    have hl : 0 ∉ l := fun h => hnul (by simp [h])
    have := (ih (not_mem_dropWhile (not_mem_dropWhile hl _) _)).1
    have := behindTarget_length l
    rw [words, segments_of_single hc htwo hone, List.filterMap_cons_none rfl, ← words]
    simp only [List.length_cons]
    omega
  | case5 l hc htwo hone ih =>
    have := (ih fun h => hnul (by simp [h])).1
    rw [words, segments_of_ampersand fun hhead => htwo ⟨.inr rfl, hhead⟩,
      List.filterMap_cons_none rfl, ← words]
    simp only [List.length_cons]
    omega
  | case6 c l hc htwo hone hamp ih =>
    have hl : 0 ∉ l := fun h => hnul (by simp [h])
    have hrest := (ih (not_mem_dropWhile hl _)).2
    have hshort := (List.dropWhile_sublist inWord (l := l)).length_le
    have hfirst : (c :: l).head? ≠ some ' '.toUInt8 := by simpa [isSpace] using hc
    rw [words, segments_of_word hc htwo hone hamp,
      List.filterMap_cons_some (f := Segment.word?) rfl, ← words]
    refine ⟨?_, fun h => absurd h hfirst⟩
    simp only [List.length_cons]
    cases dropWhile_inWord hl with
    | inl hend =>
      rw [hend, words_nil]
      simp
    | inr hspace =>
      obtain ⟨rest, hspace⟩ := hspace
      have := hrest (by rw [hspace]; rfl)
      omega

end EchidnaOS.Shell
