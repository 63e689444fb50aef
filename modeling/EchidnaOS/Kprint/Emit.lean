import EchidnaOS.Kprint
import EchidnaOS.Lib.BoundedLog

namespace EchidnaOS.Kprint

open EchidnaOS.Lib EchidnaOS.Lib.Numeral

-- The log that the buffer is for.
abbrev KprintLog := BoundedLog UInt8 (KPRINT_BUF_MAX - 1)

structure KprintBuf.Holds (b : KprintBuf) (log : KprintLog) : Prop where
  index : b.index = log.entries.length
  text : b.text = log.entries

-- The emitter has a result, which means that it writes inside the buffer, and it puts the string
-- into the log.
def Puts (emit : KprintBuf → Option KprintBuf) (s : List UInt8) : Prop :=
  ∀ b log, b.Holds log → ∃ b', emit b = some b' ∧ b'.Holds (log.append s)

-- The C string at a pointer.
def cstr (string : List UInt8) : List UInt8 := string.takeWhile (· ≠ 0)

@[simp] theorem cstr_cons {c : UInt8} (hc : c ≠ 0) (string : List UInt8) :
    cstr (c :: string) = c :: cstr string := by
  simp [cstr, hc]

@[simp] theorem cstr_zero (string : List UInt8) : cstr (0 :: string) = [] := by
  simp [cstr]

theorem cstr_append {s : List UInt8} (hs : ∀ c ∈ s, c ≠ 0) (rest : List UInt8) :
    cstr (s ++ 0 :: rest) = s := by
  induction s with
  | nil => simp
  | cons c s ih =>
    rw [List.cons_append, cstr_cons (hs c (by simp)), ih fun c hc => hs c (by simp [hc])]

section Buffer

variable {b : KprintBuf} {log : KprintLog}

theorem holds_empty (stack : Vector UInt8 KPRINT_BUF_MAX) :
    KprintBuf.Holds { bytes := stack, index := 0 } BoundedLog.empty where
  index := rfl
  text := by simp [KprintBuf.text, BoundedLog.empty]

theorem holds_of_index (hindex : b.index ≤ KPRINT_BUF_MAX - 1) :
    ∃ log : KprintLog, b.Holds log := by
  have hlength : b.text.length = b.index := by
    have : b.index ≤ KPRINT_BUF_MAX := by omega
    simpa [KprintBuf.text] using this
  exact ⟨⟨b.text, by omega⟩, hlength.symm, rfl⟩

theorem put_holds (hb : b.Holds log) (hroom : log.entries.length < KPRINT_BUF_MAX - 1) (c : UInt8) :
    ∃ b', b.put c = some b' ∧ b'.Holds (log.append [c]) := by
  have hindex : b.index < KPRINT_BUF_MAX := by
    have := hb.index
    omega
  refine ⟨{ bytes := b.bytes.set b.index c hindex, index := b.index + 1 }, ?_, ?_, ?_⟩
  · simp [KprintBuf.put, KprintBuf.write, hindex]
  · have hentries := BoundedLog.append_singleton hroom c
    simp only [hentries, hb.index, List.length_append, List.length_singleton]
  · have htext := hb.text
    simp only [KprintBuf.text] at htext
    rw [BoundedLog.append_singleton hroom, KprintBuf.text, ← htext]
    simp [List.take_add_one, Vector.toList_set, List.take_set_of_le, hindex]

theorem terminate_holds (hb : b.Holds log) : ∃ b', b.terminate = some b' ∧ b'.Holds log := by
  have hindex : b.index < KPRINT_BUF_MAX := by
    have := hb.index
    have := log.fits
    simp only [KPRINT_BUF_MAX] at *
    omega
  refine ⟨{ b with bytes := b.bytes.set b.index 0 hindex }, ?_, hb.index, ?_⟩
  · simp [KprintBuf.terminate, KprintBuf.write, hindex]
  · have htext := hb.text
    simp only [KprintBuf.text] at htext
    simp [KprintBuf.text, Vector.toList_set, List.take_set_of_le, htext]

theorem kputLoop_puts {string : List UInt8} (hnul : 0 ∈ string) :
    Puts (kputLoop string) (cstr string) := by
  induction string with
  | nil => simp at hnul
  | cons c string ih =>
    intro b log hb
    by_cases hc : c = 0
    · exact ⟨b, by simp [kputLoop, hc], by simpa [hc] using hb⟩
    have hrest : 0 ∈ string := by simpa [Ne.symm hc] using hnul
    by_cases hfull : b.index = KPRINT_BUF_MAX - 1
    · refine ⟨b, by simp [kputLoop, hc, hfull], ?_⟩
      rwa [BoundedLog.append_of_full (by rw [← hb.index, hfull])]
    · have hroom : log.entries.length < KPRINT_BUF_MAX - 1 := by
        have := hb.index
        have := log.fits
        omega
      obtain ⟨b₁, hput, hb₁⟩ := put_holds hb hroom c
      obtain ⟨b₂, hloop, hb₂⟩ := ih hrest b₁ _ hb₁
      refine ⟨b₂, by simp [kputLoop, hc, hfull, hput, hloop], ?_⟩
      rwa [cstr_cons hc, BoundedLog.append_cons]

theorem knputLoop_puts {len : Nat} {string : List UInt8} (hlen : len ≤ string.length) :
    Puts (knputLoop len string) (string.take len) := by
  induction len generalizing string with
  | zero =>
    intro b log hb
    exact ⟨b, by simp [knputLoop], by simpa using hb⟩
  | succ len ih =>
    intro b log hb
    cases string with
    | nil => simp at hlen
    | cons c string =>
      by_cases hfull : b.index = KPRINT_BUF_MAX - 1
      · refine ⟨b, by simp [knputLoop, hfull], ?_⟩
        rwa [BoundedLog.append_of_full (by rw [← hb.index, hfull])]
      · have hroom : log.entries.length < KPRINT_BUF_MAX - 1 := by
          have := hb.index
          have := log.fits
          omega
        obtain ⟨b₁, hput, hb₁⟩ := put_holds hb hroom c
        obtain ⟨b₂, hloop, hb₂⟩ := ih (show len ≤ string.length by simpa using hlen) b₁ _ hb₁
        refine ⟨b₂, by simp [knputLoop, hfull, hput, hloop], ?_⟩
        rwa [List.take_succ_cons, BoundedLog.append_cons]

end Buffer

-- One emitter after the other.
theorem Puts.bind {emit emit' : KprintBuf → Option KprintBuf} {s t : List UInt8} (h : Puts emit s)
    (h' : Puts emit' t) : Puts (fun b => emit b >>= emit') (s ++ t) := by
  intro b log hb
  obtain ⟨b₁, hemit, hb₁⟩ := h b log hb
  obtain ⟨b₂, hemit', hb₂⟩ := h' b₁ _ hb₁
  exact ⟨b₂, by simp [hemit, hemit'], by simpa using hb₂⟩

theorem Puts.terminate {emit : KprintBuf → Option KprintBuf} {s : List UInt8} (h : Puts emit s) :
    Puts (fun b => emit b >>= KprintBuf.terminate) s := by
  intro b log hb
  obtain ⟨b₁, hemit, hb₁⟩ := h b log hb
  obtain ⟨b₂, hterm, hb₂⟩ := terminate_holds hb₁
  exact ⟨b₂, by simp [hemit, hterm], hb₂⟩

theorem kputS_puts {string : List UInt8} (hnul : 0 ∈ string) :
    Puts (kputS · string) (cstr string) :=
  (kputLoop_puts hnul).terminate

theorem knputS_puts {string : List UInt8} {len : Nat} (hlen : len ≤ string.length) :
    Puts (knputS · string len) (string.take len) :=
  (knputLoop_puts hlen).terminate

theorem kputchar_puts (c : UInt8) : Puts (kputchar · c) [c] := by
  have hput : Puts (fun b => if b.index < KPRINT_BUF_MAX - 1 then b.put c else some b) [c] := by
    intro b log hb
    by_cases hroom : log.entries.length < KPRINT_BUF_MAX - 1
    · obtain ⟨b', hput, hb'⟩ := put_holds hb hroom c
      exact ⟨b', by simp [hb.index, hroom, hput], hb'⟩
    · have hfull : log.entries.length = KPRINT_BUF_MAX - 1 := by
        have := log.fits
        omega
      exact ⟨b, by simp [hb.index, hroom], by rwa [BoundedLog.append_of_full hfull]⟩
  intro b log hb
  obtain ⟨b', hterm, hb'⟩ := hput.terminate b log hb
  refine ⟨b', ?_, hb'⟩
  rw [← hterm]
  simp only [kputchar]
  split <;> rfl

end EchidnaOS.Kprint
