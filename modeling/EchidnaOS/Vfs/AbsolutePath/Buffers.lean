import EchidnaOS.Echfs.Directory.Resolve
import EchidnaOS.Vfs.AbsolutePath.Stale
import EchidnaOS.Vfs.AbsolutePath.Trace

namespace EchidnaOS.Vfs

open EchidnaOS.Lib.ByteStore EchidnaOS.Echfs

-- The parts that are left keep path_ptr inside the array, for the text that is there, the byte
-- before the array and the bytes at and behind offset `known`.
def Inside (front : UInt8) (stale : Store) : CString → Nat → List Component → Prop
  | text, _, [] => ¬ (text = [] ∧ front = 47) ∧ (closed text).length < PATH_BUFFER
  | text, known, .name chars :: rest =>
      (separatedFrom front text ++ chars).length ≤ PATH_BUFFER ∧
        Inside front stale (separatedFrom front text ++ chars)
          (max known (separatedFrom front text ++ chars).length) rest
  | text, known, .parent :: rest =>
      if known ≤ text.length ∧ stale text.length = 47 then
        text.length < PATH_BUFFER ∧ Inside front stale text (max known (text.length + 1)) rest
      else 47 ∈ text ∧ Inside front stale (up text) (max known (text.length + 1)) rest

-- The call writes to the array only.
def KeepsToBuffer (front : UInt8) (memory : Store) (pwd path : Text) : Prop :=
  ∃ final, Trace.vfsGetAbsolutePath front pwd.chars path.chars memory = some final ∧
    final.written ≤ PATH_BUFFER

-- path_resolver writes to its array only.
def KeepsToName (disk : Store) (m : Mount) (type : UInt8) (text : CString) : Prop :=
  (pathResolverText disk m text type).isSome = true

variable {front : UInt8} {stale memory : Store} {text : CString} {known written : Nat}
  {rest : List Component} {pwd path : Text}

instance decidableInside (front : UInt8) (stale : Store) : ∀ (text : CString) (known : Nat)
    (rest : List Component), Decidable (Inside front stale text known rest)
  | text, _, [] =>
      inferInstanceAs (Decidable (¬ (text = [] ∧ front = 47) ∧ (closed text).length < PATH_BUFFER))
  | text, known, .name chars :: rest =>
      have := decidableInside front stale (separatedFrom front text ++ chars)
        (max known (separatedFrom front text ++ chars).length) rest
      inferInstanceAs (Decidable ((separatedFrom front text ++ chars).length ≤ PATH_BUFFER ∧
        Inside front stale (separatedFrom front text ++ chars)
          (max known (separatedFrom front text ++ chars).length) rest))
  | text, known, .parent :: rest =>
      have := decidableInside front stale text (max known (text.length + 1)) rest
      have := decidableInside front stale (up text) (max known (text.length + 1)) rest
      inferInstanceAs (Decidable (if known ≤ text.length ∧ stale text.length = 47 then
        text.length < PATH_BUFFER ∧ Inside front stale text (max known (text.length + 1)) rest
        else 47 ∈ text ∧ Inside front stale (up text) (max known (text.length + 1)) rest))

theorem course_inside : (∃ result, course front stale text known written rest = some result ∧
    result.2 ≤ PATH_BUFFER) ↔ written ≤ PATH_BUFFER ∧ Inside front stale text known rest := by
  induction rest generalizing text known written with
  | nil =>
      rw [course, Inside]
      by_cases hfront : text = [] ∧ front = 47
      · simp [hfront]
      · rw [if_neg hfront]
        simp only [Option.some.injEq, exists_eq_left', hfront, not_false_eq_true, true_and]
        omega
  | cons component rest ih =>
      cases component with
      | name chars =>
          rw [course, Inside, ih, ← and_assoc]
          refine and_congr_left fun _ => ?_
          omega
      | parent =>
          rw [course, Inside]
          by_cases hstale : known ≤ text.length ∧ stale text.length = 47
          · rw [if_pos hstale, if_pos hstale, ih, ← and_assoc]
            refine and_congr_left fun _ => ?_
            omega
          · rw [if_neg hstale, if_neg hstale]
            by_cases hslash : 47 ∈ text
            · rw [if_pos hslash, ih]
              simp [hslash]
            · simp [hslash]

theorem Ran.written_iff {run : Option Trace} {spec : Option (CString × Nat)} (hran : Ran run spec) :
    (∃ final, run = some final ∧ final.written ≤ PATH_BUFFER) ↔
      ∃ result, spec = some result ∧ result.2 ≤ PATH_BUFFER := by
  have hbuffer : 2 ≤ PATH_BUFFER := by decide
  cases run with
  | none =>
      cases spec with
      | none => simp
      | some result => exact hran.elim
  | some final =>
      cases spec with
      | none => exact hran.elim
      | some result =>
          have hcount := hran.2
          simp only [Option.some.injEq, exists_eq_left']
          omega

theorem keepsToBuffer_iff (hpwd : pwd.chars.length < PATH_BUFFER) :
    KeepsToBuffer front memory pwd path ↔ path.chars = [] ∨
      Inside front memory (origin pwd.chars path.chars).1 (origin pwd.chars path.chars).2
        (components path.chars) := by
  unfold KeepsToBuffer
  by_cases hempty : path.chars = []
  · refine iff_of_true ?_ (Or.inl hempty)
    unfold Trace.vfsGetAbsolutePath
    rw [if_pos hempty]
    exact ⟨_, rfl, hpwd⟩
  · have hcopied : copiedLength pwd.chars path.chars ≤ PATH_BUFFER := by
      unfold copiedLength
      split
      · decide
      · exact hpwd
    rw [(vfsGetAbsolutePath_ran pwd path hempty memory).written_iff, course_inside]
    simp [hempty, hcopied]

theorem keepsToName_iff (disk : Store) (m : Mount) (type : UInt8) (text : CString) :
    KeepsToName disk m type text ↔
      ∀ part ∈ copied disk m { payload := ROOT_ID } (parts text), part.length < FILENAME_LEN := by
  unfold KeepsToName
  by_cases hroot : text = [47]
  · subst hroot
    refine iff_of_true ?_ ?_
    · unfold pathResolverText
      split
      · rfl
      split
      · rfl
      · rfl
    · intro part hpart
      have hnil : part ∈ [[]] := copied_subset hpart
      rw [List.mem_singleton.mp hnil]
      decide
  · rw [pathResolverText_of_not_root hroot]
    exact @resolveText_isSome_iff disk m type { payload := ROOT_ID } [] (skipSlash text) List.not_mem_nil

-- Neither routine checks a length: each array holds what fits it and is overrun by the rest.
theorem path_buffers_hold_iff (front : UInt8) (memory : Store) (pwd path : Text)
    (hpwd : pwd.chars.length < PATH_BUFFER) (disk : Store) (m : Mount) (type : UInt8) (text : CString) :
    (KeepsToBuffer front memory pwd path ↔ path.chars = [] ∨
      Inside front memory (origin pwd.chars path.chars).1 (origin pwd.chars path.chars).2
        (components path.chars)) ∧
    (KeepsToName disk m type text ↔
      ∀ part ∈ copied disk m { payload := ROOT_ID } (parts text), part.length < FILENAME_LEN) :=
  ⟨keepsToBuffer_iff hpwd, keepsToName_iff disk m type text⟩

def parentPath : Text where
  chars := [47, 97, 47, 46, 46]
  ends := by simp

-- /a/.. in a clean array, and /x/y on the image with the file /a.
theorem path_buffers_hold_short : KeepsToBuffer 0 (fun _ => 0) rootText parentPath ∧
    KeepsToName smallDisk smallMount FILE_TYPE [47, 120, 47, 121] := by
  have hiff := path_buffers_hold_iff 0 (fun _ => 0) rootText parentPath (by decide) smallDisk smallMount
    FILE_TYPE [47, 120, 47, 121]
  exact ⟨hiff.1.mpr (Or.inr (by decide)), hiff.2.mpr (by decide +kernel)⟩

-- A '/' and a long name.
def longPath (count : Nat) : Text where
  chars := 47 :: List.replicate count 97
  ends := by
    intro char hmem
    rcases List.mem_cons.mp hmem with rfl | hname
    · decide
    · rw [List.eq_of_mem_replicate hname]
      decide

theorem longPath_components {count : Nat} (hcount : 2 < count) :
    components (longPath count).chars = [.name (List.replicate count 97)] := by
  have hslash : 47 ∉ List.replicate count (97 : UInt8) := fun hmem =>
    absurd (List.eq_of_mem_replicate hmem) (by decide)
  have hlength : (List.replicate count (97 : UInt8)).length = count := List.length_replicate
  have hname : component (List.replicate count 97) = some (.name (List.replicate count 97)) := by
    have hne : ∀ other : CString, other.length ≤ 2 → List.replicate count 97 ≠ other := by
      intro other hshort heq
      rw [heq] at hlength
      omega
    unfold component
    rw [if_neg (not_or.mpr ⟨hne [] (by decide), hne [46] (by decide)⟩), if_neg (hne [46, 46] (by decide))]
  have hpath := components_slash (List.not_mem_nil (a := 47)) (List.replicate count 97)
  rw [components_last hslash, hname] at hpath
  exact hpath

theorem longPath_overruns {count : Nat} (hcount : PATH_BUFFER ≤ count) :
    ¬ KeepsToBuffer 0 (fun _ => 0) rootText (longPath count) := by
  have hlong : 2048 ≤ count := hcount
  have hroot : origin rootText.chars (longPath count).chars = ([47], 1) := rfl
  have hseparated : separatedFrom 0 [47] = [47] := by decide
  rw [keepsToBuffer_iff (by decide), hroot, longPath_components (by omega), Inside, hseparated]
  rintro (hempty | hinside)
  · cases hempty
  · have hle := hinside.1
    rw [List.length_append, List.length_replicate] at hle
    simp only [PATH_BUFFER, List.length_singleton] at hle
    omega

theorem longName_overruns {count : Nat} (hcount : FILENAME_LEN ≤ count) (disk : Store) (m : Mount)
    (type : UInt8) : ¬ KeepsToName disk m type (List.replicate count 97) := by
  have hslash : 47 ∉ List.replicate count (97 : UInt8) := fun hmem =>
    absurd (List.eq_of_mem_replicate hmem) (by decide)
  have hparts : parts (List.replicate count 97) = [List.replicate count 97] := by
    unfold parts skipSlash
    rw [if_neg (fun hhead => hslash (List.mem_of_head? hhead)), List.splitOn_eq_singleton hslash]
  rw [keepsToName_iff, hparts, copied]
  intro hall
  have hlt := hall _ List.mem_cons_self
  rw [List.length_replicate] at hlt
  omega

-- 2048 letters behind a '/', and a name of 218 letters.
theorem long_paths_overrun : ¬ KeepsToBuffer 0 (fun _ => 0) rootText (longPath 2048) ∧
    ¬ KeepsToName smallDisk smallMount FILE_TYPE (List.replicate 218 97) :=
  ⟨longPath_overruns (by decide), longName_overruns (by decide) smallDisk smallMount FILE_TYPE⟩

end EchidnaOS.Vfs
