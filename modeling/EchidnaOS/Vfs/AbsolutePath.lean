import Mathlib.Data.List.DropRight
import EchidnaOS.Lib.ByteStore

namespace EchidnaOS.Vfs

open EchidnaOS.Lib.ByteStore

-- `char absolute_path[2048]` of the callers. An access outside it is `none`.
def PATH_BUFFER : Nat := 2048

-- kstrcpy to the start of the buffer.
def kstrcpy (buffer : Store) (source : CString) : Option Store :=
  if source.length < PATH_BUFFER then some (write buffer 0 (source ++ [0])) else none

-- The buffer and path_ptr, as an offset from orig_ptr.
structure Cursor where
  buffer : Store
  pathPtr : Nat

namespace Cursor

variable (s : Cursor)

-- *path_ptr = char
def put (char : UInt8) : Option Cursor :=
  if s.pathPtr < PATH_BUFFER then some { s with buffer := write s.buffer s.pathPtr [char] } else none

-- *path_ptr = char; path_ptr++
def append (char : UInt8) : Option Cursor :=
  (s.put char).map fun s => { s with pathPtr := s.pathPtr + 1 }

-- *(path_ptr - 1)
def before : Option UInt8 :=
  if s.pathPtr = 0 ∨ PATH_BUFFER < s.pathPtr then none else some (s.buffer (s.pathPtr - 1))

-- while (*path_ptr != '/') path_ptr--
def scan (buffer : Store) : Nat → Option Nat
  | 0 => if buffer 0 = 47 then some 0 else none
  | ptr + 1 => if buffer (ptr + 1) = 47 then some (ptr + 1) else scan buffer ptr

-- The scan, and if (path_ptr == orig_ptr) path_ptr++
def parent : Option Cursor :=
  if s.pathPtr < PATH_BUFFER then
    (scan s.buffer s.pathPtr).map fun ptr => { s with pathPtr := if ptr = 0 then 1 else ptr }
  else none

-- A '/' after what is there, unless it is the root or ends in one.
def separate : Option Cursor :=
  if s.pathPtr = 1 then some s
  else s.before.bind fun char => if char = 47 then some s else s.append 47

-- The code at the label `term`.
def term : Option Store :=
  s.before.bind fun char =>
    let ptr := if char = 47 ∧ s.pathPtr ≠ 1 then s.pathPtr - 1 else s.pathPtr
    (Cursor.put { s with pathPtr := ptr } 0).map Cursor.buffer

end Cursor

mutual

-- The loop of vfs_get_absolute_path.
def walk (s : Cursor) (path : CString) : Option Store :=
  match path with
  | [] => s.term
  | char :: path => if char = 47 then firstRun s path else (s.append char).bind fun s => walk s path
termination_by 2 * path.length

-- The code at the label `first_run`.
def firstRun (s : Cursor) (path : CString) : Option Store :=
  if path.head? = some 47 then walk s path
  else if path = [46] ∨ path = [46, 47] then s.term
  else if path = [46, 46] ∨ path = [46, 46, 47] then s.parent.bind Cursor.term
  else if [46, 46, 47] <+: path then
    s.parent.bind fun s => (s.put 0).bind fun s => walk s (path.drop 2)
  else if [46, 47] <+: path then walk s (path.drop 1)
  else s.separate.bind fun s => walk s path
termination_by 2 * path.length + 1
decreasing_by
  all_goals first | omega | (simp only [List.length_drop]; omega)

end

def vfsGetAbsolutePath (pwd path : CString) (buffer : Store) : Option Store :=
  if path = [] then kstrcpy buffer pwd
  else if path.head? = some 47 then
    (Cursor.append { buffer := buffer, pathPtr := 0 } 47).bind fun s => firstRun s path.tail
  else (kstrcpy buffer pwd).bind fun buffer => firstRun { buffer := buffer, pathPtr := pwd.length } path

-- The parts of a path that the loop acts on. Empty parts and `.` have no effect.
inductive Component where
  | name (chars : CString)
  | parent
  deriving DecidableEq, Repr

def component (part : CString) : Option Component :=
  if part = [] ∨ part = [46] then none
  else if part = [46, 46] then some .parent
  else some (.name part)

def components (path : CString) : List Component := (path.splitOn 47).filterMap component

-- The text below path_ptr after the scan, and the two places that look at its last character.
def up (text : CString) : CString :=
  let front := text.rdropWhile (· ≠ 47)
  if front.length = 1 then front else front.dropLast

def separated (text : CString) : CString :=
  if text.length = 1 ∨ text.getLast? = some 47 then text else text ++ [47]

def closed (text : CString) : CString :=
  if text.length ≠ 1 ∧ text.getLast? = some 47 then text.dropLast else text

-- From offset `known` on the buffer is as it was found. A '/' that is there at path_ptr ends the
-- scan before it begins.
def scanned (stale : Store) (text : CString) (known : Nat) : CString :=
  if known ≤ text.length ∧ stale text.length = 47 then text else up text

-- What the loop makes of a path.
def expand (stale : Store) (text : CString) (known : Nat) : List Component → CString
  | [] => closed text
  | .name chars :: rest =>
      expand stale (separated text ++ chars) (max known (separated text ++ chars).length) rest
  | .parent :: rest =>
      expand stale (scanned stale text known) (max known (text.length + 1)) rest

-- Where the loop starts, and up to where it knows the buffer: kstrcpy writes the NUL as well.
def origin (pwd path : CString) : CString × Nat :=
  if path.head? = some 47 then ([47], 1) else (pwd, pwd.length + 1)

def absolutePath (stale : Store) (pwd path : CString) : CString :=
  if path = [] then pwd
  else expand stale (origin pwd path).1 (origin pwd path).2 (components path)

-- The C string at the start of the buffer.
def string (buffer : Store) : CString := (read buffer 0 PATH_BUFFER).takeWhile (· ≠ 0)

-- The cursor is behind `text`.
structure Behind (s : Cursor) (text : CString) : Prop where
  ptr : s.pathPtr = text.length
  below : ∀ offset, offset < text.length → text[offset]? = some (s.buffer offset)
  ends : ∀ char ∈ text, char ≠ 0

-- Between `text` and `known` there is no '/', and from there on the buffer is as it was found.
structure Stands (stale : Store) (s : Cursor) (text : CString) (known : Nat) : Prop
    extends Behind s text where
  pos : 0 < known
  le : text.length ≤ known
  clean : ∀ offset, text.length ≤ offset → offset < known → s.buffer offset ≠ 47
  stale : ∀ offset, known ≤ offset → s.buffer offset = stale offset

variable {stale : Store} {s next : Cursor} {text path part : CString} {known : Nat} {char : UInt8}

theorem components_last (hpart : 47 ∉ part) : components part = (component part).toList := by
  unfold components
  rw [List.splitOn_eq_singleton hpart]
  cases hcomponent : component part with
  | none => simp [hcomponent]
  | some found => simp [hcomponent]

theorem components_slash (hpart : 47 ∉ part) (path : CString) :
    components (part ++ 47 :: path) = (component part).toList ++ components path := by
  unfold components
  rw [List.splitOn_append_cons_self_of_not_mem hpart]
  cases hcomponent : component part with
  | none => simp [hcomponent]
  | some found => simp [hcomponent]

theorem scan_spec {buffer : Store} {ptr found : Nat} (hfound : Cursor.scan buffer ptr = some found) :
    found ≤ ptr ∧ buffer found = 47 ∧
      ∀ offset, found < offset → offset ≤ ptr → buffer offset ≠ 47 := by
  induction ptr with
  | zero =>
      unfold Cursor.scan at hfound
      split at hfound
      · cases hfound
        exact ⟨Nat.le_refl 0, by assumption, fun offset hlow hhigh => by omega⟩
      · cases hfound
  | succ ptr ih =>
      unfold Cursor.scan at hfound
      split at hfound
      · cases hfound
        exact ⟨Nat.le_refl _, by assumption, fun offset hlow hhigh => by omega⟩
      · rename_i hslash
        obtain ⟨hle, hchar, hafter⟩ := ih hfound
        refine ⟨by omega, hchar, fun offset hlow hhigh => ?_⟩
        by_cases heq : offset = ptr + 1
        · exact heq ▸ hslash
        · exact hafter offset hlow (by omega)

theorem up_eq {ptr : Nat} (hslash : text[ptr]? = some 47)
    (hafter : ∀ offset, ptr < offset → text[offset]? ≠ some 47) :
    up text = text.take (if ptr = 0 then 1 else ptr) := by
  have hlt : ptr < text.length := (List.getElem?_eq_some_iff.mp hslash).1
  have hfront : text.take (ptr + 1) = text.take ptr ++ [47] := by
    rw [List.take_add_one, hslash]
    rfl
  have hback : ∀ char ∈ text.drop (ptr + 1), (decide (char ≠ 47)) = true := by
    intro char hmem
    obtain ⟨offset, hoffset⟩ := List.mem_iff_getElem?.mp hmem
    rw [List.getElem?_drop] at hoffset
    apply decide_eq_true
    rintro rfl
    exact hafter _ (by omega) hoffset
  have hdrop : text.rdropWhile (· ≠ 47) = text.take ptr ++ [47] := by
    have hsplit : text = text.take ptr ++ [47] ++ text.drop (ptr + 1) := by
      rw [← hfront, List.take_append_drop]
    conv_lhs => rw [hsplit]
    unfold List.rdropWhile
    rw [List.reverse_append, List.dropWhile_append_of_pos (by simpa using hback)]
    simp
  unfold up
  rw [hdrop]
  dsimp only
  have hlength : (text.take ptr ++ [47]).length = ptr + 1 := by
    rw [List.length_append, List.length_take, List.length_singleton]
    omega
  rw [hlength]
  by_cases hzero : ptr = 0
  · rw [if_pos (by omega), if_pos hzero, ← hfront, hzero]
  · rw [if_neg (by omega), if_neg hzero, List.dropLast_concat]

theorem Behind.getLast (hat : Behind s text) (hbefore : s.before = some char) :
    text.getLast? = some char := by
  unfold Cursor.before at hbefore
  split at hbefore
  · cases hbefore
  · rename_i hptr
    cases hbefore
    have hpos : 0 < text.length := by
      rw [← hat.ptr]
      omega
    rw [List.getLast?_eq_getElem?, hat.below _ (by omega), hat.ptr]

theorem string_eq {buffer : Store} (hbelow : ∀ offset, offset < text.length →
      text[offset]? = some (buffer offset)) (hends : ∀ char ∈ text, char ≠ 0)
    (hnul : buffer text.length = 0) (hlt : text.length < PATH_BUFFER) : string buffer = text := by
  have htext : Lib.ByteStore.read buffer 0 text.length = text := by
    apply List.ext_getElem?
    intro offset
    by_cases hoffset : offset < text.length
    · rw [hbelow offset hoffset]
      simp [Lib.ByteStore.read, hoffset]
    · rw [List.getElem?_eq_none (by simpa using hoffset), List.getElem?_eq_none (by omega)]
  have hrest : (Lib.ByteStore.read buffer 0 PATH_BUFFER).drop text.length =
      0 :: Lib.ByteStore.read buffer (text.length + 1) (PATH_BUFFER - text.length - 1) := by
    rw [read_drop, Nat.zero_add,
      show PATH_BUFFER - text.length = (PATH_BUFFER - text.length - 1) + 1 by omega, read_succ, hnul]
    rfl
  unfold string
  rw [← List.take_append_drop text.length (Lib.ByteStore.read buffer 0 PATH_BUFFER),
    read_take _ _ (Nat.le_of_lt hlt), htext, hrest, List.takeWhile_append_of_pos (by simpa using hends)]
  simp

theorem Behind.take (hat : Behind s text) {count : Nat} (hle : count ≤ text.length) :
    Behind { s with pathPtr := count } (text.take count) := by
  have hlength : (text.take count).length = count := List.length_take_of_le hle
  refine ⟨hlength.symm, ?_, fun char hmem => hat.ends char (List.mem_of_mem_take hmem)⟩
  intro offset hoffset
  rw [hlength] at hoffset
  rw [List.getElem?_take_of_lt hoffset]
  exact hat.below offset (by omega)

-- One character at path_ptr.
theorem Behind.mark (hat : Behind s text) (char : UInt8) :
    Behind { s with buffer := write s.buffer s.pathPtr [char] } text ∧
      write s.buffer s.pathPtr [char] text.length = char ∧
      ∀ offset, offset ≠ text.length → write s.buffer s.pathPtr [char] offset = s.buffer offset := by
  have hptr := hat.ptr
  have houtside : ∀ offset, offset ≠ text.length →
      write s.buffer s.pathPtr [char] offset = s.buffer offset := by
    intro offset hout
    exact write_outside _ _ _ _ (by rw [List.length_singleton]; omega)
  refine ⟨⟨hptr, ?_, hat.ends⟩, ?_, houtside⟩
  · intro offset hoffset
    dsimp only
    rw [houtside offset (by omega)]
    exact hat.below offset hoffset
  · have hwrite := write_inside s.buffer s.pathPtr [char] 0 Nat.one_pos
    rw [Nat.add_zero] at hwrite
    rw [← hptr]
    exact hwrite

theorem Behind.put (hat : Behind s text) (hnext : s.put char = some next) :
    Behind next text ∧ next.buffer text.length = char ∧ text.length < PATH_BUFFER ∧
      ∀ offset, offset ≠ text.length → next.buffer offset = s.buffer offset := by
  have hptr := hat.ptr
  unfold Cursor.put at hnext
  split at hnext
  · cases hnext
    obtain ⟨hbehind, hhere, hother⟩ := hat.mark char
    exact ⟨hbehind, hhere, by omega, hother⟩
  · cases hnext

theorem Behind.term (hat : Behind s text) {final : Store} (hfinal : s.term = some final) :
    string final = closed text := by
  unfold Cursor.term at hfinal
  obtain ⟨char, hbefore, hput⟩ := Option.bind_eq_some_iff.mp hfinal
  obtain ⟨last, hlast, rfl⟩ := Option.map_eq_some_iff.mp hput
  have hchar := hat.getLast hbefore
  have hclosed : closed text = text.take
      (if char = 47 ∧ s.pathPtr ≠ 1 then s.pathPtr - 1 else s.pathPtr) := by
    unfold closed
    rw [hat.ptr]
    by_cases hslash : char = 47 ∧ text.length ≠ 1
    · rw [if_pos hslash, if_pos ⟨hslash.2, by rw [hchar, hslash.1]⟩, List.dropLast_eq_take]
    · have hopen : ¬ (text.length ≠ 1 ∧ text.getLast? = some 47) := by
        rintro ⟨hone, hlast⟩
        rw [hchar, Option.some.injEq] at hlast
        exact hslash ⟨hlast, hone⟩
      rw [if_neg hopen, if_neg hslash, List.take_length]
  have hle : (if char = 47 ∧ s.pathPtr ≠ 1 then s.pathPtr - 1 else s.pathPtr) ≤ text.length := by
    rw [hat.ptr]
    split <;> omega
  obtain ⟨hbehind, hnul, hlt, -⟩ := (hat.take hle).put hlast
  rw [hclosed]
  exact string_eq hbehind.below hbehind.ends hnul hlt

namespace Stands

theorem extend (hat : Stands stale s text known) (hchar : char ≠ 0) :
    Stands stale { buffer := write s.buffer s.pathPtr [char], pathPtr := s.pathPtr + 1 }
      (text ++ [char]) (max known (text ++ [char]).length) := by
  have hle := hat.le
  have hlength : (text ++ [char]).length = text.length + 1 := List.length_append
  obtain ⟨hbehind, hhere, hother⟩ := hat.toBehind.mark char
  refine ⟨⟨?_, ?_, ?_⟩, ?_, ?_, ?_, ?_⟩
  · rw [hlength, ← hbehind.ptr]
  · intro offset hoffset
    dsimp only
    by_cases hold : offset < text.length
    · rw [List.getElem?_append_left hold]
      exact hbehind.below offset hold
    · obtain rfl : offset = text.length := by omega
      rw [hhere, List.getElem?_concat_length]
  · simpa [or_imp, forall_and, hchar] using hat.ends
  · exact Nat.lt_of_lt_of_le hat.pos (Nat.le_max_left _ _)
  · exact Nat.le_max_right _ _
  · intro offset hlow hhigh
    dsimp only
    rw [hother offset (by omega)]
    exact hat.clean offset (by omega) (by omega)
  · intro offset hlow
    dsimp only
    rw [hother offset (by omega)]
    exact hat.stale offset (by omega)

theorem append (hat : Stands stale s text known) (hchar : char ≠ 0) (hnext : s.append char = some next) :
    Stands stale next (text ++ [char]) (max known (text ++ [char]).length) := by
  obtain ⟨after, hput, rfl⟩ := Option.map_eq_some_iff.mp hnext
  unfold Cursor.put at hput
  split at hput
  · cases hput
    exact hat.extend hchar
  · cases hput

-- The characters of a name, one after the other.
theorem walk_name (hat : Stands stale s text known) (hslash : 47 ∉ part) (hends : ∀ char ∈ part, char ≠ 0)
    {final : Store} (hrun : walk s (part ++ path) = some final) :
    ∃ next, Stands stale next (text ++ part) (max known (text ++ part).length) ∧
      walk next path = some final := by
  induction part generalizing s text known with
  | nil =>
      have hmax : max known (text ++ []).length = known := by
        rw [List.append_nil]
        exact Nat.max_eq_left hat.le
      rw [hmax, List.append_nil]
      exact ⟨s, hat, hrun⟩
  | cons char part ih =>
      obtain ⟨hne, hslash⟩ := not_or.mp (mt List.mem_cons.mpr hslash)
      obtain ⟨hend, hends⟩ := List.forall_mem_cons.mp hends
      rw [List.cons_append, walk, if_neg (Ne.symm hne)] at hrun
      obtain ⟨after, happend, hrun⟩ := Option.bind_eq_some_iff.mp hrun
      obtain ⟨next, hnext, hrest⟩ := ih (hat.append hend happend) hslash hends hrun
      rw [List.append_assoc, List.singleton_append] at hnext
      have hmax : max (max known (text ++ [char]).length) (text ++ char :: part).length =
          max known (text ++ char :: part).length := by
        simp only [List.length_append, List.length_cons, List.length_nil]
        omega
      rw [hmax] at hnext
      exact ⟨next, hnext, hrest⟩

theorem separate (hat : Stands stale s text known) (hnext : s.separate = some next) :
    Stands stale next (separated text) (max known (separated text).length) := by
  have hmax : max known text.length = known := Nat.max_eq_left hat.le
  unfold Cursor.separate at hnext
  unfold separated
  rw [hat.ptr] at hnext
  by_cases hone : text.length = 1
  · rw [if_pos hone] at hnext
    cases hnext
    rw [if_pos (Or.inl hone), hmax]
    exact hat
  · rw [if_neg hone] at hnext
    obtain ⟨char, hbefore, hnext⟩ := Option.bind_eq_some_iff.mp hnext
    have hlast := hat.getLast hbefore
    by_cases hslash : char = 47
    · rw [if_pos hslash] at hnext
      cases hnext
      rw [if_pos (Or.inr (hslash ▸ hlast)), hmax]
      exact hat
    · rw [if_neg hslash] at hnext
      have hnone : ¬ (text.length = 1 ∨ text.getLast? = some 47) := by
        rw [hlast, Option.some.injEq]
        exact not_or.mpr ⟨hone, hslash⟩
      rw [if_neg hnone]
      exact hat.append (by decide) hnext

-- Where the scan leaves the cursor, and what is above it then.
theorem scan (hat : Stands stale s text known) {found : Nat}
    (hfound : Cursor.scan s.buffer s.pathPtr = some found) :
    Behind { s with pathPtr := if found = 0 then 1 else found } (scanned stale text known) ∧
      (scanned stale text known).length ≤ text.length ∧
      ∀ offset, (scanned stale text known).length < offset → offset ≤ text.length →
        s.buffer offset ≠ 47 := by
  have hptr := hat.ptr
  have hle := hat.le
  have hpos := hat.pos
  obtain ⟨hlow, hslash, hafter⟩ := scan_spec hfound
  rw [hptr] at hlow hafter
  unfold scanned
  by_cases hstale : known ≤ text.length ∧ stale text.length = 47
  · have hhere : found = text.length := by
      by_contra hne
      apply hafter text.length (by omega) (Nat.le_refl _)
      rw [hat.stale _ hstale.1]
      exact hstale.2
    have hsame : (if found = 0 then 1 else found) = s.pathPtr := by
      rw [if_neg (by omega), hhere, hptr]
    rw [if_pos hstale, hsame]
    exact ⟨hat.toBehind, Nat.le_refl _, fun offset hoff hoff' => by omega⟩
  · have hbelow : found < text.length := by
      by_contra hge
      obtain rfl : found = text.length := by omega
      by_cases hknown : known ≤ text.length
      · exact hstale ⟨hknown, by rw [← hat.stale _ hknown]; exact hslash⟩
      · exact hat.clean _ (Nat.le_refl _) (by omega) hslash
    have hfound : text[found]? = some 47 := by
      rw [hat.below found hbelow, hslash]
    have hlast : ∀ offset, found < offset → text[offset]? ≠ some 47 := by
      intro offset hoffset hchar
      have hlt := (List.getElem?_eq_some_iff.mp hchar).1
      rw [hat.below offset hlt, Option.some.injEq] at hchar
      exact hafter offset hoffset (Nat.le_of_lt hlt) hchar
    rw [if_neg hstale, up_eq hfound hlast]
    have hcount : (if found = 0 then 1 else found) ≤ text.length := by
      split <;> omega
    have hlength := List.length_take_of_le hcount
    rw [hlength]
    refine ⟨hat.take hcount, hcount, fun offset hoff hoff' => hafter offset ?_ hoff'⟩
    split at hoff <;> omega

theorem parent (hat : Stands stale s text known) (hnext : s.parent = some next) :
    Behind next (scanned stale text known) ∧ next.buffer = s.buffer ∧
      (scanned stale text known).length ≤ text.length ∧
      ∀ offset, (scanned stale text known).length < offset → offset ≤ text.length →
        s.buffer offset ≠ 47 := by
  unfold Cursor.parent at hnext
  split at hnext
  · obtain ⟨found, hfound, rfl⟩ := Option.map_eq_some_iff.mp hnext
    obtain ⟨hbehind, hlength, hafter⟩ := hat.scan hfound
    exact ⟨hbehind, rfl, hlength, hafter⟩
  · cases hnext

-- The scan, and the NUL where it ends.
theorem cut (hat : Stands stale s text known) {found : Nat}
    (hfound : Cursor.scan s.buffer s.pathPtr = some found) :
    Stands stale { buffer := write s.buffer (if found = 0 then 1 else found) [0]
                   pathPtr := if found = 0 then 1 else found }
      (scanned stale text known) (max known (text.length + 1)) := by
  obtain ⟨hbehind, hlength, hafter⟩ := hat.scan hfound
  obtain ⟨hlast, hhere, hother⟩ := hbehind.mark 0
  dsimp only at hlast hhere hother
  have hle := hat.le
  refine ⟨hlast, ?_, by omega, ?_, ?_⟩
  · omega
  · intro offset hlow hhigh
    dsimp only
    by_cases heq : offset = (scanned stale text known).length
    · rw [heq, hhere]
      decide
    · rw [hother offset heq]
      by_cases hinside : offset ≤ text.length
      · exact hafter offset (by omega) hinside
      · exact hat.clean offset (by omega) (by omega)
  · intro offset hlow
    dsimp only
    rw [hother offset (by omega)]
    exact hat.stale offset (by omega)

theorem parent_put (hat : Stands stale s text known) (hnext : s.parent = some next) {last : Cursor}
    (hput : next.put 0 = some last) :
    Stands stale last (scanned stale text known) (max known (text.length + 1)) := by
  unfold Cursor.parent at hnext
  split at hnext
  · obtain ⟨found, hfound, rfl⟩ := Option.map_eq_some_iff.mp hnext
    unfold Cursor.put at hput
    cases (Option.ite_none_right_eq_some.mp hput).2
    exact hat.cut hfound
  · cases hnext

end Stands

-- Induction over a path: it is its last part, or a part, a '/' and a path.
theorem parts_induction {motive : CString → Prop} (last : ∀ part, 47 ∉ part → motive part)
    (slash : ∀ part rest, 47 ∉ part → motive rest → motive (part ++ 47 :: rest)) (path : CString) :
    motive path := by
  induction hlength : path.length using Nat.strong_induction_on generalizing path with
  | _ length ih =>
      by_cases hslash : 47 ∈ path
      · obtain ⟨part, rest, rfl, hpart⟩ := List.eq_append_cons_of_mem hslash
        rw [List.length_append, List.length_cons] at hlength
        exact slash part rest hpart (ih rest.length (by omega) rest rfl)
      · exact last path hslash

theorem takeWhile_last (hslash : 47 ∉ part) : part.takeWhile (· ≠ 47) = part := by
  rw [List.takeWhile_eq_self_iff]
  intro char hmem
  exact decide_eq_true fun heq => hslash (heq ▸ hmem)

theorem takeWhile_slash (hslash : 47 ∉ part) (rest : CString) :
    (part ++ 47 :: rest).takeWhile (· ≠ 47) = part := by
  have hpart : ∀ char ∈ part, decide (char ≠ 47) = true := by
    intro char hmem
    exact decide_eq_true fun heq => hslash (heq ▸ hmem)
  rw [List.takeWhile_append_of_pos hpart]
  simp

-- A part is nothing, ".", ".." or a name.
theorem part_cases (part : CString) : part = [] ∨ part = [46] ∨ part = [46, 46] ∨
    (¬ (part = [] ∨ part = [46]) ∧ part ≠ [46, 46]) := by
  by_cases hparent : part = [46, 46]
  · exact Or.inr (Or.inr (Or.inl hparent))
  · by_cases hnone : part = [] ∨ part = [46]
    · rcases hnone with hnil | hdot
      · exact Or.inl hnil
      · exact Or.inr (Or.inl hdot)
    · exact Or.inr (Or.inr (Or.inr ⟨hnone, hparent⟩))

theorem component_name (hother : ¬ (part = [] ∨ part = [46]) ∧ part ≠ [46, 46]) :
    component part = some (.name part) := by
  unfold component
  rw [if_neg hother.1, if_neg hother.2]

theorem firstRun_empty (s : Cursor) : firstRun s [] = s.separate.bind Cursor.term := by
  rw [firstRun, if_neg (by simp), if_neg (by simp), if_neg (by simp), if_neg (by simp), if_neg (by simp)]
  congr 1
  funext s
  rw [walk]

theorem firstRun_slash (s : Cursor) (path : CString) : firstRun s (47 :: path) = firstRun s path := by
  rw [firstRun, if_pos (by simp), walk, if_pos rfl]

theorem firstRun_here_last (s : Cursor) : firstRun s [46] = s.term := by
  rw [firstRun, if_neg (by decide), if_pos (Or.inl rfl)]

theorem firstRun_parent_last (s : Cursor) : firstRun s [46, 46] = s.parent.bind Cursor.term := by
  rw [firstRun, if_neg (by decide), if_neg (by decide), if_pos (Or.inl rfl)]

theorem firstRun_here (s : Cursor) (path : CString) :
    firstRun s (46 :: 47 :: path) = if path = [] then s.term else firstRun s path := by
  rw [firstRun, if_neg (by simp)]
  by_cases hempty : path = []
  · rw [if_pos hempty, if_pos (by simp [hempty])]
  · rw [if_neg hempty, if_neg (by simp [hempty]), if_neg (by simp), if_neg (by simp),
      if_pos (by simp), List.drop_one, List.tail_cons, walk, if_pos rfl]

theorem firstRun_parent (s : Cursor) (path : CString) :
    firstRun s (46 :: 46 :: 47 :: path) = s.parent.bind fun s =>
      if path = [] then s.term else (s.put 0).bind fun s => firstRun s path := by
  rw [firstRun, if_neg (by simp), if_neg (by simp)]
  by_cases hempty : path = []
  · simp [hempty]
  · rw [if_neg (by simp [hempty]), if_pos (by simp)]
    simp only [hempty, if_false, List.drop_succ_cons, List.drop_zero]
    congr 1
    funext s
    congr 1
    funext s
    rw [walk, if_pos rfl]

-- A name is none of the special cases.
theorem name_not_special (hpart : path.takeWhile (· ≠ 47) = part)
    (hother : ¬ (part = [] ∨ part = [46]) ∧ part ≠ [46, 46]) :
    path.head? ≠ some 47 ∧ ¬ (path = [46] ∨ path = [46, 47]) ∧
      ¬ (path = [46, 46] ∨ path = [46, 46, 47]) ∧ ¬ [46, 46, 47] <+: path ∧ ¬ [46, 47] <+: path := by
  obtain ⟨hnone, hparent⟩ := hother
  obtain ⟨hnil, hdot⟩ := not_or.mp hnone
  refine ⟨?_, ?_, ?_, ?_, ?_⟩
  · intro hhead
    obtain ⟨rest, rfl⟩ := List.head?_eq_some_iff.mp hhead
    exact hnil (hpart ▸ rfl)
  · rintro (rfl | rfl)
    · exact hdot (hpart ▸ rfl)
    · exact hdot (hpart ▸ rfl)
  · rintro (rfl | rfl)
    · exact hparent (hpart ▸ rfl)
    · exact hparent (hpart ▸ rfl)
  · rintro ⟨rest, rfl⟩
    exact hparent (hpart ▸ rfl)
  · rintro ⟨rest, rfl⟩
    exact hdot (hpart ▸ rfl)

theorem firstRun_name (hpart : path.takeWhile (· ≠ 47) = part)
    (hother : ¬ (part = [] ∨ part = [46]) ∧ part ≠ [46, 46]) :
    firstRun s path = s.separate.bind fun s => walk s path := by
  obtain ⟨hhead, hhere, hup, hup', hhere'⟩ := name_not_special hpart hother
  rw [firstRun, if_neg hhead, if_neg hhere, if_neg hup, if_neg hup', if_neg hhere']

theorem closed_separated (hne : text ≠ []) : closed (separated text) = closed text := by
  unfold separated
  split
  · rfl
  · rename_i hopen
    have hpos := List.length_pos_of_ne_nil hne
    unfold closed
    rw [if_pos ⟨by rw [List.length_append, List.length_singleton]; omega, List.getLast?_concat⟩,
      if_neg (fun h => hopen (Or.inr h.2)), List.dropLast_concat]

theorem firstRun_nil (hat : Stands stale s text known) {final : Store}
    (hrun : firstRun s [] = some final) : string final = closed text := by
  rw [firstRun_empty] at hrun
  obtain ⟨next, hseparate, hterm⟩ := Option.bind_eq_some_iff.mp hrun
  have hne : text ≠ [] := by
    rintro rfl
    have hptr : s.pathPtr = 0 := hat.ptr
    rw [Cursor.separate, if_neg (by omega), Cursor.before, if_pos (Or.inl hptr)] at hseparate
    cases hseparate
  rw [(hat.separate hseparate).term hterm, closed_separated hne]

-- At `first_run` the loop does what `expand` says of the parts that are left.
theorem firstRun_expand (hat : Stands stale s text known) (hends : ∀ char ∈ path, char ≠ 0)
    {final : Store} (hrun : firstRun s path = some final) :
    string final = expand stale text known (components path) := by
  induction path using parts_induction generalizing s text known with
  | last part hslash =>
      rw [components_last hslash]
      rcases part_cases part with rfl | rfl | rfl | hname
      · exact firstRun_nil hat hrun
      · rw [firstRun_here_last] at hrun
        exact hat.term hrun
      · rw [firstRun_parent_last] at hrun
        obtain ⟨next, hnext, hterm⟩ := Option.bind_eq_some_iff.mp hrun
        exact (hat.parent hnext).1.term hterm
      · rw [firstRun_name (takeWhile_last hslash) hname] at hrun
        obtain ⟨next, hnext, hrun⟩ := Option.bind_eq_some_iff.mp hrun
        rw [← List.append_nil part] at hrun
        obtain ⟨last, hbehind, hterm⟩ := (hat.separate hnext).walk_name hslash hends hrun
        rw [walk] at hterm
        rw [component_name hname, Option.toList_some, expand, expand]
        exact hbehind.term hterm
  | slash part rest hslash ih =>
      obtain ⟨hendsPart, hendsRest⟩ := List.forall_mem_append.mp hends
      have hrest : ∀ {s : Cursor} {text : CString} {known : Nat}, Stands stale s text known →
          firstRun s rest = some final → string final = expand stale text known (components rest) :=
        fun hat hrun => ih hat (List.forall_mem_cons.mp hendsRest).2 hrun
      rw [components_slash hslash]
      rcases part_cases part with rfl | rfl | rfl | hname
      · rw [List.nil_append, firstRun_slash] at hrun
        exact hrest hat hrun
      · rw [List.cons_append, List.nil_append, firstRun_here] at hrun
        by_cases hempty : rest = []
        · rw [if_pos hempty] at hrun
          rw [hempty]
          exact hat.term hrun
        · rw [if_neg hempty] at hrun
          exact hrest hat hrun
      · rw [List.cons_append, List.cons_append, List.nil_append, firstRun_parent] at hrun
        obtain ⟨next, hnext, hrun⟩ := Option.bind_eq_some_iff.mp hrun
        by_cases hempty : rest = []
        · rw [if_pos hempty] at hrun
          rw [hempty]
          exact (hat.parent hnext).1.term hrun
        · rw [if_neg hempty] at hrun
          obtain ⟨last, hput, hrun⟩ := Option.bind_eq_some_iff.mp hrun
          exact hrest (hat.parent_put hnext hput) hrun
      · rw [firstRun_name (takeWhile_slash hslash rest) hname] at hrun
        obtain ⟨next, hnext, hrun⟩ := Option.bind_eq_some_iff.mp hrun
        obtain ⟨last, hbehind, hrun⟩ := (hat.separate hnext).walk_name hslash hendsPart hrun
        rw [walk, if_pos rfl] at hrun
        have hmax : max (max known (separated text).length) (separated text ++ part).length =
            max known (separated text ++ part).length := by
          rw [List.length_append]
          omega
        rw [hmax] at hbehind
        rw [component_name hname, Option.toList_some, List.singleton_append, expand]
        exact hrest hbehind hrun

-- A string without a NUL in it.
structure Text where
  chars : CString
  ends : ∀ char ∈ chars, char ≠ 0

theorem kstrcpy_spec (pwd : Text) {buffer copied : Store} (hcopied : kstrcpy buffer pwd.chars = some copied) :
    (∀ offset, offset < pwd.chars.length → pwd.chars[offset]? = some (copied offset)) ∧
      copied pwd.chars.length = 0 ∧ pwd.chars.length < PATH_BUFFER ∧
      ∀ offset, pwd.chars.length + 1 ≤ offset → copied offset = buffer offset := by
  unfold kstrcpy at hcopied
  split at hcopied
  · rename_i hlt
    cases hcopied
    have hinside : ∀ offset, offset < (pwd.chars ++ [0]).length →
        write buffer 0 (pwd.chars ++ [0]) offset = (pwd.chars ++ [0]).getD offset 0 := by
      intro offset hoffset
      have hwrite := write_inside buffer 0 (pwd.chars ++ [0]) offset hoffset
      rwa [Nat.zero_add] at hwrite
    have hlength : (pwd.chars ++ [0]).length = pwd.chars.length + 1 := List.length_append
    refine ⟨?_, ?_, hlt, ?_⟩
    · intro offset hoffset
      rw [hinside offset (by omega), List.getD_append _ _ _ _ hoffset]
      simp [hoffset]
    · rw [hinside _ (by omega), List.getD_append_right _ _ _ _ (Nat.le_refl _), Nat.sub_self]
      rfl
    · intro offset hoffset
      exact write_outside _ _ _ _ (by omega)
  · cases hcopied

theorem vfsGetAbsolutePath_string (pwd path : Text) {buffer final : Store}
    (hrun : vfsGetAbsolutePath pwd.chars path.chars buffer = some final) :
    string final = absolutePath buffer pwd.chars path.chars := by
  unfold vfsGetAbsolutePath at hrun
  unfold absolutePath origin
  by_cases hempty : path.chars = []
  · rw [if_pos hempty] at hrun ⊢
    obtain ⟨hbelow, hnul, hlt, -⟩ := kstrcpy_spec pwd hrun
    exact string_eq hbelow pwd.ends hnul hlt
  rw [if_neg hempty] at hrun ⊢
  by_cases hslash : path.chars.head? = some 47
  · rw [if_pos hslash] at hrun ⊢
    obtain ⟨next, hnext, hrun⟩ := Option.bind_eq_some_iff.mp hrun
    obtain ⟨tail, htail⟩ := List.head?_eq_some_iff.mp hslash
    have hcomponents : components path.chars = components tail := by
      rw [htail]
      exact components_slash List.not_mem_nil tail
    rw [htail, List.tail_cons] at hrun
    rw [hcomponents]
    have hstart : Behind { buffer := buffer, pathPtr := 0 } [] :=
      ⟨rfl, fun offset hoffset => absurd hoffset (Nat.not_lt_zero offset),
        fun char hmem => absurd hmem List.not_mem_nil⟩
    obtain ⟨root, hput, rfl⟩ := Option.map_eq_some_iff.mp hnext
    obtain ⟨hbehind, hroot, -, hother⟩ := hstart.put hput
    have hat : Stands buffer { root with pathPtr := root.pathPtr + 1 } [47] 1 := by
      refine ⟨⟨congrArg (· + 1) hbehind.ptr, ?_, by simp⟩, Nat.one_pos, Nat.le_refl 1, ?_, ?_⟩
      · intro offset hoffset
        obtain rfl : offset = 0 := Nat.lt_one_iff.mp hoffset
        exact congrArg some hroot.symm
      · intro offset hlow hhigh
        exact absurd hhigh (Nat.not_lt.mpr hlow)
      · intro offset hlow
        exact hother offset (Nat.ne_of_gt hlow)
    refine firstRun_expand hat ?_ hrun
    intro char hmem
    exact path.ends char (htail ▸ List.mem_cons_of_mem _ hmem)
  · rw [if_neg hslash] at hrun ⊢
    obtain ⟨copied, hcopied, hrun⟩ := Option.bind_eq_some_iff.mp hrun
    obtain ⟨hbelow, hnul, -, hstale⟩ := kstrcpy_spec pwd hcopied
    have hat : Stands buffer { buffer := copied, pathPtr := pwd.chars.length } pwd.chars
        (pwd.chars.length + 1) := by
      refine ⟨⟨rfl, hbelow, pwd.ends⟩, Nat.succ_pos _, Nat.le_succ _, ?_, hstale⟩
      intro offset hlow hhigh
      obtain rfl : offset = pwd.chars.length := by omega
      dsimp only
      rw [hnul]
      decide
    exact firstRun_expand hat path.ends hrun

end EchidnaOS.Vfs
