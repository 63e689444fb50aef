import EchidnaOS.Vfs.AbsolutePath

namespace EchidnaOS.Vfs

open EchidnaOS.Lib.ByteStore

-- The run with the memory around the array: `buffer` goes on behind it, and `written` is one more
-- than the highest offset written so far.
structure Trace extends Cursor where
  written : Nat

namespace Trace

section Operations

variable (front : UInt8) (t : Trace)

def put (char : UInt8) : Trace where
  buffer := write t.buffer t.pathPtr [char]
  pathPtr := t.pathPtr
  written := max t.written (t.pathPtr + 1)

def append (char : UInt8) : Trace := { t.put char with pathPtr := t.pathPtr + 1 }

-- `front` is the byte before the array.
def before : UInt8 := if t.pathPtr = 0 then front else t.buffer (t.pathPtr - 1)

-- `none` is a path_ptr that leaves the array at its front.
def parent : Option Trace :=
  (Cursor.scan t.buffer t.pathPtr).map fun ptr => { t with pathPtr := if ptr = 0 then 1 else ptr }

def separate : Trace := if t.pathPtr ≠ 1 ∧ t.before front ≠ 47 then t.append 47 else t

def term : Option Trace :=
  if t.before front = 47 ∧ t.pathPtr ≠ 1 then
    if t.pathPtr = 0 then none else some (put { t with pathPtr := t.pathPtr - 1 } 0)
  else some (t.put 0)

end Operations

mutual

def walk (front : UInt8) (t : Trace) (path : CString) : Option Trace :=
  match path with
  | [] => t.term front
  | char :: path => if char = 47 then firstRun front t path else walk front (t.append char) path
termination_by 2 * path.length

def firstRun (front : UInt8) (t : Trace) (path : CString) : Option Trace :=
  if path.head? = some 47 then walk front t path
  else if path = [46] ∨ path = [46, 47] then t.term front
  else if path = [46, 46] ∨ path = [46, 46, 47] then t.parent.bind fun t => t.term front
  else if [46, 46, 47] <+: path then t.parent.bind fun t => walk front (t.put 0) (path.drop 2)
  else if [46, 47] <+: path then walk front t (path.drop 1)
  else walk front (t.separate front) path
termination_by 2 * path.length + 1
decreasing_by
  all_goals first | omega | (simp only [List.length_drop]; omega)

end

-- kstrcpy to the start of the array.
def kstrcpy (memory : Store) (source : CString) : Trace where
  buffer := write memory 0 (source ++ [0])
  pathPtr := 0
  written := source.length + 1

def vfsGetAbsolutePath (front : UInt8) (pwd path : CString) (memory : Store) : Option Trace :=
  if path = [] then some (kstrcpy memory pwd)
  else if path.head? = some 47 then
    firstRun front (append { buffer := memory, pathPtr := 0, written := 0 } 47) path.tail
  else firstRun front { kstrcpy memory pwd with pathPtr := pwd.length } path

end Trace

-- The C string at the start of the memory.
structure IsString (memory : Store) (text : CString) : Prop where
  below : ∀ offset, offset < text.length → text[offset]? = some (memory offset)
  ends : ∀ char ∈ text, char ≠ 0
  nul : memory text.length = 0

-- An empty text lies behind the byte before the array.
def separatedFrom (front : UInt8) (text : CString) : CString :=
  if text = [] ∧ front = 47 then [] else separated text

-- What the loop makes of a path, and how far it has written by then.
def course (front : UInt8) (stale : Store) :
    CString → Nat → Nat → List Component → Option (CString × Nat)
  | text, _, written, [] =>
      if text = [] ∧ front = 47 then none
      else some (closed text, max written ((closed text).length + 1))
  | text, known, written, .name chars :: rest =>
      course front stale (separatedFrom front text ++ chars)
        (max known (separatedFrom front text ++ chars).length)
        (max written (separatedFrom front text ++ chars).length) rest
  | text, known, written, .parent :: rest =>
      if known ≤ text.length ∧ stale text.length = 47 then
        course front stale text (max known (text.length + 1)) (max written (text.length + 1)) rest
      else if 47 ∈ text then course front stale (up text) (max known (text.length + 1)) written rest
      else none

-- Every string but the empty one has been written with its NUL, so that two bytes do not count.
def Ran : Option Trace → Option (CString × Nat) → Prop
  | some final, some (text, written) =>
      (text ≠ [] → IsString final.buffer text) ∧ max final.written 2 = max written 2
  | none, none => True
  | _, _ => False

-- The cursor of a run stands behind `text`, with the writes counted.
structure Counts (stale : Store) (t : Trace) (text : CString) (known written : Nat) : Prop where
  stands : Stands stale t.toCursor text known
  le : text.length ≤ written
  written : max t.written 2 = max written 2

variable {front char : UInt8} {stale : Store} {s : Cursor} {t next : Trace} {text path part : CString}
  {known written : Nat} {rest : List Component}

theorem closed_of_slash (hlast : text.getLast? = some 47) (hlong : text.length ≠ 1) :
    closed text = text.take (text.length - 1) := by
  unfold closed
  rw [if_pos ⟨hlong, hlast⟩, List.dropLast_eq_take]

theorem closed_of_open (hopen : ¬ (text.length ≠ 1 ∧ text.getLast? = some 47)) : closed text = text :=
  if_neg hopen

theorem scan_eq_none_iff {buffer : Store} {ptr : Nat} :
    Cursor.scan buffer ptr = none ↔ ∀ offset, offset ≤ ptr → buffer offset ≠ 47 := by
  induction ptr with
  | zero =>
      rw [Cursor.scan]
      simp
  | succ ptr ih =>
      rw [Cursor.scan]
      by_cases hslash : buffer (ptr + 1) = 47
      · rw [if_pos hslash]
        refine iff_of_false (by simp) fun hall => hall (ptr + 1) (Nat.le_refl _) hslash
      · rw [if_neg hslash, ih]
        constructor
        · intro hall offset hoffset
          by_cases heq : offset = ptr + 1
          · exact heq ▸ hslash
          · exact hall offset (by omega)
        · intro hall offset hoffset
          exact hall offset (by omega)

-- One step up shortens a text, except the root.
theorem up_length (text : CString) : (up text).length + 1 ≤ max text.length 2 := by
  have hfront := (List.rdropWhile_prefix (p := fun char => decide (char ≠ 47)) (l := text)).length_le
  unfold up
  dsimp only
  split
  · omega
  · rw [List.length_dropLast]
    omega

theorem Behind.isString (hat : Behind s text) : IsString (write s.buffer s.pathPtr [0]) text := by
  obtain ⟨hbehind, hhere, -⟩ := hat.mark 0
  exact ⟨hbehind.below, hat.ends, hhere⟩

theorem before_of_nil (hbehind : Behind t.toCursor []) : t.before front = front := by
  have hptr := hbehind.ptr
  unfold Trace.before
  rw [if_pos (by simpa using hptr)]

theorem getLast_eq_before (hbehind : Behind t.toCursor text) (hne : text ≠ []) :
    text.getLast? = some (t.before front) := by
  have hptr := hbehind.ptr
  have hpos := List.length_pos_of_ne_nil hne
  unfold Trace.before
  rw [if_neg (by omega), List.getLast?_eq_getElem?, hbehind.below _ (by omega), hptr]

-- The end of a path closes the text.
theorem term_ran (hbehind : Behind t.toCursor text) (hcount : max t.written 2 = max written 2) :
    Ran (t.term front) (course front stale text known written []) := by
  have hptr := hbehind.ptr
  unfold Trace.term
  rw [course]
  by_cases hempty : text = []
  · subst hempty
    have hzero : t.pathPtr = 0 := hptr
    have hclosed : closed [] = [] := by decide
    rw [before_of_nil hbehind, hzero, hclosed]
    by_cases hfront : front = 47
    · simp [hfront, Ran]
    · rw [if_neg (fun h => hfront h.1), if_neg (fun h => hfront h.2)]
      refine ⟨fun hne => absurd rfl hne, ?_⟩
      simp only [Trace.put, List.length_nil]
      omega
  · have hpos := List.length_pos_of_ne_nil hempty
    have hlast : text.getLast? = some (t.before front) := getLast_eq_before hbehind hempty
    have hnone : ¬ (text = [] ∧ front = 47) := fun h => hempty h.1
    by_cases hslash : t.before front = 47 ∧ t.pathPtr ≠ 1
    · have hlength : (text.take (text.length - 1)).length = text.length - 1 :=
        List.length_take_of_le (Nat.sub_le _ _)
      rw [if_pos hslash, if_neg (by omega), if_neg hnone,
        closed_of_slash (by rw [hlast, hslash.1]) (by omega)]
      refine ⟨fun _ => ?_, ?_⟩
      · rw [← hptr]
        exact (hbehind.take (by omega)).isString
      · rw [hlength]
        simp only [Trace.put]
        omega
    · have hopen : ¬ (text.length ≠ 1 ∧ text.getLast? = some 47) := by
        intro h
        rw [hlast, Option.some.injEq] at h
        exact hslash ⟨h.2, by omega⟩
      rw [if_neg hslash, if_neg hnone, closed_of_open hopen]
      refine ⟨fun _ => hbehind.isString, ?_⟩
      simp only [Trace.put]
      omega

namespace Counts

theorem append (hat : Counts stale t text known written) (hchar : char ≠ 0) :
    Counts stale (t.append char) (text ++ [char]) (max known (text ++ [char]).length)
      (max written (text ++ [char]).length) := by
  have hptr := hat.stands.ptr
  have hcount := hat.written
  refine ⟨hat.stands.extend hchar, Nat.le_max_right _ _, ?_⟩
  simp only [Trace.append, Trace.put, List.length_append, List.length_singleton]
  omega

theorem separate (hat : Counts stale t text known written) :
    Counts stale (t.separate front) (separatedFrom front text)
      (max known (separatedFrom front text).length) (max written (separatedFrom front text).length) := by
  have hptr := hat.stands.ptr
  have hle := hat.stands.le
  have hsame : Counts stale t text (max known text.length) (max written text.length) := by
    rw [Nat.max_eq_left hle, Nat.max_eq_left hat.le]
    exact hat
  unfold Trace.separate separatedFrom
  by_cases hempty : text = []
  · subst hempty
    have hzero : t.pathPtr = 0 := hptr
    rw [before_of_nil hat.stands.toBehind, hzero]
    by_cases hfront : front = 47
    · rw [if_neg (fun h => h.2 hfront), if_pos ⟨rfl, hfront⟩]
      exact hsame
    · rw [if_pos ⟨by decide, hfront⟩, if_neg (fun h => hfront h.2)]
      exact hat.append (by decide)
  · have hlast : text.getLast? = some (t.before front) := getLast_eq_before hat.stands.toBehind hempty
    rw [if_neg (fun h : text = [] ∧ front = 47 => hempty h.1)]
    have hclosed : (text.length = 1 ∨ text.getLast? = some 47) ↔
        ¬ (t.pathPtr ≠ 1 ∧ t.before front ≠ 47) := by
      rw [hlast, Option.some.injEq, ← hptr]
      tauto
    unfold separated
    by_cases hopen : t.pathPtr ≠ 1 ∧ t.before front ≠ 47
    · rw [if_pos hopen, if_neg (fun h => hclosed.mp h hopen)]
      exact hat.append (by decide)
    · rw [if_neg hopen, if_pos (hclosed.mpr hopen)]
      exact hsame

-- The characters of a name, one after the other.
theorem walk_name (hat : Counts stale t text known written) (hslash : 47 ∉ part)
    (hends : ∀ char ∈ part, char ≠ 0) (path : CString) :
    ∃ next, Trace.walk front t (part ++ path) = Trace.walk front next path ∧
      Counts stale next (text ++ part) (max known (text ++ part).length)
        (max written (text ++ part).length) := by
  induction part generalizing t text known written with
  | nil =>
      refine ⟨t, rfl, ?_⟩
      rw [List.append_nil, Nat.max_eq_left hat.stands.le, Nat.max_eq_left hat.le]
      exact hat
  | cons char part ih =>
      obtain ⟨hne, hslash⟩ := not_or.mp (mt List.mem_cons.mpr hslash)
      obtain ⟨hend, hends⟩ := List.forall_mem_cons.mp hends
      obtain ⟨next, hwalk, hnext⟩ := ih (hat.append hend) hslash hends
      have hmax : ∀ count, max (max count (text ++ [char]).length) (text ++ char :: part).length =
          max count (text ++ char :: part).length := by
        intro count
        simp only [List.length_append, List.length_cons, List.length_nil]
        omega
      rw [List.append_assoc, List.singleton_append, hmax, hmax] at hnext
      refine ⟨next, ?_, hnext⟩
      rw [List.cons_append, Trace.walk, if_neg (Ne.symm hne), hwalk]

-- The scan ends at a '/' of the memory or of the text, or leaves the array.
theorem scan_eq_none (hat : Counts stale t text known written)
    (hstale : ¬ (known ≤ text.length ∧ stale text.length = 47)) (hslash : 47 ∉ text) :
    Cursor.scan t.buffer t.pathPtr = none := by
  rw [scan_eq_none_iff, hat.stands.ptr]
  intro offset hoffset heq
  by_cases hlt : offset < text.length
  · have hbelow := hat.stands.below offset hlt
    rw [heq] at hbelow
    exact hslash (List.mem_of_getElem? hbelow)
  · obtain rfl : offset = text.length := by omega
    by_cases hknown : known ≤ text.length
    · rw [hat.stands.stale _ hknown] at heq
      exact hstale ⟨hknown, heq⟩
    · exact hat.stands.clean _ (Nat.le_refl _) (by omega) heq

theorem exists_scan (hat : Counts stale t text known written)
    (hslash : (known ≤ text.length ∧ stale text.length = 47) ∨ 47 ∈ text) :
    ∃ found, Cursor.scan t.buffer t.pathPtr = some found := by
  rw [← Option.ne_none_iff_exists']
  intro hnone
  rw [scan_eq_none_iff, hat.stands.ptr] at hnone
  rcases hslash with ⟨hknown, hchar⟩ | hmem
  · refine hnone text.length (Nat.le_refl _) ?_
    rw [hat.stands.stale _ hknown]
    exact hchar
  · obtain ⟨offset, hoffset⟩ := List.mem_iff_getElem?.mp hmem
    have hlt := (List.getElem?_eq_some_iff.mp hoffset).1
    rw [hat.stands.below offset hlt, Option.some.injEq] at hoffset
    exact hnone offset (Nat.le_of_lt hlt) hoffset

-- The parts behind a '..' begin where the scan ends.
theorem parent_ran (hat : Counts stale t text known written) {run : Trace → Option Trace}
    (hrun : ∀ found, Cursor.scan t.buffer t.pathPtr = some found →
      Ran (run { t with pathPtr := if found = 0 then 1 else found })
        (course front stale (scanned stale text known) (max known (text.length + 1))
          (if known ≤ text.length ∧ stale text.length = 47 then max written (text.length + 1)
            else written) rest)) :
    Ran (t.parent.bind run) (course front stale text known written (.parent :: rest)) := by
  unfold Trace.parent
  rw [course]
  unfold scanned at hrun
  by_cases hstale : known ≤ text.length ∧ stale text.length = 47
  · obtain ⟨found, hfound⟩ := hat.exists_scan (Or.inl hstale)
    have hnext := hrun found hfound
    rw [if_pos hstale, if_pos hstale] at hnext
    rw [hfound, Option.map_some, Option.bind_some, if_pos hstale]
    exact hnext
  rw [if_neg hstale]
  by_cases hslash : 47 ∈ text
  · obtain ⟨found, hfound⟩ := hat.exists_scan (Or.inr hslash)
    have hnext := hrun found hfound
    rw [if_neg hstale, if_neg hstale] at hnext
    rw [hfound, Option.map_some, Option.bind_some, if_pos hslash]
    exact hnext
  · rw [hat.scan_eq_none hstale hslash, if_neg hslash]
    exact trivial

-- A '..' at the end of a path.
theorem parent_last (hat : Counts stale t text known written)
    (hopened : known ≤ text.length → closed text = text) :
    Ran (t.parent.bind fun t => t.term front) (course front stale text known written [.parent]) := by
  refine hat.parent_ran fun found hfound => ?_
  have hterm : Ran (Trace.term front { t with pathPtr := if found = 0 then 1 else found })
      (course front stale (scanned stale text known) known written []) :=
    term_ran (hat.stands.scan hfound).1 hat.written
  unfold scanned at hterm ⊢
  rw [course] at hterm ⊢
  by_cases hstale : known ≤ text.length ∧ stale text.length = 47
  · rw [if_pos hstale] at hterm ⊢
    rw [if_pos hstale]
    rw [hopened hstale.1] at hterm ⊢
    rw [Nat.max_assoc, Nat.max_self]
    exact hterm
  · rw [if_neg hstale] at hterm ⊢
    rw [if_neg hstale]
    exact hterm

-- A '..' with more behind it.
theorem parent_put (hat : Counts stale t text known written) {found : Nat}
    (hfound : Cursor.scan t.buffer t.pathPtr = some found) :
    Counts stale (Trace.put { t with pathPtr := if found = 0 then 1 else found } 0)
      (scanned stale text known) (max known (text.length + 1))
      (if known ≤ text.length ∧ stale text.length = 47 then max written (text.length + 1) else written) := by
  have hlength := (hat.stands.scan hfound).1.ptr
  dsimp only at hlength
  have hcount := hat.written
  have hle := hat.le
  have hup := up_length text
  refine ⟨hat.stands.cut hfound, ?_, ?_⟩
  · have hshort := (hat.stands.scan hfound).2.1
    split <;> omega
  · simp only [Trace.put]
    rw [hlength]
    unfold scanned
    by_cases hstale : known ≤ text.length ∧ stale text.length = 47
    · rw [if_pos hstale, if_pos hstale]
      omega
    · rw [if_neg hstale, if_neg hstale]
      omega

end Counts

namespace Trace

theorem firstRun_empty (front : UInt8) (t : Trace) :
    firstRun front t [] = (t.separate front).term front := by
  rw [firstRun, if_neg (by simp), if_neg (by simp), if_neg (by simp), if_neg (by simp),
    if_neg (by simp), walk]

theorem firstRun_slash (front : UInt8) (t : Trace) (path : CString) :
    firstRun front t (47 :: path) = firstRun front t path := by
  rw [firstRun, if_pos (by simp), walk, if_pos rfl]

theorem firstRun_here_last (front : UInt8) (t : Trace) : firstRun front t [46] = t.term front := by
  rw [firstRun, if_neg (by decide), if_pos (Or.inl rfl)]

theorem firstRun_parent_last (front : UInt8) (t : Trace) :
    firstRun front t [46, 46] = t.parent.bind fun t => t.term front := by
  rw [firstRun, if_neg (by decide), if_neg (by decide), if_pos (Or.inl rfl)]

theorem firstRun_here (front : UInt8) (t : Trace) (path : CString) : firstRun front t (46 :: 47 :: path) =
    if path = [] then t.term front else firstRun front t path := by
  rw [firstRun, if_neg (by simp)]
  by_cases hempty : path = []
  · rw [if_pos hempty, if_pos (by simp [hempty])]
  · rw [if_neg hempty, if_neg (by simp [hempty]), if_neg (by simp), if_neg (by simp),
      if_pos (by simp), List.drop_one, List.tail_cons, walk, if_pos rfl]

theorem firstRun_parent (front : UInt8) (t : Trace) (path : CString) :
    firstRun front t (46 :: 46 :: 47 :: path) = t.parent.bind fun t =>
      if path = [] then t.term front else firstRun front (t.put 0) path := by
  rw [firstRun, if_neg (by simp), if_neg (by simp)]
  by_cases hempty : path = []
  · simp [hempty]
  · rw [if_neg (by simp [hempty]), if_pos (by simp)]
    simp only [hempty, if_false, List.drop_succ_cons, List.drop_zero]
    congr 1
    funext t
    rw [walk, if_pos rfl]

theorem firstRun_name (front : UInt8) (t : Trace) (hpart : path.takeWhile (· ≠ 47) = part)
    (hother : ¬ (part = [] ∨ part = [46]) ∧ part ≠ [46, 46]) :
    firstRun front t path = walk front (t.separate front) path := by
  obtain ⟨hhead, hhere, hup, hup', hhere'⟩ := name_not_special hpart hother
  rw [firstRun, if_neg hhead, if_neg hhere, if_neg hup, if_neg hup', if_neg hhere']

end Trace

theorem closed_name (hne : part ≠ []) (hslash : 47 ∉ part) : closed (text ++ part) = text ++ part := by
  apply closed_of_open
  rw [List.getLast?_append_of_ne_nil _ hne]
  exact fun h => hslash (List.mem_of_getLast? h.2)

-- A path that ends in a '/' closes like one that does not.
theorem firstRun_nil_ran (hat : Counts stale t text known written) :
    Ran (Trace.firstRun front t []) (course front stale text known written []) := by
  have hterm : Ran ((t.separate front).term front) (course front stale (separatedFrom front text)
      known (max written (separatedFrom front text).length) []) :=
    term_ran hat.separate.stands.toBehind hat.separate.written
  have hle := hat.le
  rw [Trace.firstRun_empty]
  rw [course] at hterm ⊢
  by_cases hempty : text = []
  · subst hempty
    unfold separatedFrom at hterm
    by_cases hfront : front = 47
    · simpa [hfront] using hterm
    · -- the '/' is written, and one byte more or less does not count
      have hseparated : separated [] = [47] := by decide
      have hclosed : closed [47] = [47] ∧ closed [] = [] := by decide
      simp only [hfront, and_false, if_false, hseparated, hclosed] at hterm ⊢
      cases hrun : (t.separate front).term front with
      | none =>
          rw [hrun] at hterm
          exact hterm
      | some final =>
          rw [hrun] at hterm
          refine ⟨fun hne => absurd rfl hne, ?_⟩
          have hcount := hterm.2
          simp only [List.length_singleton, List.length_nil] at hcount ⊢
          omega
  · have hnone : ¬ (text = [] ∧ front = 47) := fun h => hempty h.1
    have hsame : separatedFrom front text = separated text := if_neg hnone
    have hne : separated text ≠ [] := by
      unfold separated
      split <;> simp [hempty]
    have hcount : max (max written (separated text).length) ((closed text).length + 1) =
        max written ((closed text).length + 1) := by
      unfold separated
      split
      · omega
      · rename_i hopen
        rw [closed_of_open (fun h => hopen (Or.inr h.2)), List.length_append, List.length_singleton]
        omega
    rw [hsame, if_neg (fun h => hne h.1), closed_separated hempty, hcount] at hterm
    rw [if_neg hnone]
    exact hterm

-- The loop does what `course` says of the parts that are left.
theorem firstRun_ran (hat : Counts stale t text known written)
    (hopened : known ≤ text.length → closed text = text) (hends : ∀ char ∈ path, char ≠ 0) :
    Ran (Trace.firstRun front t path) (course front stale text known written (components path)) := by
  have hmax : ∀ (part text : CString) (count : Nat),
      max (max count (separatedFrom front text).length) (separatedFrom front text ++ part).length =
        max count (separatedFrom front text ++ part).length := by
    intro part text count
    rw [List.length_append]
    omega
  induction path using parts_induction generalizing t text known written with
  | last part hslash =>
      rw [components_last hslash]
      rcases part_cases part with rfl | rfl | rfl | hname
      · exact firstRun_nil_ran hat
      · rw [Trace.firstRun_here_last]
        exact term_ran hat.stands.toBehind hat.written
      · rw [Trace.firstRun_parent_last]
        exact hat.parent_last hopened
      · obtain ⟨next, hwalk, hnext⟩ := hat.separate.walk_name hslash hends []
        rw [hmax, hmax] at hnext
        rw [List.append_nil] at hwalk
        rw [Trace.firstRun_name front t (takeWhile_last hslash) hname, hwalk, component_name hname,
          Option.toList_some, course, Trace.walk]
        exact term_ran hnext.stands.toBehind hnext.written
  | slash part rest hslash ih =>
      obtain ⟨hendsPart, hendsRest⟩ := List.forall_mem_append.mp hends
      have hrest : ∀ {t : Trace} {text : CString} {known written : Nat},
          Counts stale t text known written → (known ≤ text.length → closed text = text) →
            Ran (Trace.firstRun front t rest)
              (course front stale text known written (components rest)) :=
        fun hat hopened => ih hat hopened (List.forall_mem_cons.mp hendsRest).2
      rw [components_slash hslash]
      rcases part_cases part with rfl | rfl | rfl | hname
      · rw [List.nil_append, Trace.firstRun_slash]
        exact hrest hat hopened
      · rw [List.cons_append, List.nil_append, Trace.firstRun_here]
        by_cases hempty : rest = []
        · rw [if_pos hempty, hempty]
          exact term_ran hat.stands.toBehind hat.written
        · rw [if_neg hempty]
          exact hrest hat hopened
      · rw [List.cons_append, List.cons_append, List.nil_append, Trace.firstRun_parent]
        by_cases hempty : rest = []
        · simp only [if_pos hempty]
          rw [hempty]
          exact hat.parent_last hopened
        · simp only [if_neg hempty]
          exact hat.parent_ran fun found hfound =>
            hrest (hat.parent_put hfound) fun hknown => by
              have hshort := (hat.stands.scan hfound).2.1
              omega
      · obtain ⟨next, hwalk, hnext⟩ := hat.separate.walk_name hslash hendsPart (47 :: rest)
        rw [hmax, hmax] at hnext
        rw [Trace.firstRun_name front t (takeWhile_slash hslash rest) hname, hwalk,
          component_name hname, Option.toList_some, List.singleton_append, course, Trace.walk,
          if_pos rfl]
        exact hrest hnext fun _ => closed_name (fun hnil => hname.1 (Or.inl hnil)) hslash

theorem kstrcpy_isString (pwd : Text) (memory : Store) :
    IsString (Trace.kstrcpy memory pwd.chars).buffer pwd.chars ∧
      ∀ offset, pwd.chars.length + 1 ≤ offset →
        (Trace.kstrcpy memory pwd.chars).buffer offset = memory offset := by
  have hlength : (pwd.chars ++ [0]).length = pwd.chars.length + 1 := by simp
  have hinside : ∀ offset, offset < pwd.chars.length + 1 →
      (Trace.kstrcpy memory pwd.chars).buffer offset = (pwd.chars ++ [0]).getD offset 0 := by
    intro offset hoffset
    have hwrite := write_inside memory 0 (pwd.chars ++ [0]) offset (by omega)
    rwa [Nat.zero_add] at hwrite
  refine ⟨⟨?_, pwd.ends, ?_⟩, ?_⟩
  · intro offset hoffset
    rw [hinside offset (by omega), List.getD_append _ _ _ _ hoffset]
    simp [hoffset]
  · rw [hinside _ (by omega)]
    simp
  · intro offset hoffset
    exact write_outside _ _ _ _ (by omega)

-- What the first copy has written when the loop starts.
def copiedLength (pwd path : CString) : Nat := if path.head? = some 47 then 1 else pwd.length + 1

theorem vfsGetAbsolutePath_ran (pwd path : Text) (hempty : path.chars ≠ []) (memory : Store) :
    Ran (Trace.vfsGetAbsolutePath front pwd.chars path.chars memory)
      (course front memory (origin pwd.chars path.chars).1 (origin pwd.chars path.chars).2
        (copiedLength pwd.chars path.chars) (components path.chars)) := by
  unfold Trace.vfsGetAbsolutePath origin copiedLength
  rw [if_neg hempty]
  by_cases hslash : path.chars.head? = some 47
  · obtain ⟨tail, htail⟩ := List.head?_eq_some_iff.mp hslash
    have hcomponents : components path.chars = components tail := by
      rw [htail]
      exact components_slash List.not_mem_nil tail
    have hstart : Behind { buffer := memory, pathPtr := 0 } [] := ⟨rfl, by simp, by simp⟩
    obtain ⟨-, hroot, hother⟩ := hstart.mark 47
    have hat : Counts memory (Trace.append { buffer := memory, pathPtr := 0, written := 0 } 47) [47] 1 1 := by
      refine ⟨⟨⟨rfl, ?_, by simp⟩, Nat.one_pos, Nat.le_refl 1, ?_, ?_⟩, Nat.le_refl 1, rfl⟩
      · intro offset hoffset
        obtain rfl : offset = 0 := Nat.lt_one_iff.mp hoffset
        exact congrArg some hroot.symm
      · intro offset hlow hhigh
        exact absurd hhigh (Nat.not_lt.mpr hlow)
      · intro offset hlow
        exact hother offset (Nat.ne_of_gt hlow)
    rw [if_pos hslash, if_pos hslash, if_pos hslash, hcomponents, htail, List.tail_cons]
    refine firstRun_ran hat (fun _ => by decide) ?_
    intro char hmem
    exact path.ends char (htail ▸ List.mem_cons_of_mem _ hmem)
  · rw [if_neg hslash, if_neg hslash, if_neg hslash]
    obtain ⟨hstring, hstale⟩ := kstrcpy_isString pwd memory
    refine firstRun_ran ⟨⟨⟨rfl, hstring.below, hstring.ends⟩, Nat.succ_pos _, Nat.le_succ _, ?_, hstale⟩,
      Nat.le_succ _, rfl⟩ ?_ path.ends
    · intro offset hlow hhigh
      dsimp only at hlow hhigh ⊢
      obtain rfl : offset = pwd.chars.length := by omega
      rw [hstring.nul]
      decide
    · intro hknown
      exact absurd hknown (by simp)

end EchidnaOS.Vfs
