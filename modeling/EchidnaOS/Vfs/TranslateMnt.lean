import EchidnaOS.Vfs.NormalPath

namespace EchidnaOS.Vfs

open EchidnaOS.Lib.ByteStore

def TRANSLATE_FAILURE : Int := -2

-- kstrncmp with the length of the mount point, then what comes behind it.
def Translates (path mountpoint : CString) : Prop :=
  mountpoint <+: path ∧
    ((path[mountpoint.length]? = some 47 ∨ path[mountpoint.length]? = none) ∨ mountpoint = [47])

instance (path mountpoint : CString) : Decidable (Translates path mountpoint) :=
  inferInstanceAs (Decidable (_ ∧ _))

-- The loop over `mountpoints` from entry `i` on.
def guessFrom (path : CString) : List CString → Nat → Int → Nat → Int × Nat
  | [], _, guess, guessSize => (guess, guessSize)
  | mountpoint :: rest, i, guess, guessSize =>
      if Translates path mountpoint ∧ guessSize < mountpoint.length then
        guessFrom path rest (i + 1) i mountpoint.length
      else guessFrom path rest (i + 1) guess guessSize

-- The mount point and *local_path. `*local_path++` at the end moves the parameter and not the
-- pointer behind it.
def vfsTranslateMnt (mountpoints : List CString) (path : CString) : Int × CString :=
  let guess := guessFrom path mountpoints 0 TRANSLATE_FAILURE 0
  (guess.1, path.drop guess.2)

-- The first of the longest mount points that have the path below them.
structure Longest (mounts : List NormalPath) (path : NormalPath) (index : Nat) (mount : NormalPath) :
    Prop where
  found : mounts[index]? = some mount
  encloses : mount.names <+: path.names
  longest : ∀ other ∈ mounts, other.names <+: path.names → other.text.length ≤ mount.text.length
  first : ∀ earlier < index, ∀ other, mounts[earlier]? = some other →
    other.names <+: path.names → other.text.length < mount.text.length

-- What the loop holds after the mount points it has seen.
def Guessed (seen : List NormalPath) (path : NormalPath) (guess : Int) (guessSize : Nat) : Prop :=
  (guess = TRANSLATE_FAILURE ∧ guessSize = 0 ∧ ∀ mount ∈ seen, ¬ mount.names <+: path.names) ∨
    ∃ index mount, guess = (index : Nat) ∧ guessSize = mount.text.length ∧ Longest seen path index mount

variable {mounts seen rest : List NormalPath} {path mount other : NormalPath} {guess : Int}
  {guessSize index : Nat}

theorem bounded_drop (text : CString) (length : Nat) :
    (text[length]? = some 47 ∨ text[length]? = none) ↔ Bounded (text.drop length) := by
  unfold Bounded
  rw [List.head?_drop, List.getElem?_eq_none_iff, List.drop_eq_nil_iff]
  exact or_comm

-- The comparison of the code is that of the components.
theorem translates_iff : Translates path.text mount.text ↔ mount.names <+: path.names := by
  unfold Translates
  rw [bounded_drop]
  by_cases hmount : mount.names = []
  · have hroot : mount.text = [47] := by
      unfold NormalPath.text pathText
      rw [if_pos hmount]
    obtain ⟨tail, htail⟩ := List.head?_eq_some_iff.mp path.text_head
    rw [hmount, hroot, htail]
    simp
  · have htext : mount.text = joined mount.names := pathText_of_ne hmount
    obtain ⟨name, names, hnames⟩ := List.exists_cons_of_ne_nil hmount
    have hname := (mount.proper name (by rw [hnames]; exact List.mem_cons_self)).ne
    have hroot : mount.text ≠ [47] := by
      rw [htext, hnames, joined_cons]
      intro heq
      have hempty := List.append_eq_nil_iff.mp (List.tail_eq_of_cons_eq heq)
      exact hname hempty.1
    by_cases hpath : path.names = []
    · have hshort : path.text = [47] := by
        unfold NormalPath.text pathText
        rw [if_pos hpath]
      rw [hpath, hshort, List.prefix_nil]
      refine iff_of_false ?_ hmount
      intro htranslates
      have hlength := htranslates.1.length_le
      rw [htext, hnames, joined_cons, List.length_cons, List.length_append] at hlength
      have hpos := List.length_pos_iff.mpr hname
      simp only [List.length_singleton] at hlength
      omega
    · have hwhole : path.text = joined path.names := pathText_of_ne hpath
      rw [← joined_eq_iff mount.noSlash path.noSlash, ← htext, ← hwhole]
      constructor
      · intro htranslates
        obtain ⟨tail, htail⟩ := htranslates.1
        rw [← htail, List.drop_left] at htranslates
        exact ⟨tail, htranslates.2.resolve_right hroot, htail.symm⟩
      · intro hrest
        obtain ⟨tail, hbounded, heq⟩ := hrest
        rw [heq, List.drop_left]
        exact ⟨List.prefix_append _ _, Or.inl hbounded⟩

theorem Longest.snoc (hlongest : Longest seen path index mount)
    (hother : other.names <+: path.names → other.text.length ≤ mount.text.length) :
    Longest (seen ++ [other]) path index mount := by
  have hlt := (List.getElem?_eq_some_iff.mp hlongest.found).1
  refine ⟨?_, hlongest.encloses, ?_, ?_⟩
  · rw [List.getElem?_append_left hlt, hlongest.found]
  · intro next hnext
    rcases List.mem_append.mp hnext with hold | hnew
    · exact hlongest.longest next hold
    · rw [List.mem_singleton.mp hnew]
      exact hother
  · intro earlier hearlier
    rw [List.getElem?_append_left (by omega)]
    exact hlongest.first earlier hearlier

-- A mount point that is longer than all before it is the first of its length.
theorem Longest.last (hencloses : mount.names <+: path.names)
    (hlonger : ∀ other ∈ seen, other.names <+: path.names → other.text.length < mount.text.length) :
    Longest (seen ++ [mount]) path seen.length mount := by
  refine ⟨?_, hencloses, ?_, ?_⟩
  · rw [List.getElem?_concat_length]
  · intro next hnext hnames
    rcases List.mem_append.mp hnext with hold | hnew
    · exact Nat.le_of_lt (hlonger next hold hnames)
    · rw [List.mem_singleton.mp hnew]
  · intro earlier hearlier next hnext
    rw [List.getElem?_append_left hearlier] at hnext
    exact hlonger next (List.mem_of_getElem? hnext)

theorem Guessed.below (hguessed : Guessed seen path guess guessSize) (hmem : other ∈ seen)
    (hencloses : other.names <+: path.names) : other.text.length ≤ guessSize := by
  rcases hguessed with ⟨-, -, hnone⟩ | ⟨index, mount, -, rfl, hlongest⟩
  · exact absurd hencloses (hnone other hmem)
  · exact hlongest.longest other hmem hencloses

-- One turn of the loop.
theorem Guessed.step (hguessed : Guessed seen path guess guessSize) (mount : NormalPath) :
    if Translates path.text mount.text ∧ guessSize < mount.text.length then
      Guessed (seen ++ [mount]) path seen.length mount.text.length
    else Guessed (seen ++ [mount]) path guess guessSize := by
  split
  · rename_i hlonger
    right
    refine ⟨seen.length, mount, rfl, rfl, Longest.last (translates_iff.mp hlonger.1) ?_⟩
    intro other hother hencloses
    have hle := hguessed.below hother hencloses
    exact Nat.lt_of_le_of_lt hle hlonger.2
  · rename_i hnot
    rcases hguessed with ⟨hfailure, hzero, hnone⟩ | ⟨index, best, hguess, hsize, hlongest⟩
    · left
      refine ⟨hfailure, hzero, ?_⟩
      intro other hother
      rcases List.mem_append.mp hother with hold | hnew
      · exact hnone other hold
      · rw [List.mem_singleton.mp hnew]
        intro hencloses
        exact hnot ⟨translates_iff.mpr hencloses, by rw [hzero]; exact mount.text_length_pos⟩
    · right
      refine ⟨index, best, hguess, hsize, hlongest.snoc ?_⟩
      intro hencloses
      by_contra hlt
      exact hnot ⟨translates_iff.mpr hencloses, by omega⟩

theorem guessFrom_guessed (hguessed : Guessed seen path guess guessSize) :
    Guessed (seen ++ rest) path
      (guessFrom path.text (rest.map NormalPath.text) seen.length guess guessSize).1
      (guessFrom path.text (rest.map NormalPath.text) seen.length guess guessSize).2 := by
  induction rest generalizing seen guess guessSize with
  | nil =>
      rw [List.append_nil]
      exact hguessed
  | cons mount rest ih =>
      have hstep := hguessed.step mount
      have hlength : seen.length + 1 = (seen ++ [mount]).length := by simp
      have hseen : seen ++ mount :: rest = (seen ++ [mount]) ++ rest := by simp
      rw [List.map_cons, guessFrom, hseen, hlength]
      split at hstep
      · rename_i hlonger
        rw [if_pos hlonger]
        exact ih hstep
      · rename_i hnot
        rw [if_neg hnot]
        exact ih hstep

-- Two mount points of one length above the same path are the same.
theorem enclosing_unique (hmount : mount.names <+: path.names) (hother : other.names <+: path.names)
    (hlength : mount.text.length = other.text.length) : mount.text = other.text :=
  (List.prefix_of_prefix_length_le (translates_iff.mpr hmount).1 (translates_iff.mpr hother).1
    (Nat.le_of_eq hlength)).eq_of_length hlength

-- The mount point of the answer, if there is one.
def answer (mountpoints : List CString) (path : CString) : Option CString :=
  if (vfsTranslateMnt mountpoints path).1 = TRANSLATE_FAILURE then none
  else mountpoints[(vfsTranslateMnt mountpoints path).1.toNat]?

theorem vfsTranslateMnt_guessed (mounts : List NormalPath) (path : NormalPath) :
    Guessed mounts path (vfsTranslateMnt (mounts.map NormalPath.text) path.text).1
      (guessFrom path.text (mounts.map NormalPath.text) 0 TRANSLATE_FAILURE 0).2 := by
  have hstart : Guessed [] path TRANSLATE_FAILURE 0 := Or.inl ⟨rfl, rfl, by simp⟩
  have hrun := @guessFrom_guessed [] mounts path TRANSLATE_FAILURE 0 hstart
  rw [List.nil_append] at hrun
  exact hrun

theorem index_ne_failure (index : Nat) : (index : Int) ≠ TRANSLATE_FAILURE := by
  unfold TRANSLATE_FAILURE
  omega

theorem vfsTranslateMnt_failure_iff : (vfsTranslateMnt (mounts.map NormalPath.text) path.text).1 =
    TRANSLATE_FAILURE ↔ ∀ mount ∈ mounts, ¬ mount.names <+: path.names := by
  rcases vfsTranslateMnt_guessed mounts path with ⟨hfailure, -, hnone⟩ | ⟨index, mount, hguess, -, hlongest⟩
  · exact iff_of_true hfailure hnone
  · rw [hguess]
    refine iff_of_false (index_ne_failure index) ?_
    intro hnone
    exact hnone mount (List.mem_of_getElem? hlongest.found) hlongest.encloses

theorem vfsTranslateMnt_longest (hsome : ∃ mount ∈ mounts, mount.names <+: path.names) :
    ∃ index mount, Longest mounts path index mount ∧
      vfsTranslateMnt (mounts.map NormalPath.text) path.text =
        ((index : Int), path.text.drop mount.text.length) := by
  rcases vfsTranslateMnt_guessed mounts path with ⟨-, -, hnone⟩ | ⟨index, mount, hguess, hsize, hlongest⟩
  · obtain ⟨mount, hmem, hencloses⟩ := hsome
    exact absurd hencloses (hnone mount hmem)
  · refine ⟨index, mount, hlongest, ?_⟩
    rw [Prod.ext_iff]
    exact ⟨hguess, congrArg path.text.drop hsize⟩

theorem answer_of_longest (hlongest : Longest mounts path index mount)
    (hguess : (vfsTranslateMnt (mounts.map NormalPath.text) path.text).1 = (index : Nat)) :
    answer (mounts.map NormalPath.text) path.text = some mount.text := by
  unfold answer
  rw [hguess, if_neg (index_ne_failure index), Int.toNat_natCast, List.getElem?_map, hlongest.found]
  rfl

theorem answer_perm (hperm : mounts.Perm seen) :
    answer (mounts.map NormalPath.text) path.text = answer (seen.map NormalPath.text) path.text := by
  by_cases hsome : ∃ mount ∈ mounts, mount.names <+: path.names
  · have hseen : ∃ mount ∈ seen, mount.names <+: path.names := by
      obtain ⟨mount, hmem, hencloses⟩ := hsome
      exact ⟨mount, hperm.subset hmem, hencloses⟩
    obtain ⟨index, mount, hlongest, hrun⟩ := vfsTranslateMnt_longest hsome
    obtain ⟨place, other, hother, hagain⟩ := vfsTranslateMnt_longest hseen
    rw [answer_of_longest hlongest (congrArg Prod.fst hrun),
      answer_of_longest hother (congrArg Prod.fst hagain)]
    have hle := hlongest.longest other (hperm.symm.subset (List.mem_of_getElem? hother.found))
      hother.encloses
    have hge := hother.longest mount (hperm.subset (List.mem_of_getElem? hlongest.found))
      hlongest.encloses
    rw [enclosing_unique hlongest.encloses hother.encloses (by omega)]
  · have hnone : ∀ mount ∈ mounts, ¬ mount.names <+: path.names := by
      intro mount hmem hencloses
      exact hsome ⟨mount, hmem, hencloses⟩
    have hseen : ∀ mount ∈ seen, ¬ mount.names <+: path.names := fun mount hmem =>
      hnone mount (hperm.symm.subset hmem)
    unfold answer
    rw [if_pos (vfsTranslateMnt_failure_iff.mpr hnone), if_pos (vfsTranslateMnt_failure_iff.mpr hseen)]

-- The mount point is the first of the longest ones above the path, and which one that is does
-- not depend on the order of the table.
theorem vfs_translate_mnt_longest_enclosing (mounts : List NormalPath) (path : NormalPath) :
    ((vfsTranslateMnt (mounts.map NormalPath.text) path.text).1 = TRANSLATE_FAILURE ↔
        ∀ mount ∈ mounts, ¬ mount.names <+: path.names) ∧
      ((∃ mount ∈ mounts, mount.names <+: path.names) →
        ∃ index mount, Longest mounts path index mount ∧
          vfsTranslateMnt (mounts.map NormalPath.text) path.text =
            ((index : Int), path.text.drop mount.text.length)) ∧
      ∀ table : List NormalPath, mounts.Perm table →
        answer (mounts.map NormalPath.text) path.text = answer (table.map NormalPath.text) path.text :=
  ⟨vfsTranslateMnt_failure_iff, vfsTranslateMnt_longest, fun _ hperm => answer_perm hperm⟩

-- /dev/tty below / and /dev, and /device below / only.
example : vfsTranslateMnt [[47], [47, 100, 101, 118]] [47, 100, 101, 118, 47, 116] = (1, [47, 116]) ∧
    vfsTranslateMnt [[47], [47, 100, 101, 118]] [47, 100, 101, 118, 105] = (0, [100, 101, 118, 105]) := by
  decide

end EchidnaOS.Vfs
