import Mathlib.Data.List.Infix
import EchidnaOS.Vfs.AbsolutePath.Climb
import EchidnaOS.Vfs.AbsolutePath.Trace
import EchidnaOS.Vfs.NormalPath

namespace EchidnaOS.Vfs

open EchidnaOS.Lib.ByteStore

-- What one part of a path does to the components before it.
def enter (names : List CString) (part : CString) : List CString :=
  match component part with
  | none => names
  | some .parent => names.dropLast
  | some (.name chars) => names ++ [chars]

-- The components that a path starts from.
def base (pwd : NormalPath) (path : Text) : List CString :=
  if path.chars.head? = some 47 then [] else pwd.names

variable {name text part : CString} {names : List CString} {pwd : NormalPath} {path : Text}

theorem enter_proper (hnames : ∀ name ∈ names, Proper name) (hslash : 47 ∉ part) (hends : 0 ∉ part) :
    ∀ name ∈ enter names part, Proper name := by
  unfold enter component
  by_cases hnone : part = [] ∨ part = [46]
  · rw [if_pos hnone]
    exact hnames
  rw [if_neg hnone]
  by_cases hparent : part = [46, 46]
  · rw [if_pos hparent]
    exact fun name hmem => hnames name (List.dropLast_subset names hmem)
  · rw [if_neg hparent]
    intro name hmem
    rcases List.mem_append.mp hmem with hold | hnew
    · exact hnames name hold
    · rw [List.mem_singleton.mp hnew]
      obtain ⟨hne, hdot⟩ := not_or.mp hnone
      exact ⟨hne, hslash, hends, hdot, hparent⟩

theorem enter_name (hname : Proper name) : enter names name = names ++ [name] := by
  unfold enter component
  rw [if_neg (not_or.mpr ⟨hname.ne, hname.dot⟩), if_neg hname.dots]

theorem foldl_enter_proper {parts : List CString} (hnames : ∀ name ∈ names, Proper name)
    (hparts : ∀ part ∈ parts, 47 ∉ part ∧ 0 ∉ part) : ∀ name ∈ parts.foldl enter names, Proper name := by
  induction parts generalizing names with
  | nil => exact hnames
  | cons part parts ih =>
      obtain ⟨hpart, hlater⟩ := List.forall_mem_cons.mp hparts
      exact ih (enter_proper hnames hpart.1 hpart.2) hlater

-- Components that are proper are entered as they are.
theorem foldl_enter_names {others : List CString} (hothers : ∀ name ∈ others, Proper name) :
    others.foldl enter names = names ++ others := by
  induction others generalizing names with
  | nil => simp
  | cons name others ih =>
      obtain ⟨hname, hlater⟩ := List.forall_mem_cons.mp hothers
      rw [List.foldl_cons, enter_name hname, ih hlater, List.append_assoc, List.singleton_append]

theorem splitOn_parts (path : CString) : ∀ part ∈ path.splitOn 47, 47 ∉ part ∧ ∀ char ∈ part, char ∈ path := by
  induction path using parts_induction with
  | last part hslash =>
      rw [List.splitOn_eq_singleton hslash]
      simpa using hslash
  | slash part rest hslash ih =>
      rw [List.splitOn_append_cons_self_of_not_mem hslash]
      refine List.forall_mem_cons.mpr ⟨⟨hslash, fun char hmem => List.mem_append_left _ hmem⟩, ?_⟩
      intro other hother
      refine ⟨(ih other hother).1, fun char hmem => ?_⟩
      exact List.mem_append_right _ (List.mem_cons_of_mem _ ((ih other hother).2 char hmem))

theorem base_proper (pwd : NormalPath) (path : Text) : ∀ name ∈ base pwd path, Proper name := by
  unfold base
  split
  · simp
  · exact pwd.proper

theorem splitOn_proper (path : Text) : ∀ part ∈ path.chars.splitOn 47, 47 ∉ part ∧ 0 ∉ part := by
  intro part hpart
  obtain ⟨hslash, hchars⟩ := splitOn_parts path.chars part hpart
  exact ⟨hslash, fun hzero => path.ends 0 (hchars 0 hzero) rfl⟩

-- The path that `path` names below `pwd`.
def normalise (pwd : NormalPath) (path : Text) : NormalPath where
  names := (path.chars.splitOn 47).foldl enter (base pwd path)
  proper := foldl_enter_proper (base_proper pwd path) (splitOn_proper path)

-- Every path on the way fits a buffer with its NUL.
def Room (size : Nat) (pwd : NormalPath) (path : Text) : Prop :=
  ∀ front, front <+: path.chars.splitOn 47 → (pathText (front.foldl enter (base pwd path))).length < size

theorem pathText_snoc (htidy : Tidy (pathText names)) (hnames : ∀ name ∈ names, Proper name)
    (name : CString) : pathText (names ++ [name]) = separated (pathText names) ++ name := by
  rw [htidy.separated_eq, pathText_of_ne (by simp)]
  cases names with
  | nil => simp [pathText]
  | cons first names =>
      have hfirst := List.length_pos_iff.mpr (hnames first List.mem_cons_self).ne
      have hne : joined (first :: names) ≠ [47] := by
        intro heq
        have hlength := congrArg List.length heq
        rw [joined_cons, List.length_cons, List.length_append, List.length_singleton] at hlength
        omega
      rw [pathText_of_ne (List.cons_ne_nil _ _), if_neg hne]
      simp

theorem pathText_tidy (hnames : ∀ name ∈ names, Proper name) : Tidy (pathText names) := by
  induction names using List.reverseRecOn with
  | nil => exact .root
  | append_singleton names name ih =>
      have hold : ∀ name ∈ names, Proper name := fun name hmem => hnames name (List.mem_append_left _ hmem)
      have hname := hnames name (List.mem_append_right _ List.mem_cons_self)
      rw [pathText_snoc (ih hold) hold]
      exact (ih hold).name hname.ne hname.slash

theorem pathText_up (hnames : ∀ name ∈ names, Proper name) :
    up (pathText names) = pathText names.dropLast := by
  induction names using List.reverseRecOn with
  | nil => exact up_root
  | append_singleton names name ih =>
      have hold : ∀ name ∈ names, Proper name := fun name hmem => hnames name (List.mem_append_left _ hmem)
      have hname := hnames name (List.mem_append_right _ List.mem_cons_self)
      rw [pathText_snoc (pathText_tidy hold) hold, (pathText_tidy hold).up_name hname.slash,
        List.dropLast_concat]

theorem slash_mem_pathText (names : List CString) : 47 ∈ pathText names := by
  cases names with
  | nil => simp [pathText]
  | cons name names => simp [pathText]

theorem pathText_ends (hnames : ∀ name ∈ names, Proper name) : ∀ char ∈ pathText names, char ≠ 0 := by
  intro char hchar
  unfold pathText at hchar
  split at hchar
  · rw [List.mem_singleton.mp hchar]
    decide
  · obtain ⟨name, hname, hmem⟩ := List.mem_flatMap.mp hchar
    rcases List.mem_cons.mp hmem with rfl | hinside
    · decide
    · exact fun hzero => (hnames name hname).ends (hzero ▸ hinside)

-- A path in normal form as a string.
def NormalPath.chars (path : NormalPath) : Text where
  chars := path.text
  ends := pathText_ends path.proper

variable {front : UInt8} {memory : Store} {size known written : Nat} {parts : List CString}

-- Without a '/' in the buffer the loop does to the text what the parts do to the components.
theorem course_normal (hclean : ∀ offset, offset < size → memory offset ≠ 47)
    (hnames : ∀ name ∈ names, Proper name) (hparts : ∀ part ∈ parts, 47 ∉ part ∧ 0 ∉ part)
    (hroom : ∀ front, front <+: parts → (pathText (front.foldl enter names)).length < size)
    (hwritten : written ≤ size) : ∃ last, last ≤ size ∧
      course front memory (pathText names) known written (parts.filterMap component) =
        some (pathText (parts.foldl enter names), last) := by
  induction parts generalizing names known written with
  | nil =>
      have htidy := pathText_tidy hnames
      have hshort := hroom [] (List.nil_prefix)
      have hne : pathText names ≠ [] := List.ne_nil_of_length_pos htidy.length_pos
      rw [List.filterMap_nil, course, if_neg (fun h => hne h.1), htidy.closed_eq]
      refine ⟨_, ?_, rfl⟩
      rw [List.foldl_nil] at hshort
      omega
  | cons part parts ih =>
      obtain ⟨hpart, hlater⟩ := List.forall_mem_cons.mp hparts
      have hnext := enter_proper hnames hpart.1 hpart.2
      have hroomNext : ∀ front, front <+: parts →
          (pathText (front.foldl enter (enter names part))).length < size := by
        intro front hfront
        exact hroom (part :: front) (List.cons_prefix_cons.mpr ⟨rfl, hfront⟩)
      have hshort := hroomNext [] List.nil_prefix
      have hstart := hroom [] List.nil_prefix
      rw [List.foldl_nil] at hshort hstart
      rw [List.foldl_cons]
      cases hcomponent : component part with
      | none =>
          have henter : enter names part = names := by
            unfold enter
            rw [hcomponent]
          rw [henter] at hroomNext
          rw [List.filterMap_cons_none hcomponent, henter]
          exact ih hnames hlater hroomNext hwritten
      | some found =>
          rw [List.filterMap_cons_some hcomponent]
          cases found with
          | parent =>
              have henter : enter names part = names.dropLast := by
                unfold enter
                rw [hcomponent]
              have hstale : ¬ (known ≤ (pathText names).length ∧ memory (pathText names).length = 47) :=
                fun h => hclean _ hstart h.2
              rw [henter] at hnext hroomNext
              rw [course, if_neg hstale, if_pos (slash_mem_pathText names), pathText_up hnames, henter]
              exact ih hnext hlater hroomNext hwritten
          | name chars =>
              have henter : enter names part = names ++ [chars] := by
                unfold enter
                rw [hcomponent]
              have hne : pathText names ≠ [] :=
                List.ne_nil_of_length_pos (pathText_tidy hnames).length_pos
              have hfrom : separatedFrom front (pathText names) ++ chars = pathText (names ++ [chars]) := by
                unfold separatedFrom
                rw [if_neg (fun h => hne h.1), pathText_snoc (pathText_tidy hnames) hnames]
              rw [henter] at hnext hroomNext hshort
              rw [course, hfrom, henter]
              exact ih hnext hlater hroomNext (Nat.max_le.mpr ⟨hwritten, Nat.le_of_lt hshort⟩)

theorem base_text (pwd : NormalPath) (path : Text) :
    (origin pwd.text path.chars).1 = pathText (base pwd path) := by
  unfold origin base
  split
  · rfl
  · rfl

theorem normalise_empty (hempty : path.chars = []) : (normalise pwd path).names = pwd.names := by
  have hbase : base pwd path = pwd.names := if_neg (by simp [hempty])
  show (path.chars.splitOn 47).foldl enter (base pwd path) = pwd.names
  rw [hbase, hempty]
  rfl

-- The string in the buffer after the call is the path in normal form.
theorem vfsGetAbsolutePath_normal (hclean : ∀ offset, offset < size → memory offset ≠ 47)
    (hroom : Room size pwd path) : ∃ final,
      Trace.vfsGetAbsolutePath front pwd.text path.chars memory = some final ∧ final.written ≤ size ∧
        IsString final.buffer (normalise pwd path).text := by
  have hstart := hroom [] List.nil_prefix
  have hpos := (pathText_tidy (base_proper pwd path)).length_pos
  rw [List.foldl_nil] at hstart
  by_cases hempty : path.chars = []
  · have htext : (normalise pwd path).text = pwd.text := congrArg pathText (normalise_empty hempty)
    have hbase : base pwd path = pwd.names := if_neg (by simp [hempty])
    rw [hbase] at hstart
    unfold Trace.vfsGetAbsolutePath
    rw [if_pos hempty, htext]
    exact ⟨_, rfl, hstart, (kstrcpy_isString pwd.chars memory).1⟩
  · have hcopied : copiedLength pwd.text path.chars ≤ size := by
      unfold copiedLength
      unfold base at hstart
      split
      · omega
      · rename_i hslash
        rw [if_neg hslash] at hstart
        exact hstart
    have hrun := @vfsGetAbsolutePath_ran front pwd.chars path hempty memory
    obtain ⟨last, hlast, hcourse⟩ := @course_normal (base pwd path) front memory size
      (origin pwd.text path.chars).2 _ (path.chars.splitOn 47) hclean (base_proper pwd path)
      (splitOn_proper path) hroom hcopied
    rw [← base_text] at hcourse
    have hsame : course front memory (origin pwd.chars.chars path.chars).1
        (origin pwd.chars.chars path.chars).2 (copiedLength pwd.chars.chars path.chars)
        (components path.chars) = some ((normalise pwd path).text, last) := hcourse
    rw [hsame] at hrun
    have hne : (normalise pwd path).text ≠ [] :=
      List.ne_nil_of_length_pos (normalise pwd path).text_length_pos
    cases hfinal : Trace.vfsGetAbsolutePath front pwd.chars.chars path.chars memory with
    | none =>
        rw [hfinal] at hrun
        exact hrun.elim
    | some final =>
        rw [hfinal] at hrun
        obtain ⟨hstring, hcount⟩ := hrun
        exact ⟨final, hfinal, by omega, hstring hne⟩

theorem splitOn_joined (hname : 47 ∉ name) (hnames : ∀ name ∈ names, 47 ∉ name) :
    (name ++ joined names).splitOn 47 = name :: names := by
  induction names generalizing name with
  | nil => rw [joined_nil, List.append_nil, List.splitOn_eq_singleton hname]
  | cons first names ih =>
      obtain ⟨hfirst, hlater⟩ := List.forall_mem_cons.mp hnames
      rw [joined_cons, List.splitOn_append_cons_self_of_not_mem hname, ih hfirst hlater]

-- A path in normal form has an empty part in front, and at the root also one behind.
theorem splitOn_text (path : NormalPath) :
    path.text.splitOn 47 = if path.names = [] then [[], []] else [] :: path.names := by
  unfold NormalPath.text pathText
  split
  · rfl
  · exact splitOn_joined List.not_mem_nil path.noSlash

theorem pathText_length_le {others : List CString} (hbelow : names <+: others) :
    (pathText names).length ≤ (pathText others).length := by
  obtain ⟨later, rfl⟩ := hbelow
  cases names with
  | nil =>
      cases later with
      | nil => exact Nat.le_refl _
      | cons name later => simp [pathText]
  | cons name names => simp [pathText]

-- What a prefix of a path in normal form leads to.
theorem foldl_enter_front (path : NormalPath) {front : List CString}
    (hfront : front <+: path.text.splitOn 47) : front.foldl enter [] <+: path.names := by
  have hempty : ∀ {parts : List CString}, (∀ part ∈ parts, part = []) → parts.foldl enter [] = [] := by
    intro parts hparts
    induction parts with
    | nil => rfl
    | cons part parts ih =>
        obtain ⟨rfl, hlater⟩ := List.forall_mem_cons.mp hparts
        exact ih hlater
  rw [splitOn_text] at hfront
  split at hfront
  · rw [hempty fun part hpart => by simpa using hfront.subset hpart]
    exact List.nil_prefix
  · cases front with
    | nil => exact List.nil_prefix
    | cons part front =>
        obtain ⟨rfl, hlater⟩ := List.cons_prefix_cons.mp hfront
        have hproper : ∀ name ∈ front, Proper name := fun name hmem =>
          path.proper name (hlater.subset hmem)
        have hnames := @foldl_enter_names [] front hproper
        rw [List.nil_append] at hnames
        show front.foldl enter [] <+: path.names
        rw [hnames]
        exact hlater

theorem base_text_eq (pwd path : NormalPath) : base pwd path.chars = [] := if_pos path.text_head

theorem normalise_text (pwd path : NormalPath) : (normalise pwd path.chars).names = path.names := by
  show (path.text.splitOn 47).foldl enter (base pwd path.chars) = path.names
  rw [base_text_eq, splitOn_text]
  split
  · rename_i hroot
    rw [hroot]
    rfl
  · have hnames := @foldl_enter_names [] path.names path.proper
    rw [List.nil_append] at hnames
    exact hnames

theorem room_text (pwd path : NormalPath) (hshort : path.text.length < size) : Room size pwd path.chars := by
  intro front hfront
  rw [base_text_eq]
  exact Nat.lt_of_le_of_lt (pathText_length_le (foldl_enter_front path hfront)) hshort

-- The call puts a path into normal form, and leaves one in normal form as it is.
theorem vfs_get_absolute_path_normalises (pwd : NormalPath) (path : Text) (front : UInt8) (memory : Store)
    (size : Nat) (hclean : ∀ offset, offset < size → memory offset ≠ 47) (hroom : Room size pwd path) :
    (∃ final, Trace.vfsGetAbsolutePath front pwd.text path.chars memory = some final ∧
      final.written ≤ size ∧ IsString final.buffer (normalise pwd path).text) ∧
    ∀ (other : NormalPath) (before : UInt8) (later : Store),
      (∀ offset, offset < size → later offset ≠ 47) →
        ∃ final, Trace.vfsGetAbsolutePath before other.text (normalise pwd path).text later = some final ∧
          final.written ≤ size ∧ IsString final.buffer (normalise pwd path).text := by
  refine ⟨vfsGetAbsolutePath_normal hclean hroom, ?_⟩
  intro other before later hlater
  have hshort : (normalise pwd path).text.length < size := hroom _ (List.prefix_refl _)
  have hagain := @vfsGetAbsolutePath_normal other (normalise pwd path).chars before later size hlater
    (room_text other (normalise pwd path) hshort)
  have htext : (normalise other (normalise pwd path).chars).text = (normalise pwd path).text :=
    congrArg pathText (normalise_text other (normalise pwd path))
  rw [htext] at hagain
  exact hagain

def pathB : NormalPath where
  names := [[98]]
  proper := by
    intro name hname
    rw [List.mem_singleton.mp hname]
    exact ⟨by decide, by decide, by decide, by decide, by decide⟩

-- a//./../c
def relativeC : Text where
  chars := [97, 47, 47, 46, 47, 46, 46, 47, 99]
  ends := by simp

-- Below /b this is /b/c, for which a buffer of 8 bytes is large enough.
theorem vfs_get_absolute_path_normalises_c : ∃ final,
    Trace.vfsGetAbsolutePath 0 pathB.text relativeC.chars (fun _ => 0) = some final ∧
      final.written ≤ 8 ∧ IsString final.buffer [47, 98, 47, 99] := by
  have hroom : ∀ front ∈ (relativeC.chars.splitOn 47).inits,
      (pathText (front.foldl enter (base pathB relativeC))).length < 8 := by
    decide
  exact (vfs_get_absolute_path_normalises pathB relativeC 0 (fun _ => 0) 8 (fun _ _ => by decide)
    fun front hfront => hroom front ((List.mem_inits front _).mpr hfront)).1

end EchidnaOS.Vfs
