import EchidnaOS.Vfs.AbsolutePath.Stale

namespace EchidnaOS.Vfs

open EchidnaOS.Lib.ByteStore

-- How far up the parts of a path lead at the most, and the names of theirs that stay.
def climb : List Component → Nat
  | [] => 0
  | .name _ :: rest => climb rest - 1
  | .parent :: rest => climb rest + 1

def staying : List Component → List CString
  | [] => []
  | .name chars :: rest => if climb rest = 0 then chars :: staying rest else staying rest
  | .parent :: rest => staying rest

-- An absolute path with single slashes between its names and none at its end.
inductive Tidy : CString → Prop
  | root : Tidy [47]
  | name {text chars : CString} (htext : Tidy text) (hne : chars ≠ []) (hslash : 47 ∉ chars) :
      Tidy (separated text ++ chars)

def push (text : CString) (names : List CString) : CString :=
  names.foldl (fun text chars => separated text ++ chars) text

def Named (rest : List Component) : Prop := ∀ chars, .name chars ∈ rest → chars ≠ [] ∧ 47 ∉ chars

-- `Recovers` for tidy paths: the parts that are left lead up to the root.
def Climbs : CString → Nat → List Component → Prop
  | _, _, [] => True
  | text, known, .name chars :: rest =>
      Climbs (separated text ++ chars) (max known (separated text ++ chars).length) rest
  | text, known, .parent :: rest =>
      Climbs (up text) (max known (text.length + 1)) rest ∧
        (known ≤ text.length → up^[climb rest] text = [47] ∧ Climbs text (text.length + 1) rest)

variable {text other chars : CString} {known : Nat} {rest : List Component} {names : List CString}

theorem up_root : up [47] = [47] := by decide

theorem up_slash (hslash : 47 ∉ chars) : up (text ++ 47 :: chars) = if text = [] then [47] else text := by
  have hchar : (text ++ 47 :: chars)[text.length]? = some 47 := by simp
  have hafter : ∀ offset, text.length < offset → (text ++ 47 :: chars)[offset]? ≠ some 47 := by
    intro offset hoffset hfound
    rw [List.getElem?_append_right (Nat.le_of_lt hoffset),
      show offset - text.length = (offset - text.length - 1) + 1 by omega,
      List.getElem?_cons_succ] at hfound
    exact hslash (List.mem_of_getElem? hfound)
  rw [up_eq hchar hafter]
  by_cases hempty : text = []
  · simp [hempty]
  · rw [if_neg (by simpa using hempty), if_neg hempty, List.take_left]

theorem separated_root : separated [47] = [47] := by decide

theorem length_le_separated (text : CString) : text.length ≤ (separated text).length := by
  unfold separated
  split
  · exact Nat.le_refl _
  · rw [List.length_append]
    exact Nat.le_add_right _ _

namespace Tidy

theorem length_pos (htidy : Tidy text) : 0 < text.length := by
  cases htidy with
  | root => exact Nat.one_pos
  | name htext hne hslash =>
      rw [List.length_append]
      exact Nat.add_pos_right _ (List.length_pos_of_ne_nil hne)

theorem root_or_name (htidy : Tidy text) : text = [47] ∨
    (1 < text.length ∧ text.getLast? ≠ some 47) := by
  cases htidy with
  | root => exact Or.inl rfl
  | @name text chars htext hne hslash =>
      right
      have hpos := htext.length_pos
      have hname := List.length_pos_of_ne_nil hne
      have hle := length_le_separated text
      rw [List.length_append, List.getLast?_append_of_ne_nil _ hne]
      exact ⟨by omega, fun hlast => hslash (List.mem_of_getLast? hlast)⟩

theorem separated_eq (htidy : Tidy text) :
    separated text = if text = [47] then [47] else text ++ [47] := by
  rcases htidy.root_or_name with hroot | ⟨hlength, hlast⟩
  · rw [if_pos hroot, hroot, separated_root]
  · have hne : text ≠ [47] := by
      rintro rfl
      exact hlast rfl
    unfold separated
    rw [if_neg hne, if_neg (not_or.mpr ⟨Nat.ne_of_gt hlength, hlast⟩)]

theorem closed_eq (htidy : Tidy text) : closed text = text := by
  unfold closed
  rcases htidy.root_or_name with hroot | ⟨-, hlast⟩
  · rw [if_neg (fun h => h.1 (by rw [hroot]; rfl))]
  · rw [if_neg (fun h => hlast h.2)]

theorem up_name (htidy : Tidy text) (hslash : 47 ∉ chars) : up (separated text ++ chars) = text := by
  rw [htidy.separated_eq]
  by_cases hroot : text = [47]
  · rw [if_pos hroot, hroot]
    have hup : Vfs.up ([] ++ 47 :: chars) = if ([] : List UInt8) = [] then [47] else [] :=
      up_slash hslash
    exact hup.trans (if_pos rfl)
  · rw [if_neg hroot, List.append_assoc, List.singleton_append, up_slash hslash,
      if_neg (List.ne_nil_of_length_pos htidy.length_pos)]

theorem up (htidy : Tidy text) : Tidy (up text) := by
  cases htidy with
  | root => exact .root
  | name htext hne hslash =>
      rw [htext.up_name hslash]
      exact htext

theorem up_iterate (htidy : Tidy text) (count : Nat) : Tidy (Vfs.up^[count] text) := by
  induction count generalizing text with
  | zero => exact htidy
  | succ count ih => exact ih htidy.up

theorem up_length_lt (htidy : Tidy text) (hroot : text ≠ [47]) : (Vfs.up text).length < text.length := by
  cases htidy with
  | root => exact absurd rfl hroot
  | @name text chars htext hne hslash =>
      rw [htext.up_name hslash, List.length_append]
      have hle := length_le_separated text
      have hpos := List.length_pos_of_ne_nil hne
      omega

theorem push (htidy : Tidy text) (hnames : ∀ chars ∈ names, chars ≠ [] ∧ 47 ∉ chars) :
    Tidy (push text names) := by
  induction names generalizing text with
  | nil => exact htidy
  | cons chars names ih =>
      obtain ⟨hhead, htail⟩ := List.forall_mem_cons.mp hnames
      exact ih (htidy.name hhead.1 hhead.2) htail

-- Names make no difference to which of two paths is longer.
theorem push_length_lt (htidy : Tidy text) (hother : Tidy other) (hlt : text.length < other.length)
    (hnames : ∀ chars ∈ names, chars ≠ [] ∧ 47 ∉ chars) :
    (Vfs.push text names).length < (Vfs.push other names).length := by
  induction names generalizing text other with
  | nil => exact hlt
  | cons chars names ih =>
      obtain ⟨hhead, htail⟩ := List.forall_mem_cons.mp hnames
      refine ih (htidy.name hhead.1 hhead.2) (hother.name hhead.1 hhead.2) ?_ htail
      have hpos := htidy.length_pos
      have hne : other ≠ [47] := by
        rintro rfl
        exact absurd hlt (Nat.not_lt.mpr hpos)
      rw [List.length_append, List.length_append, htidy.separated_eq, hother.separated_eq, if_neg hne,
        List.length_append]
      split
      · rw [List.length_singleton]
        omega
      · rw [List.length_append]
        omega

end Tidy

theorem Named.tail {part : Component} (hnamed : Named (part :: rest)) : Named rest :=
  fun chars hmem => hnamed chars (List.mem_cons_of_mem _ hmem)

theorem Named.staying (hnamed : Named rest) : ∀ chars ∈ staying rest, chars ≠ [] ∧ 47 ∉ chars := by
  induction rest with
  | nil => exact fun chars hmem => absurd hmem List.not_mem_nil
  | cons part rest ih =>
      cases part with
      | parent => exact ih hnamed.tail
      | name chars =>
          unfold Vfs.staying
          split
          · exact List.forall_mem_cons.mpr ⟨hnamed chars List.mem_cons_self, ih hnamed.tail⟩
          · exact ih hnamed.tail

theorem components_named (path : CString) : Named (components path) := by
  have hpart : ∀ part : CString, 47 ∉ part → Named (component part).toList := by
    intro part hslash chars hmem
    rw [Option.mem_toList, component] at hmem
    split at hmem
    · cases hmem
    · rename_i hsome
      split at hmem
      · cases hmem
      · cases hmem
        exact ⟨fun hnil => hsome (Or.inl hnil), hslash⟩
  induction path using parts_induction with
  | last part hslash =>
      rw [components_last hslash]
      exact hpart part hslash
  | slash part rest hslash ih =>
      rw [components_slash hslash]
      intro chars hmem
      rcases List.mem_append.mp hmem with hfirst | hlater
      · exact hpart part hslash chars hfirst
      · exact ih chars hlater

-- What a path means, in one go: up, then the names that stay.
theorem resolve_eq (htidy : Tidy text) (hnamed : Named rest) :
    resolve text rest = push (up^[climb rest] text) (staying rest) := by
  induction rest generalizing text with
  | nil => exact htidy.closed_eq
  | cons part rest ih =>
      cases part with
      | parent => exact ih htidy.up hnamed.tail
      | name chars =>
          obtain ⟨hne, hslash⟩ := hnamed chars List.mem_cons_self
          rw [resolve, ih (htidy.name hne hslash) hnamed.tail, climb, staying]
          cases hclimb : climb rest with
          | zero => rfl
          | succ count =>
              rw [Function.iterate_succ_apply, htidy.up_name hslash, if_neg (Nat.succ_ne_zero count),
                Nat.add_sub_cancel]

theorem rejoin_iff_climb (htidy : Tidy text) (hnamed : Named rest) :
    Rejoin text (up text) rest ↔ up^[climb rest] text = [47] := by
  have hplace := htidy.up_iterate (climb rest)
  rw [rejoin_iff, resolve_eq htidy hnamed, resolve_eq htidy.up hnamed, ← Function.iterate_succ_apply,
    Function.iterate_succ_apply']
  constructor
  · intro hsame
    by_contra hroot
    have hlt := hplace.up.push_length_lt hplace (hplace.up_length_lt hroot) hnamed.staying
    rw [hsame] at hlt
    exact absurd hlt (Nat.lt_irrefl _)
  · intro hroot
    rw [hroot, up_root]

theorem recovers_iff_climbs (htidy : Tidy text) (hnamed : Named rest) :
    Recovers text known rest ↔ Climbs text known rest := by
  induction rest generalizing text known with
  | nil => exact Iff.rfl
  | cons part rest ih =>
      cases part with
      | name chars =>
          obtain ⟨hne, hslash⟩ := hnamed chars List.mem_cons_self
          exact ih (htidy.name hne hslash) hnamed.tail
      | parent =>
          rw [Recovers, Climbs, ih htidy.up hnamed.tail, ih htidy hnamed.tail,
            rejoin_iff_climb htidy hnamed.tail]

-- An absolute path shows no stale bytes exactly when every scan they can stop is made up for by
-- parts that lead up to the root.
theorem absolute_recovers_iff (path : CString) :
    Recovers [47] 1 (components path) ↔ Climbs [47] 1 (components path) :=
  recovers_iff_climbs .root (components_named path)

end EchidnaOS.Vfs
