import EchidnaOS.Vfs.AbsolutePath

namespace EchidnaOS.Vfs

open EchidnaOS.Lib.ByteStore

-- The path is expanded inside the buffer, whatever is in it.
def ExpansionFits (pwd path : Text) : Prop :=
  ∀ buffer, (vfsGetAbsolutePath pwd.chars path.chars buffer).isSome

-- The buffer begins with a '/', and the cursor is behind it and not past `ptr`.
structure Rooted (s : Cursor) (ptr : Nat) : Prop where
  pos : 0 < s.pathPtr
  le : s.pathPtr ≤ ptr
  root : s.buffer 0 = 47

variable {s : Cursor} {ptr : Nat} {path part : CString}

namespace Rooted

theorem put (hat : Rooted s ptr) (hroom : ptr < PATH_BUFFER) (char : UInt8) :
    ∃ next, s.put char = some next ∧ Rooted next ptr := by
  have hle := hat.le
  have hpos := hat.pos
  unfold Cursor.put
  rw [if_pos (by omega)]
  refine ⟨_, rfl, hpos, hle, ?_⟩
  dsimp only
  rw [write_outside _ _ _ _ (Or.inl hpos)]
  exact hat.root

theorem append (hat : Rooted s ptr) (hroom : ptr < PATH_BUFFER) (char : UInt8) :
    ∃ next, s.append char = some next ∧ Rooted next (ptr + 1) := by
  obtain ⟨next, hnext, hput⟩ := hat.put hroom char
  unfold Cursor.append
  rw [hnext, Option.map_some]
  exact ⟨_, rfl, Nat.succ_pos _, Nat.succ_le_succ hput.le, hput.root⟩

theorem before (hat : Rooted s ptr) (hroom : ptr < PATH_BUFFER) : ∃ char, s.before = some char := by
  have hle := hat.le
  have hpos := hat.pos
  unfold Cursor.before
  rw [if_neg (by omega)]
  exact ⟨_, rfl⟩

theorem mono (hat : Rooted s ptr) {bound : Nat} (hle : ptr ≤ bound) : Rooted s bound :=
  ⟨hat.pos, Nat.le_trans hat.le hle, hat.root⟩

theorem separate (hat : Rooted s ptr) (hroom : ptr < PATH_BUFFER) :
    ∃ next, s.separate = some next ∧ Rooted next (ptr + 1) := by
  have hlater := hat.mono (Nat.le_succ ptr)
  unfold Cursor.separate
  by_cases hone : s.pathPtr = 1
  · rw [if_pos hone]
    exact ⟨s, rfl, hlater⟩
  · obtain ⟨char, hchar⟩ := hat.before hroom
    rw [if_neg hone, hchar, Option.bind_some]
    by_cases hslash : char = 47
    · rw [if_pos hslash]
      exact ⟨s, rfl, hlater⟩
    · rw [if_neg hslash]
      exact hat.append hroom 47

theorem term (hat : Rooted s ptr) (hroom : ptr < PATH_BUFFER) : s.term.isSome = true := by
  obtain ⟨char, hchar⟩ := hat.before hroom
  have hle := hat.le
  unfold Cursor.term Cursor.put
  rw [hchar, Option.bind_some]
  dsimp only
  rw [if_pos (by split <;> omega)]
  rfl

-- The scan ends at the root at the latest.
theorem parent (hat : Rooted s ptr) (hroom : ptr < PATH_BUFFER) :
    ∃ next, s.parent = some next ∧ Rooted next ptr := by
  have hle := hat.le
  have hpos := hat.pos
  have hscan : ∀ start, ∃ found, Cursor.scan s.buffer start = some found := by
    intro start
    induction start with
    | zero =>
        unfold Cursor.scan
        rw [if_pos hat.root]
        exact ⟨0, rfl⟩
    | succ start ih =>
        unfold Cursor.scan
        split
        · exact ⟨_, rfl⟩
        · exact ih
  obtain ⟨found, hfound⟩ := hscan s.pathPtr
  have hlow := (scan_spec hfound).1
  unfold Cursor.parent
  rw [if_pos (by omega), hfound]
  refine ⟨_, rfl, ?_, ?_, hat.root⟩
  · dsimp only
    split <;> omega
  · dsimp only
    split <;> omega

theorem walk_name (hat : Rooted s ptr) (hslash : 47 ∉ part) (hroom : ptr + part.length < PATH_BUFFER) :
    ∃ next, walk s (part ++ path) = walk next path ∧ Rooted next (ptr + part.length) := by
  induction part generalizing s ptr with
  | nil => exact ⟨s, rfl, hat⟩
  | cons char part ih =>
      obtain ⟨hne, hslash⟩ := not_or.mp (mt List.mem_cons.mpr hslash)
      rw [List.length_cons] at hroom
      obtain ⟨after, happend, hafter⟩ := hat.append (by omega) char
      obtain ⟨next, hwalk, hnext⟩ := ih hafter hslash (by omega)
      refine ⟨next, ?_, hnext.mono (by rw [List.length_cons]; omega)⟩
      rw [List.cons_append, walk, if_neg (Ne.symm hne), happend, Option.bind_some, hwalk]

theorem firstRun (hat : Rooted s ptr) (hroom : ptr + path.length + 2 ≤ PATH_BUFFER) :
    (firstRun s path).isSome = true := by
  induction path using parts_induction generalizing s ptr with
  | last part hslash =>
      rcases part_cases part with rfl | rfl | rfl | hname
      · obtain ⟨after, hseparate, hafter⟩ := hat.separate (by omega)
        rw [firstRun_empty, hseparate, Option.bind_some]
        exact hafter.term (by omega)
      · rw [firstRun_here_last]
        exact hat.term (by omega)
      · obtain ⟨next, hparent, hnext⟩ := hat.parent (by omega)
        rw [firstRun_parent_last, hparent, Option.bind_some]
        exact hnext.term (by omega)
      · obtain ⟨after, hseparate, hafter⟩ := hat.separate (by omega)
        obtain ⟨last, hwalk, hlast⟩ := @walk_name after (ptr + 1) [] part hafter hslash (by omega)
        rw [List.append_nil] at hwalk
        rw [firstRun_name (takeWhile_last hslash) hname, hseparate, Option.bind_some, hwalk, walk]
        exact hlast.term (by omega)
  | slash part rest hslash ih =>
      rw [List.length_append, List.length_cons] at hroom
      rcases part_cases part with rfl | rfl | rfl | hname
      · rw [List.nil_append, firstRun_slash]
        exact ih hat (by omega)
      · rw [List.cons_append, List.nil_append, firstRun_here]
        split
        · exact hat.term (by omega)
        · exact ih hat (by omega)
      · obtain ⟨next, hparent, hnext⟩ := hat.parent (by omega)
        rw [List.cons_append, List.cons_append, List.nil_append, firstRun_parent, hparent,
          Option.bind_some]
        by_cases hempty : rest = []
        · rw [if_pos hempty]
          exact hnext.term (by omega)
        · obtain ⟨last, hput, hlast⟩ := hnext.put (by omega) 0
          rw [if_neg hempty, hput, Option.bind_some]
          exact ih hlast (by omega)
      · obtain ⟨after, hseparate, hafter⟩ := hat.separate (by omega)
        obtain ⟨last, hwalk, hlast⟩ := @walk_name after (ptr + 1) (47 :: rest) part hafter hslash
          (by omega)
        rw [firstRun_name (takeWhile_slash hslash rest) hname, hseparate, Option.bind_some, hwalk,
          walk, if_pos rfl]
        exact ih hlast (by omega)

end Rooted

-- An absolute path, or one below an absolute pwd, is expanded inside the buffer if it is short.
theorem fits_of_short {pwd path : Text} (hpwd : pwd.chars.head? = some 47)
    (hshort : pwd.chars.length + path.chars.length + 2 ≤ PATH_BUFFER) : ExpansionFits pwd path := by
  intro buffer
  unfold vfsGetAbsolutePath
  obtain ⟨tail, htail⟩ := List.head?_eq_some_iff.mp hpwd
  have hpos : 0 < pwd.chars.length := by
    rw [htail]
    exact Nat.succ_pos _
  have hcopy : kstrcpy buffer pwd.chars = some (write buffer 0 (pwd.chars ++ [0])) := by
    unfold kstrcpy
    rw [if_pos (by omega)]
  by_cases hempty : path.chars = []
  · rw [if_pos hempty, hcopy]
    rfl
  rw [if_neg hempty]
  by_cases hslash : path.chars.head? = some 47
  · rw [if_pos hslash]
    have hput : Cursor.append { buffer := buffer, pathPtr := 0 } 47 =
        some { buffer := write buffer 0 [47], pathPtr := 1 } := by
      unfold Cursor.append Cursor.put
      rw [if_pos (show 0 < PATH_BUFFER by decide)]
      rfl
    have hat : Rooted { buffer := write buffer 0 [47], pathPtr := 1 } 1 :=
      ⟨Nat.one_pos, Nat.le_refl 1, write_inside buffer 0 [47] 0 Nat.one_pos⟩
    rw [hput, Option.bind_some]
    refine hat.firstRun ?_
    rw [List.length_tail]
    omega
  · rw [if_neg hslash, hcopy, Option.bind_some]
    have hat : Rooted { buffer := write buffer 0 (pwd.chars ++ [0]), pathPtr := pwd.chars.length }
        pwd.chars.length := by
      refine ⟨hpos, Nat.le_refl _, ?_⟩
      have hroot := write_inside buffer 0 (pwd.chars ++ [0]) 0 (by simp)
      rw [Nat.add_zero] at hroot
      dsimp only
      rw [hroot, htail]
      rfl
    exact hat.firstRun hshort

end EchidnaOS.Vfs
