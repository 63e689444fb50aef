import EchidnaOS.Partition.Table

namespace EchidnaOS.Partition

open EchidnaOS.Lib EchidnaOS.Lib.ByteStore EchidnaOS.Devfs

variable {answer : Nat → Int} {h handle : DevfsHandle} {ret : Found} {partition : Int} {stack : Store}

-- There is a GPT signature behind the first sector.
def HasGpt (answer : Nat → Int) (h : DevfsHandle) : Prop :=
  (gptTableHeader (readHeader answer h).1).signature = efiPart

-- The two bytes that are looked at before an MBR is read; where the medium has none, what is on
-- the stack.
def mbrHint (answer : Nat → Int) (h : DevfsHandle) (stack : Store) : Nat :=
  leValue (read (readAt answer (readHeader answer h).2 444 stack 2).1 0 2)

def HasMbr (answer : Nat → Int) (h : DevfsHandle) (stack : Store) : Prop :=
  mbrHint answer h stack = 0 ∨ mbrHint answer h stack = 0x5a5a

instance (answer : Nat → Int) (h : DevfsHandle) : Decidable (HasGpt answer h) :=
  inferInstanceAs (Decidable (_ = _))

instance (answer : Nat → Int) (h : DevfsHandle) (stack : Store) : Decidable (HasMbr answer h stack) :=
  inferInstanceAs (Decidable (_ ∨ _))

-- The partition number that is behind the last one.
def PastEnd (answer : Nat → Int) (h : DevfsHandle) (partition : Int) (stack : Store) : Prop :=
  if HasGpt answer h then
    (gptTableHeader (readHeader answer h).1).revision ≠ 0x00010000 ∨
      (gptTableHeader (readHeader answer h).1).numberOfPartitionEntries ≤ (partition % 2 ^ 32).toNat
  else HasMbr answer h stack ∧ 3 < partition

theorem gptGetPart_invalid (hgpt : ¬ HasGpt answer h) : gptGetPart answer h ret partition =
    (INVALID_TABLE, ret, (readHeader answer h).2) := if_pos hgpt

theorem gptGetPart_end (hgpt : HasGpt answer h) (hend : PastEnd answer h partition stack) :
    (gptGetPart answer h ret partition).1 = END_OF_TABLE := by
  have hsignature : ¬ (gptTableHeader (readHeader answer h).1).signature ≠ efiPart := not_not.mpr hgpt
  unfold PastEnd at hend
  rw [if_pos hgpt] at hend
  unfold gptGetPart
  dsimp only
  rw [if_neg hsignature]
  by_cases hrevision : (gptTableHeader (readHeader answer h).1).revision ≠ 0x00010000
  · rw [if_pos hrevision]
  · rw [if_neg hrevision, if_pos (hend.resolve_left hrevision)]

-- An entry is empty or it is a partition.
theorem gptGetPart_entry (hgpt : HasGpt answer h) (hend : ¬ PastEnd answer h partition stack) :
    (gptGetPart answer h ret partition).1 = NO_PARTITION ∨ (gptGetPart answer h ret partition).1 = 0 := by
  have hsignature : ¬ (gptTableHeader (readHeader answer h).1).signature ≠ efiPart := not_not.mpr hgpt
  unfold PastEnd at hend
  rw [if_pos hgpt] at hend
  obtain ⟨hrevision, hnumber⟩ := not_or.mp hend
  unfold gptGetPart
  dsimp only
  rw [if_neg hsignature, if_neg hrevision, if_neg hnumber]
  split
  · exact Or.inl rfl
  · exact Or.inr rfl

theorem mbrGetPart_invalid (hmbr : ¬ HasMbr answer h stack) :
    (mbrGetPart answer (readHeader answer h).2 ret partition stack).1 = INVALID_TABLE := by
  have hhint : mbrHint answer h stack ≠ 0 ∧ mbrHint answer h stack ≠ 0x5a5a := not_or.mp hmbr
  unfold mbrHint at hhint
  unfold mbrGetPart
  dsimp only
  rw [if_pos hhint]

theorem mbrGetPart_end (hmbr : HasMbr answer h stack) (hend : 3 < partition) :
    (mbrGetPart answer (readHeader answer h).2 ret partition stack).1 = END_OF_TABLE := by
  have hhint : ¬ (mbrHint answer h stack ≠ 0 ∧ mbrHint answer h stack ≠ 0x5a5a) := fun hinvalid =>
    hmbr.elim hinvalid.1 hinvalid.2
  unfold mbrHint at hhint
  unfold mbrGetPart
  dsimp only
  rw [if_neg hhint, if_pos hend]

theorem mbrGetPart_entry (hmbr : HasMbr answer h stack) (hend : ¬ 3 < partition) :
    (mbrGetPart answer (readHeader answer h).2 ret partition stack).1 = NO_PARTITION ∨
      (mbrGetPart answer (readHeader answer h).2 ret partition stack).1 = 0 := by
  have hhint : ¬ (mbrHint answer h stack ≠ 0 ∧ mbrHint answer h stack ≠ 0x5a5a) := fun hinvalid =>
    hmbr.elim hinvalid.1 hinvalid.2
  unfold mbrHint at hhint
  unfold mbrGetPart
  dsimp only
  rw [if_neg hhint, if_neg hend]
  split
  · exact Or.inl rfl
  · exact Or.inr rfl

-- get_part says so only of such a number; of a table that is neither a GPT nor an MBR it says
-- that there is no partition.
theorem getPart_end_iff : (getPart answer h ret partition stack).1 = END_OF_TABLE ↔
    PastEnd answer h partition stack := by
  have hcodes : ∀ {code : Int}, code = NO_PARTITION ∨ code = 0 →
      code ≠ END_OF_TABLE ∧ code ≠ INVALID_TABLE := by
    intro code hcode
    rcases hcode with rfl | rfl
    · decide
    · decide
  have hend : END_OF_TABLE ≠ INVALID_TABLE := by decide
  unfold getPart
  dsimp only
  by_cases hgpt : HasGpt answer h
  · by_cases hpast : PastEnd answer h partition stack
    · have hcode : (gptGetPart answer h ret partition).1 = END_OF_TABLE := gptGetPart_end hgpt hpast
      rw [hcode, if_pos hend]
      exact iff_of_true hcode hpast
    · obtain ⟨hnotEnd, hnotInvalid⟩ := hcodes (@gptGetPart_entry answer h ret partition stack hgpt hpast)
      rw [if_pos hnotInvalid]
      exact iff_of_false hnotEnd hpast
  · have hpast : PastEnd answer h partition stack ↔ HasMbr answer h stack ∧ 3 < partition := by
      unfold PastEnd
      rw [if_neg hgpt]
    rw [gptGetPart_invalid hgpt, if_neg (not_not.mpr rfl), hpast]
    dsimp only
    by_cases hmbr : HasMbr answer h stack
    · by_cases hnumber : 3 < partition
      · have hcode : (mbrGetPart answer (readHeader answer h).2 ret partition stack).1 = END_OF_TABLE :=
          mbrGetPart_end hmbr hnumber
        rw [hcode, if_pos hend]
        exact iff_of_true hcode ⟨hmbr, hnumber⟩
      · obtain ⟨hnotEnd, hnotInvalid⟩ :=
          hcodes (@mbrGetPart_entry answer h ret partition stack hmbr hnumber)
        rw [if_pos hnotInvalid]
        exact iff_of_false hnotEnd fun hboth => hnumber hboth.2
    · rw [if_neg (not_not.mpr (mbrGetPart_invalid hmbr))]
      exact iff_of_false (show (-1 : Int) ≠ END_OF_TABLE by decide) fun hboth => hmbr hboth.1

variable {medium : CString} {frames : Nat → Store} {s : Scan} {fuel call : Nat}

-- The turn of the scan that is its last one.
def Ends (answer : Nat → Int) (handle : DevfsHandle) (frames : Nat → Store) (call : Nat) : Prop :=
  PastEnd answer handle (toInt (call % 2 ^ 32 : Nat)) (frames call)

-- A device that is added goes behind the others, so that the name still leads to the medium.
theorem open_append (hopen : s.openMedium medium = some handle) (handles : List DevfsHandle)
    (devices : List Registered) :
    Scan.openMedium { handles := handles, devices := s.devices ++ devices } medium = some handle := by
  unfold Scan.openMedium at hopen ⊢
  obtain ⟨index, hindex, hhandle⟩ := Option.map_eq_some_iff.mp hopen
  have hlt := (List.findIdx?_eq_some_iff_getElem.mp hindex).1
  dsimp only
  rw [List.findIdx?_append, hindex, Option.some_or, Option.map_some, List.getElem?_append_left hlt]
  exact congrArg some hhandle

-- One turn of the loop.
theorem scanFrom_end (hopen : s.openMedium medium = some handle) (hend : Ends answer handle frames call) :
    ∃ next, scanFrom answer medium frames (fuel + 1) call s = some (0, next) := by
  have hcode : (getPart answer handle {} (toInt (call % 2 ^ 32 : Nat)) (frames call)).1 = END_OF_TABLE :=
    getPart_end_iff.mpr hend
  rw [scanFrom, hopen]
  dsimp only
  rw [hcode, if_neg (by decide), if_pos rfl]
  exact ⟨_, rfl⟩

theorem scanFrom_next (hopen : s.openMedium medium = some handle)
    (hend : ¬ Ends answer handle frames call) : ∃ next, next.openMedium medium = some handle ∧
      ∀ fuel, scanFrom answer medium frames (fuel + 1) call s =
        scanFrom answer medium frames fuel (call + 1) next := by
  have hcode : (getPart answer handle {} (toInt (call % 2 ^ 32 : Nat)) (frames call)).1 ≠ END_OF_TABLE :=
    fun hcode => hend (getPart_end_iff.mp hcode)
  let table := SlotTable.create (·.free) s.handles handle
  let found := (getPart answer handle {} (toInt (call % 2 ^ 32 : Nat)) (frames call)).2
  by_cases hnone : (getPart answer handle {} (toInt (call % 2 ^ 32 : Nat)) (frames call)).1 = NO_PARTITION
  · refine ⟨{ s with handles := table.2.set table.1 { found.2 with free := true } }, hopen,
      fun fuel => ?_⟩
    rw [scanFrom, hopen]
    dsimp only
    rw [if_pos hnone]
  · refine ⟨_, open_append hopen (table.2.set table.1 found.2)
      [{ name := pname medium (call % 2 ^ 32)
         size := found.1.sectCount * 512 % 2 ^ 64
         part := some (table.1, found.1) }], fun fuel => ?_⟩
    rw [scanFrom, hopen]
    dsimp only
    rw [if_neg hnone, if_neg hcode]

-- The scan returns exactly if one of its turns ends it.
theorem scanFrom_returns_iff (hopen : s.openMedium medium = some handle) :
    (∃ fuel result, scanFrom answer medium frames fuel call s = some result) ↔
      ∃ last, call ≤ last ∧ Ends answer handle frames last := by
  constructor
  · intro hreturns
    obtain ⟨fuel, result, hrun⟩ := hreturns
    induction fuel generalizing call s with
    | zero => cases hrun
    | succ fuel ih =>
        by_cases hend : Ends answer handle frames call
        · exact ⟨call, Nat.le_refl _, hend⟩
        · obtain ⟨next, hnext, hturn⟩ := scanFrom_next hopen hend
          rw [hturn] at hrun
          obtain ⟨last, hle, hlast⟩ := ih hnext hrun
          exact ⟨last, by omega, hlast⟩
  · intro hends
    obtain ⟨last, hle, hlast⟩ := hends
    induction hcount : last - call generalizing call s with
    | zero =>
        have heq : call = last := by omega
        obtain ⟨next, hrun⟩ := @scanFrom_end answer handle medium frames s 0 call hopen (heq ▸ hlast)
        exact ⟨1, _, hrun⟩
    | succ count ih =>
        by_cases hend : Ends answer handle frames call
        · obtain ⟨next, hrun⟩ := @scanFrom_end answer handle medium frames s 0 call hopen hend
          exact ⟨1, _, hrun⟩
        · obtain ⟨next, hnext, hturn⟩ := scanFrom_next hopen hend
          obtain ⟨fuel, result, hrun⟩ := @ih next (call + 1) hnext (by omega) (by omega)
          exact ⟨fuel + 1, result, (hturn fuel).trans hrun⟩

-- What is to hold of the scan of a medium: it returns, and it adds no device when there is no table.
def ScansWell (answer : Nat → Int) (medium : CString) (frames : Nat → Store) (s : Scan) : Prop :=
  ∃ fuel code next, scanFrom answer medium frames fuel 0 s = some (code, next) ∧
    ∀ handle, s.openMedium medium = some handle → ¬ HasGpt answer handle →
      (∀ call, ¬ HasMbr answer handle (frames call)) → next.devices = s.devices

theorem toInt_emod (number : Int) : toInt number % 2 ^ 32 = number % 2 ^ 32 := by
  unfold toInt
  rw [Int.bmod_def]
  split <;> omega

-- Some turn ends a scan that finds a GPT.
theorem hasGpt_ends (hgpt : HasGpt answer handle) : ∃ last, Ends answer handle frames last := by
  have hnumber := leValue_lt (read (readHeader answer handle).1 80 4)
  rw [read_length] at hnumber
  refine ⟨(gptTableHeader (readHeader answer handle).1).numberOfPartitionEntries, ?_⟩
  unfold Ends PastEnd
  rw [if_pos hgpt]
  right
  have hlt : (gptTableHeader (readHeader answer handle).1).numberOfPartitionEntries < 2 ^ 32 := hnumber
  rw [Nat.mod_eq_of_lt hlt, toInt_emod]
  omega

-- The last turn has found a table.
theorem Ends.table {call : Nat} (hends : Ends answer handle frames call) : HasGpt answer handle ∨
    3 < toInt (call % 2 ^ 32 : Nat) ∧ HasMbr answer handle (frames call) := by
  unfold Ends PastEnd at hends
  by_cases hgpt : HasGpt answer handle
  · exact Or.inl hgpt
  · rw [if_neg hgpt] at hends
    exact Or.inr ⟨hends.2, hends.1⟩

-- The scan of a medium goes on for ever unless it has a GPT signature, or is taken for an MBR in a
-- turn with the number of a partition behind the fourth.
theorem add_partitioned_medium_returns_iff (answer : Nat → Int) (medium : CString)
    (frames : Nat → Store) (s : Scan) : ScansWell answer medium frames s ↔
      ∀ handle, s.openMedium medium = some handle → HasGpt answer handle ∨
        ∃ call, 3 < toInt (call % 2 ^ 32 : Nat) ∧ HasMbr answer handle (frames call) := by
  unfold ScansWell
  cases hopen : s.openMedium medium with
  | none =>
      refine iff_of_true ⟨1, -1, s, ?_, fun handle hhandle => by cases hhandle⟩ fun handle hhandle => by
        cases hhandle
      rw [scanFrom, hopen]
  | some handle =>
      have hreturns := @scanFrom_returns_iff answer handle medium frames s 0 hopen
      constructor
      · intro hwell other hother
        cases hother
        obtain ⟨fuel, code, next, hrun, -⟩ := hwell
        obtain ⟨last, -, hlast⟩ := hreturns.mp ⟨fuel, _, hrun⟩
        exact hlast.table.imp_right fun hmbr => ⟨last, hmbr⟩
      · intro htable
        have hends : ∃ last, Ends answer handle frames last := by
          by_cases hgpt : HasGpt answer handle
          · exact hasGpt_ends hgpt
          · obtain ⟨call, hnumber, hmbr⟩ := (htable handle rfl).resolve_left hgpt
            refine ⟨call, ?_⟩
            unfold Ends PastEnd
            rw [if_neg hgpt]
            exact ⟨hmbr, hnumber⟩
        obtain ⟨last, hlast⟩ := hends
        obtain ⟨fuel, result, hrun⟩ := hreturns.mpr ⟨last, Nat.zero_le _, hlast⟩
        refine ⟨fuel, result.1, result.2, hrun, ?_⟩
        intro other hother hgpt hmbr
        cases hother
        rcases htable handle rfl with hfound | ⟨call, -, hfound⟩
        · exact absurd hfound hgpt
        · exact absurd hfound (hmbr call)

-- A medium of zeros but for the byte at 444. Without it the zeros are taken for an MBR.
def foreignTable (loc : Nat) : Int := if loc = 444 then 1 else 0

def oneMedium : Scan where
  handles := []
  devices := [{ name := [98, 100, 48], size := 1024 }]

def oneHandle : DevfsHandle where
  path := [98, 100, 48]
  finish := 1024

-- Of this medium get_part says again and again that there is no partition.
theorem foreign_table_scans_for_ever :
    ¬ ScansWell foreignTable [98, 100, 48] (fun _ _ => 0) oneMedium := by
  have hopen : oneMedium.openMedium [98, 100, 48] = some oneHandle := by decide
  have hgpt : ¬ HasGpt foreignTable oneHandle := by decide
  have hmbr : ¬ HasMbr foreignTable oneHandle (fun _ => 0) := by decide
  intro hwell
  obtain ⟨fuel, code, next, hrun, -⟩ := hwell
  obtain ⟨last, -, hlast⟩ := (scanFrom_returns_iff hopen).mp ⟨fuel, _, hrun⟩
  rcases hlast.table with hfound | ⟨-, hfound⟩
  · exact hgpt hfound
  · exact hmbr hfound

end EchidnaOS.Partition
