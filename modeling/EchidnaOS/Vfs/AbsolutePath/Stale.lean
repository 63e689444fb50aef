import EchidnaOS.Vfs.AbsolutePath.Room

namespace EchidnaOS.Vfs

open EchidnaOS.Lib.ByteStore

-- What a path means: every `..` leads up.
def resolve (text : CString) : List Component → CString
  | [] => closed text
  | .name chars :: rest => resolve (separated text ++ chars) rest
  | .parent :: rest => resolve (up text) rest

-- Two places from which the same parts lead to the same place.
inductive Rejoin : CString → CString → List Component → Prop
  | same {text : CString} {rest : List Component} : Rejoin text text rest
  | close {text other : CString} (hclosed : closed text = closed other) : Rejoin text other []
  | name {text other chars : CString} {rest : List Component}
      (hrest : Rejoin (separated text ++ chars) (separated other ++ chars) rest) :
      Rejoin text other (.name chars :: rest)
  | parent {text other : CString} {rest : List Component} (hrest : Rejoin (up text) (up other) rest) :
      Rejoin text other (.parent :: rest)

-- At a `..` with path_ptr at a byte that was not known, the parts that are left make up for a
-- scan that ends at once, whichever way the scans after it go.
def Recovers : CString → Nat → List Component → Prop
  | _, _, [] => True
  | text, known, .name chars :: rest =>
      Recovers (separated text ++ chars) (max known (separated text ++ chars).length) rest
  | text, known, .parent :: rest =>
      Recovers (up text) (max known (text.length + 1)) rest ∧
        (known ≤ text.length → Rejoin text (up text) rest ∧ Recovers text (text.length + 1) rest)

-- No byte that is in the buffer before the call shows in the result.
def BufferIndependent (pwd path : Text) : Prop := ∀ first second,
  (vfsGetAbsolutePath pwd.chars path.chars first).map string =
    (vfsGetAbsolutePath pwd.chars path.chars second).map string

variable {first second stale : Store} {text other : CString} {known : Nat} {rest : List Component}
  {pwd path : Text}

theorem rejoin_iff : Rejoin text other rest ↔ resolve text rest = resolve other rest := by
  constructor
  · intro hrejoin
    induction hrejoin with
    | same => rfl
    | close hclosed => exact hclosed
    | name hrest ih => exact ih
    | parent hrest ih => exact ih
  · intro hresolve
    induction rest generalizing text other with
    | nil => exact .close hresolve
    | cons component rest ih =>
        cases component with
        | name chars => exact .name (ih hresolve)
        | parent => exact .parent (ih hresolve)

instance (text other : CString) (rest : List Component) : Decidable (Rejoin text other rest) :=
  decidable_of_iff _ rejoin_iff.symm

instance decidableRecovers : ∀ (text : CString) (known : Nat) (rest : List Component),
    Decidable (Recovers text known rest)
  | _, _, [] => inferInstanceAs (Decidable True)
  | text, known, .name chars :: rest =>
      decidableRecovers (separated text ++ chars) (max known (separated text ++ chars).length) rest
  | text, known, .parent :: rest =>
      have := decidableRecovers (up text) (max known (text.length + 1)) rest
      have := decidableRecovers text (text.length + 1) rest
      inferInstanceAs (Decidable (Recovers (up text) (max known (text.length + 1)) rest ∧
        (known ≤ text.length → Rejoin text (up text) rest ∧ Recovers text (text.length + 1) rest)))

-- Only bytes from `known` on count.
theorem expand_congr (hagree : ∀ offset, known ≤ offset → first offset = second offset) :
    expand first text known rest = expand second text known rest := by
  induction rest generalizing text known with
  | nil => rfl
  | cons component rest ih =>
      cases component with
      | name chars =>
          rw [expand, expand]
          exact ih fun offset hoffset => hagree offset (by omega)
      | parent =>
          have hscanned : scanned first text known = scanned second text known := by
            unfold scanned
            by_cases hknown : known ≤ text.length
            · rw [hagree _ hknown]
            · rw [if_neg (fun h => hknown h.1), if_neg (fun h => hknown h.1)]
          rw [expand, expand, hscanned]
          exact ih fun offset hoffset => hagree offset (by omega)

theorem expand_clean (text : CString) (known : Nat) (rest : List Component) :
    expand (fun _ => 0) text known rest = resolve text rest := by
  induction rest generalizing text known with
  | nil => rfl
  | cons component rest ih =>
      cases component with
      | name chars =>
          rw [expand, resolve]
          exact ih _ _
      | parent =>
          have hup : scanned (fun _ => 0) text known = up text := by
            unfold scanned
            rw [if_neg (fun h => absurd h.2 (show (0 : UInt8) ≠ 47 by decide))]
          rw [expand, resolve, hup]
          exact ih _ _

-- Both ways a scan can go are taken in some buffer.
theorem expand_iff : (∀ stale, expand stale text known rest = resolve text rest) ↔
    Recovers text known rest := by
  induction rest generalizing text known with
  | nil => exact iff_of_true (fun _ => rfl) trivial
  | cons component rest ih =>
      cases component with
      | name chars =>
          rw [Recovers, ← ih]
          rfl
      | parent =>
          rw [Recovers, ← ih, ← ih, rejoin_iff]
          constructor
          · intro hall
            have hchoose : ∀ (stale : Store) (char : UInt8), expand
                (Function.update stale text.length char)
                (scanned (Function.update stale text.length char) text known)
                (max known (text.length + 1)) rest = resolve (up text) rest :=
              fun stale char => hall _
            have hlater : ∀ (stale : Store) (char : UInt8) (other : CString), expand
                (Function.update stale text.length char) other (max known (text.length + 1)) rest =
                  expand stale other (max known (text.length + 1)) rest := by
              intro stale char other
              apply expand_congr
              intro offset hoffset
              exact Function.update_of_ne (by omega) _ _
            refine ⟨fun stale => ?_, fun hknown => ?_⟩
            · have hzero := hchoose stale 0
              have hup : scanned (Function.update stale text.length 0) text known = up text := by
                unfold scanned
                rw [Function.update_self, if_neg (fun h => absurd h.2 (by decide))]
              rwa [hup, hlater] at hzero
            · have hskip : ∀ stale, expand stale text (max known (text.length + 1)) rest =
                  resolve (up text) rest := by
                intro stale
                have hslash := hchoose stale 47
                have hstay : scanned (Function.update stale text.length 47) text known = text := by
                  unfold scanned
                  rw [Function.update_self, if_pos ⟨hknown, rfl⟩]
                rwa [hstay, hlater] at hslash
              have hsame : resolve text rest = resolve (up text) rest := by
                rw [← hskip fun _ => 0, expand_clean]
              refine ⟨hsame, fun stale => ?_⟩
              have hstale := hskip stale
              rwa [Nat.max_eq_right (by omega), ← hsame] at hstale
          · rintro ⟨hup, hstay⟩ stale
            rw [expand, resolve]
            unfold scanned
            by_cases hslash : known ≤ text.length ∧ stale text.length = 47
            · obtain ⟨hsame, hskip⟩ := hstay hslash.1
              rw [if_pos hslash, Nat.max_eq_right (by omega), hskip stale, hsame]
            · rw [if_neg hslash]
              exact hup stale

theorem ExpansionFits.string_eq (hfits : ExpansionFits pwd path) (buffer : Store) :
    (vfsGetAbsolutePath pwd.chars path.chars buffer).map string =
      some (absolutePath buffer pwd.chars path.chars) := by
  obtain ⟨final, hfinal⟩ := Option.isSome_iff_exists.mp (hfits buffer)
  rw [hfinal, Option.map_some, vfsGetAbsolutePath_string pwd path hfinal]

-- Stale bytes show unless the rest of the path makes up for them.
theorem buffer_independent_iff (pwd path : Text) (hfits : ExpansionFits pwd path) :
    BufferIndependent pwd path ↔
      Recovers (origin pwd.chars path.chars).1 (origin pwd.chars path.chars).2
        (components path.chars) := by
  rw [← expand_iff]
  unfold BufferIndependent
  simp only [hfits.string_eq, Option.some.injEq]
  unfold absolutePath
  by_cases hempty : path.chars = []
  · rw [hempty]
    exact iff_of_true (fun _ _ => rfl) fun _ => rfl
  · simp only [if_neg hempty]
    constructor
    · intro hsame stale
      rw [hsame stale fun _ => 0, expand_clean]
    · intro hclean first second
      rw [hclean first, hclean second]

def rootText : Text where
  chars := [47]
  ends := by simp

-- The path /a/../.. ends at the root in every buffer.
theorem buffer_independent_root : BufferIndependent rootText
    { chars := [47, 97, 47, 46, 46, 47, 46, 46], ends := by simp } := by
  apply (buffer_independent_iff _ _ (fits_of_short rfl (by decide))).mpr
  decide

-- The path /a/.. is /a in a buffer with a '/' where the scan begins, and / in one without.
theorem stale_slash_shows : ∃ path : Text, ExpansionFits rootText path ∧
    ¬ BufferIndependent rootText path := by
  refine ⟨{ chars := [47, 97, 47, 46, 46], ends := by simp }, fits_of_short rfl (by decide), ?_⟩
  intro hsame
  have hresult := hsame (fun offset => if offset = 2 then 47 else 0) fun _ => 0
  rw [(fits_of_short rfl (by decide)).string_eq, (fits_of_short rfl (by decide)).string_eq] at hresult
  revert hresult
  decide

end EchidnaOS.Vfs
