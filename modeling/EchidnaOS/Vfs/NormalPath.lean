import EchidnaOS.Lib.ByteStore

namespace EchidnaOS.Vfs

open EchidnaOS.Lib.ByteStore

-- A component of a path in normal form.
structure Proper (name : CString) : Prop where
  ne : name ≠ []
  slash : 47 ∉ name
  ends : 0 ∉ name
  dot : name ≠ [46]
  dots : name ≠ [46, 46]

-- The root, or components each behind a '/'.
structure NormalPath where
  names : List CString
  proper : ∀ name ∈ names, Proper name

def joined (names : List CString) : CString := names.flatMap (47 :: ·)

def pathText (names : List CString) : CString := if names = [] then [47] else joined names

def NormalPath.text (path : NormalPath) : CString := pathText path.names

def NormalPath.root : NormalPath where
  names := []
  proper := by simp

-- The components before the end of a path or before a '/' in it.
def Bounded (rest : CString) : Prop := rest = [] ∨ rest.head? = some 47

variable {name other text rest tail : CString} {names others : List CString}

@[simp]
theorem joined_nil : joined [] = [] := rfl

@[simp]
theorem joined_cons (name : CString) (names : List CString) :
    joined (name :: names) = 47 :: (name ++ joined names) := rfl

@[simp]
theorem joined_append (names others : List CString) :
    joined (names ++ others) = joined names ++ joined others := List.flatMap_append

theorem joined_bounded (names : List CString) : Bounded (joined names) := by
  cases names with
  | nil => exact Or.inl rfl
  | cons name names => exact Or.inr rfl

-- The first component ends where the '/' is.
theorem component_append_inj (hname : 47 ∉ name) (hother : 47 ∉ other) (hrest : Bounded rest)
    (htail : Bounded tail) (heq : name ++ rest = other ++ tail) : name = other ∧ rest = tail := by
  have hfront : ∀ {front rest : CString}, 47 ∉ front → Bounded rest →
      (front ++ rest).takeWhile (· ≠ 47) = front := by
    intro front rest hfront hrest
    rw [List.takeWhile_append_of_pos]
    · rcases hrest with rfl | hslash
      · simp
      · cases rest with
        | nil => simp
        | cons char rest =>
            cases hslash
            simp
    · intro char hchar
      have hne : char ≠ 47 := fun h => hfront (h ▸ hchar)
      simpa using hne
  have hsame : name = other := by
    rw [← hfront hname hrest, heq, hfront hother htail]
  exact ⟨hsame, List.append_cancel_left (hsame ▸ heq)⟩

-- A textual prefix that ends with a component is a prefix of the components.
theorem joined_eq_iff (hnames : ∀ name ∈ names, 47 ∉ name) (hothers : ∀ name ∈ others, 47 ∉ name) :
    (∃ rest, Bounded rest ∧ joined others = joined names ++ rest) ↔ names <+: others := by
  constructor
  · rintro ⟨rest, hrest, heq⟩
    induction names generalizing others with
    | nil => exact List.nil_prefix
    | cons name names ih =>
        cases others with
        | nil => cases heq
        | cons other others =>
            rw [joined_cons, joined_cons, List.cons_append, List.append_assoc] at heq
            obtain ⟨hname, hlater⟩ := List.forall_mem_cons.mp hnames
            obtain ⟨hother, hrests⟩ := List.forall_mem_cons.mp hothers
            have hbounded : Bounded (joined names ++ rest) := by
              cases names with
              | nil => exact hrest
              | cons => exact Or.inr rfl
            obtain ⟨rfl, hjoined⟩ := component_append_inj hother hname (joined_bounded others)
              hbounded (List.tail_eq_of_cons_eq heq)
            exact List.cons_prefix_cons.mpr ⟨rfl, ih hlater hrests hjoined⟩
  · rintro ⟨later, rfl⟩
    exact ⟨joined later, joined_bounded later, joined_append names later⟩

theorem pathText_of_ne (hne : names ≠ []) : pathText names = joined names := if_neg hne

theorem NormalPath.text_head (path : NormalPath) : path.text.head? = some 47 := by
  unfold NormalPath.text pathText
  cases path.names with
  | nil => rfl
  | cons name names => rfl

theorem NormalPath.text_length_pos (path : NormalPath) : 0 < path.text.length := by
  cases htext : path.text with
  | nil =>
      have hhead := path.text_head
      rw [htext] at hhead
      cases hhead
  | cons => exact Nat.succ_pos _

theorem NormalPath.noSlash (path : NormalPath) : ∀ name ∈ path.names, 47 ∉ name :=
  fun name hname => (path.proper name hname).slash

end EchidnaOS.Vfs
