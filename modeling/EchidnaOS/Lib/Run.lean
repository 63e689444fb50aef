import Mathlib.Data.Option.Basic

namespace EchidnaOS.Lib.Run

variable {σ α : Type*}

-- Take a list of actions one after the other. A partial step that gives no
-- successor stops the run.
def run (step : σ → α → Option σ) : σ → List α → Option σ
  | state, [] => some state
  | state, action :: rest => (step state action).bind fun next => run step next rest

-- Every action of the run is taken in a state that meets the guard.
def Guarded (step : σ → α → Option σ) (guard : σ → α → Prop) : σ → List α → Prop
  | _, [] => True
  | state, action :: rest =>
      guard state action ∧ ∀ next, step state action = some next → Guarded step guard next rest

-- Every state of the run has the property.
def Throughout (step : σ → α → Option σ) (property : σ → Prop) : σ → List α → Prop
  | state, [] => property state
  | state, action :: rest =>
      property state ∧ ∀ next, step state action = some next → Throughout step property next rest

-- A run of which every action meets the guard.
structure GuardedRun (step : σ → α → Option σ) (guard : σ → α → Prop) (state : σ) (actions : List α)
    (final : σ) : Prop where
  guarded : Guarded step guard state actions
  run : run step state actions = some final

variable {step : σ → α → Option σ} {guard : σ → α → Prop}

instance decidableForallSome (result : Option σ) (property : σ → Prop) [DecidablePred property] :
    Decidable (∀ next, result = some next → property next) :=
  match result with
  | none => isTrue fun _ hnext => nomatch hnext
  | some next => decidable_of_iff (property next)
      ⟨fun h _ hnext => Option.some.inj hnext ▸ h, fun h => h next rfl⟩

instance decidableGuarded [∀ state action, Decidable (guard state action)] :
    ∀ (state : σ) (actions : List α), Decidable (Guarded step guard state actions)
  | _, [] => isTrue trivial
  | state, action :: rest =>
      have : DecidablePred fun next => Guarded step guard next rest :=
        fun next => decidableGuarded next rest
      inferInstanceAs (Decidable (guard state action ∧
        ∀ next, step state action = some next → Guarded step guard next rest))

instance decidableThroughout {property : σ → Prop} [DecidablePred property] :
    ∀ (state : σ) (actions : List α), Decidable (Throughout step property state actions)
  | state, [] => inferInstanceAs (Decidable (property state))
  | state, action :: rest =>
      have : DecidablePred fun next => Throughout step property next rest :=
        fun next => decidableThroughout next rest
      inferInstanceAs (Decidable (property state ∧
        ∀ next, step state action = some next → Throughout step property next rest))

theorem run_cons {state final : σ} {action : α} {rest : List α}
    (hrun : run step state (action :: rest) = some final) :
    ∃ next, step state action = some next ∧ run step next rest = some final :=
  Option.bind_eq_some_iff.mp hrun

theorem run_append (state : σ) (front back : List α) :
    run step state (front ++ back) = (run step state front).bind fun middle =>
      run step middle back := by
  induction front generalizing state with
  | nil => rfl
  | cons action rest ih =>
      simp only [List.cons_append, run, Option.bind_assoc, ih]

-- A step that is never refused gives a run of any actions.
theorem run_total (htotal : ∀ state action, ∃ next, step state action = some next) (state : σ)
    (actions : List α) : ∃ final, run step state actions = some final := by
  induction actions generalizing state with
  | nil => exact ⟨state, rfl⟩
  | cons action rest ih =>
      obtain ⟨next, hnext⟩ := htotal state action
      obtain ⟨final, hfinal⟩ := ih next
      refine ⟨final, ?_⟩
      rw [run, hnext, Option.bind_some, hfinal]

theorem Guarded.cons {state next : σ} {action : α} {rest : List α} (hguard : guard state action)
    (hstep : step state action = some next) (hrest : Guarded step guard next rest) :
    Guarded step guard state (action :: rest) := by
  refine ⟨hguard, fun other hother => ?_⟩
  rw [hstep] at hother
  cases hother
  exact hrest

theorem Guarded.append {state : σ} {front back : List α}
    (hguard : Guarded step guard state (front ++ back)) :
    Guarded step guard state front ∧
      ∀ middle, run step state front = some middle → Guarded step guard middle back := by
  induction front generalizing state with
  | nil =>
      refine ⟨trivial, ?_⟩
      rintro middle hrun
      cases hrun
      exact hguard
  | cons action rest ih =>
      obtain ⟨haction, hrest⟩ := hguard
      refine ⟨⟨haction, fun next hnext => (ih (hrest next hnext)).1⟩, ?_⟩
      intro middle hrun
      obtain ⟨next, hnext, htail⟩ := run_cons hrun
      exact (ih (hrest next hnext)).2 middle htail

-- The induction every safety result uses: an invariant of the first state
-- that every guarded step keeps holds at the end of a guarded run.
theorem run_invariant {inv : σ → Prop}
    (hstep : ∀ state action next, inv state → guard state action →
      step state action = some next → inv next)
    {state final : σ} {actions : List α} (hinit : inv state)
    (hguard : Guarded step guard state actions) (hrun : run step state actions = some final) :
    inv final := by
  induction actions generalizing state with
  | nil =>
      cases hrun
      exact hinit
  | cons action rest ih =>
      obtain ⟨next, hnext, htail⟩ := run_cons hrun
      exact ih (hstep state action next hinit hguard.1 hnext) (hguard.2 next hnext) htail

-- Without a guard.
theorem run_always {inv : σ → Prop}
    (hstep : ∀ state action next, inv state → step state action = some next → inv next)
    {state final : σ} {actions : List α} (hinit : inv state)
    (hrun : run step state actions = some final) : inv final := by
  induction actions generalizing state with
  | nil =>
      cases hrun
      exact hinit
  | cons action rest ih =>
      obtain ⟨next, hnext, htail⟩ := run_cons hrun
      exact ih (hstep state action next hinit hnext) htail

-- The same induction along the run: where the invariant holds, one guard gives another.
theorem Guarded.of_invariant {inv : σ → Prop} {other : σ → α → Prop}
    (hstep : ∀ state action next, inv state → guard state action →
      step state action = some next → inv next)
    (hother : ∀ state action, inv state → guard state action → other state action)
    {state : σ} {actions : List α} (hinit : inv state)
    (hguard : Guarded step guard state actions) : Guarded step other state actions := by
  induction actions generalizing state with
  | nil => trivial
  | cons action rest ih =>
      refine ⟨hother state action hinit hguard.1, fun next hnext => ?_⟩
      exact ih (hstep state action next hinit hguard.1 hnext) (hguard.2 next hnext)

theorem guarded_always (hguard : ∀ state action, guard state action) (state : σ) (actions : List α) :
    Guarded step guard state actions := by
  induction actions generalizing state with
  | nil => trivial
  | cons action rest ih => exact ⟨hguard state action, fun next _ => ih next⟩

theorem Guarded.and {other : σ → α → Prop} {state : σ} {actions : List α}
    (hguard : Guarded step guard state actions) (hother : Guarded step other state actions) :
    Guarded step (fun state action => guard state action ∧ other state action) state actions := by
  induction actions generalizing state with
  | nil => trivial
  | cons action rest ih =>
      refine ⟨⟨hguard.1, hother.1⟩, fun next hnext => ?_⟩
      exact ih (hguard.2 next hnext) (hother.2 next hnext)

-- An invariant of guarded steps holds in every state of a guarded run.
theorem Guarded.throughout {inv : σ → Prop}
    (hstep : ∀ state action next, inv state → guard state action →
      step state action = some next → inv next)
    {state : σ} {actions : List α} (hinit : inv state)
    (hguard : Guarded step guard state actions) : Throughout step inv state actions := by
  induction actions generalizing state with
  | nil => exact hinit
  | cons action rest ih =>
      refine ⟨hinit, fun next hnext => ?_⟩
      exact ih (hstep state action next hinit hguard.1 hnext) (hguard.2 next hnext)

theorem Throughout.mono {property other : σ → Prop} (hmono : ∀ state, property state → other state)
    {state : σ} {actions : List α} (hall : Throughout step property state actions) :
    Throughout step other state actions := by
  induction actions generalizing state with
  | nil => exact hmono state hall
  | cons action rest ih => exact ⟨hmono state hall.1, fun next hnext => ih (hall.2 next hnext)⟩

theorem Throughout.head {property : σ → Prop} {state : σ} {actions : List α}
    (hall : Throughout step property state actions) : property state := by
  cases actions with
  | nil => exact hall
  | cons action rest => exact hall.1

theorem Throughout.final {property : σ → Prop} {state final : σ} {actions : List α}
    (hall : Throughout step property state actions) (hrun : run step state actions = some final) :
    property final := by
  induction actions generalizing state with
  | nil =>
      cases hrun
      exact hall
  | cons action rest ih =>
      obtain ⟨next, hnext, htail⟩ := run_cons hrun
      exact ih (hall.2 next hnext) htail

-- An invariant that the steps between states with a property keep holds beside it.
theorem Throughout.and {property inv : σ → Prop}
    (hstep : ∀ state action next, inv state → property state → property next →
      step state action = some next → inv next)
    {state : σ} {actions : List α} (hinit : inv state)
    (hall : Throughout step property state actions) :
    Throughout step (fun state => property state ∧ inv state) state actions := by
  induction actions generalizing state with
  | nil => exact ⟨hall, hinit⟩
  | cons action rest ih =>
      refine ⟨⟨hall.1, hinit⟩, fun next hnext => ?_⟩
      have hrest := hall.2 next hnext
      exact ih (hstep state action next hinit hall.1 hrest.head hnext) hrest

-- A guard that says of each step whether it keeps the property says it of the whole run.
theorem throughout_iff_guarded {inv property : σ → Prop}
    (hkeep : ∀ state action next, inv state → property state →
      step state action = some next → inv next)
    (hstep : ∀ state action, inv state → property state →
      ((∀ next, step state action = some next → property next) ↔ guard state action))
    {state : σ} {actions : List α} (hinit : inv state) (hproperty : property state) :
    Throughout step property state actions ↔ Guarded step guard state actions := by
  induction actions generalizing state with
  | nil => exact iff_of_true hproperty trivial
  | cons action rest ih =>
      have hrest : ∀ next, step state action = some next → property next →
          (Throughout step property next rest ↔ Guarded step guard next rest) :=
        fun next hnext => ih (hkeep state action next hinit hproperty hnext)
      have hguard := hstep state action hinit hproperty
      constructor
      · rintro ⟨-, hall⟩
        have hnext := fun next h => (hall next h).head
        exact ⟨hguard.mp hnext, fun next h => (hrest next h (hnext next h)).mp (hall next h)⟩
      · rintro ⟨hmeets, hall⟩
        have hnext := hguard.mpr hmeets
        exact ⟨hproperty, fun next h => (hrest next h (hnext next h)).mpr (hall next h)⟩

end EchidnaOS.Lib.Run
