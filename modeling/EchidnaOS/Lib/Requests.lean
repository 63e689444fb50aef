import Mathlib.Data.Option.Basic

namespace EchidnaOS.Lib.Requests

-- Work that makes one request after the other, and ends at the first that is refused.
structure Asking (ρ α : Type*) where
  requests : List ρ
  result : Option α

namespace Asking

variable {ρ α β : Type*}

def done (value : α) : Asking ρ α := ⟨[], some value⟩

def ask (granted : ρ → Bool) (request : ρ) : Asking ρ Unit :=
  ⟨[request], if granted request then some () else none⟩

def andThen (first : Asking ρ α) (next : α → Asking ρ β) : Asking ρ β :=
  match first.result with
  | none => ⟨first.requests, none⟩
  | some value => ⟨first.requests ++ (next value).requests, (next value).result⟩

variable {granted : ρ → Bool} {good : ρ → Prop} {first : Asking ρ α} {next : α → Asking ρ β}
  {inside other : Prop} {value : α} {after : β}

-- All its requests are good ones, and it comes to its end.
def Served (good : ρ → Prop) (work : Asking ρ α) : Prop :=
  (∀ request ∈ work.requests, good request) ∧ work.result.isSome

-- When work is served, and what it gives where it comes to its end.
structure Spec (good : ρ → Prop) (work : Asking ρ α) (inside : Prop) (value : α) : Prop where
  served : work.Served good ↔ inside
  result : ∀ v, work.result = some v → v = value

theorem spec_done (good : ρ → Prop) (value : α) : Spec good (done value) True value := by
  constructor
  · simp [Served, done]
  · simp [done]

theorem spec_ask (hgranted : ∀ request, good request → granted request = true) (request : ρ) :
    Spec good (ask granted request) (good request) () := by
  constructor
  · constructor
    · intro hserved
      exact hserved.1 request (by simp [ask])
    · intro hgood
      simp [Served, ask, hgood, hgranted request hgood]
  · simp

theorem Spec.andThen (hfirst : Spec good first inside value)
    (hnext : Spec good (next value) other after) :
    Spec good (first.andThen next) (inside ∧ other) after := by
  cases hresult : first.result with
  | none =>
      have hnot : ¬inside := by
        simp [← hfirst.served, Served, hresult]
      constructor
      · simp [Served, Asking.andThen, hresult, hnot]
      · simp [Asking.andThen, hresult]
  | some v =>
      obtain rfl := hfirst.result v hresult
      have hinside : (∀ request ∈ first.requests, good request) ↔ inside := by
        simp [← hfirst.served, Served, hresult]
      constructor
      · rw [← hinside, ← hnext.served]
        simp only [Served, Asking.andThen, hresult, List.mem_append, or_imp, forall_and, and_assoc]
      · simpa [Asking.andThen, hresult] using hnext.result

theorem Spec.congr {work : Asking ρ α} (hspec : Spec good work inside value) (hiff : inside ↔ other) :
    Spec good work other value :=
  ⟨hspec.served.trans hiff, hspec.result⟩

-- Work on the result that makes no request.
theorem Spec.andThen_done (hfirst : Spec good first inside value) (f : α → β) :
    Spec good (first.andThen fun v => done (f v)) inside (f value) :=
  (hfirst.andThen (spec_done good (f value))).congr (iff_of_eq (and_true inside))

theorem spec_ask_done (hgranted : ∀ request, good request → granted request = true) (request : ρ)
    (value : α) : Spec good ((ask granted request).andThen fun _ => done value) (good request) value :=
  (spec_ask hgranted request).andThen_done fun _ => value

theorem Spec.result_eq {work : Asking ρ α} (hspec : Spec good work inside value) (hinside : inside) :
    work.result = some value := by
  obtain ⟨v, hv⟩ := Option.isSome_iff_exists.mp (hspec.served.mpr hinside).2
  rw [hv, hspec.result v hv]

end Asking

end EchidnaOS.Lib.Requests
