import Mathlib.Data.List.Basic

/-! Runs of a system given by a partial step function, with a condition that
every step of the run meets. -/

namespace Runs

variable {σ ι : Type*} {step : σ → ι → Option σ} {first : σ} {allowed : σ → ι → Prop}

/-- The states reached from `first` by steps that meet `allowed`. -/
inductive Reach (step : σ → ι → Option σ) (first : σ) (allowed : σ → ι → Prop) : σ → Prop
  | start : Reach step first allowed first
  | next {s s' : σ} {a : ι} : Reach step first allowed s → allowed s a → step s a = some s' →
      Reach step first allowed s'

/-- What holds first and is kept by every step that meets the condition holds
in every state reached. -/
theorem Reach.invariant {I : σ → Prop} (holds : I first)
    (keeps : ∀ s a s', I s → allowed s a → step s a = some s' → I s') {s : σ}
    (reach : Reach step first allowed s) : I s := by
  induction reach with
  | start => exact holds
  | next _ meets goes ih => exact keeps _ _ _ ih meets goes

/-- A run with one more step before it. -/
theorem Reach.prepend {s s' : σ} {a : ι} (reach : Reach step s allowed s') (meets : allowed first a)
    (goes : step first a = some s) : Reach step first allowed s' := by
  induction reach with
  | start => exact .next .start meets goes
  | next _ met taken ih => exact .next ih met taken

/-- Steps taken one after another. -/
def follow (step : σ → ι → Option σ) : σ → List ι → Option σ
  | s, [] => some s
  | s, a :: acts => (step s a).bind fun s' => follow step s' acts

/-- Each of the steps meets the condition where it is taken. -/
def Meets (step : σ → ι → Option σ) (allowed : σ → ι → Prop) : σ → List ι → Prop
  | _, [] => True
  | s, a :: acts => allowed s a ∧ ∀ s' ∈ step s a, Meets step allowed s' acts

instance Meets.decidable [∀ s a, Decidable (allowed s a)] : ∀ s acts, Decidable (Meets step allowed s acts)
  | _, [] => isTrue trivial
  | s, a :: acts =>
    have : ∀ s', Decidable (Meets step allowed s' acts) := fun s' => Meets.decidable s' acts
    inferInstanceAs (Decidable (allowed s a ∧ ∀ s' ∈ step s a, Meets step allowed s' acts))

theorem Reach.follow {s s' : σ} {acts : List ι} (reach : Reach step first allowed s)
    (meets : Meets step allowed s acts) (goes : follow step s acts = some s') : Reach step first allowed s' := by
  induction acts generalizing s with
  | nil => exact Option.some.inj goes ▸ reach
  | cons a acts ih =>
    obtain ⟨middle, taken, rest⟩ := Option.bind_eq_some_iff.mp goes
    exact ih (reach.next meets.1 taken) (meets.2 middle taken) rest

theorem meets_true (s : σ) (acts : List ι) : Meets step (fun _ _ => True) s acts := by
  induction acts generalizing s with
  | nil => trivial
  | cons a acts ih => exact ⟨trivial, fun s' _ => ih s'⟩

/-- Two conditions that agree wherever an invariant holds, which steps that
meet the first keep, are met by the same steps. -/
theorem meets_iff {allowed' : σ → ι → Prop} {I : σ → Prop} {s : σ} (holds : I s)
    (keeps : ∀ s a s', I s → allowed s a → step s a = some s' → I s')
    (same : ∀ s a, I s → (allowed s a ↔ allowed' s a)) (acts : List ι) :
    Meets step allowed s acts ↔ Meets step allowed' s acts := by
  induction acts generalizing s with
  | nil => exact Iff.rfl
  | cons a acts ih =>
    constructor
    · rintro ⟨meets, rest⟩
      exact ⟨(same s a holds).mp meets, fun s' goes => (ih (keeps s a s' holds meets goes)).mp (rest s' goes)⟩
    · rintro ⟨meets, rest⟩
      have met := (same s a holds).mpr meets
      exact ⟨met, fun s' goes => (ih (keeps s a s' holds met goes)).mpr (rest s' goes)⟩

/-- Without a condition the steps alone make a run. -/
theorem Reach.of_follow {s : σ} {acts : List ι} (goes : Runs.follow step first acts = some s) :
    Reach step first (fun _ _ => True) s :=
  Reach.start.follow (meets_true first acts) goes

end Runs
