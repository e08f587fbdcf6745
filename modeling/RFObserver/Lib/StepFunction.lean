import Mathlib.Data.List.Pairwise
import Mathlib.Tactic

/-! Functions that rise by steps, kept as the list of their breaks: the
place of each step and the value from there on. -/

namespace StepFunction

/-- The value at `x`: that of the last break not after it, `low` before the
first one. -/
def value (low : Nat) : List (Nat × Nat) → Nat → Nat
  | [], _ => low
  | b :: breaks, x => if b.1 ≤ x then value b.2 breaks x else low

/-- Breaks in the order of their places and of their values. -/
def Rising (breaks : List (Nat × Nat)) : Prop := breaks.Pairwise fun a b => a.1 ≤ b.1 ∧ a.2 ≤ b.2

variable {breaks : List (Nat × Nat)} {low x y : Nat}

theorem value_nil : value low [] x = low := rfl

theorem value_cons {b : Nat × Nat} : value low (b :: breaks) x = if b.1 ≤ x then value b.2 breaks x else low := rfl

theorem Rising.append {b : Nat × Nat} (rising : Rising breaks) (last : ∀ a ∈ breaks, a.1 ≤ b.1 ∧ a.2 ≤ b.2) :
    Rising (breaks ++ [b]) := by
  refine List.pairwise_append.mpr ⟨rising, List.pairwise_singleton .., fun a member c single => ?_⟩
  rw [List.mem_singleton.mp single]
  exact last a member

theorem low_le_value (rising : Rising breaks) (above : ∀ b ∈ breaks, low ≤ b.2) : low ≤ value low breaks x := by
  induction breaks generalizing low with
  | nil => exact le_rfl
  | cons b breaks ih =>
    obtain ⟨first, rest⟩ := List.pairwise_cons.mp rising
    have here := above b (List.mem_cons_self ..)
    rw [value_cons]
    split
    · exact here.trans (ih rest fun a member => (first a member).2)
    · exact le_rfl

theorem value_mono (rising : Rising breaks) (above : ∀ b ∈ breaks, low ≤ b.2) (le : x ≤ y) :
    value low breaks x ≤ value low breaks y := by
  induction breaks generalizing low with
  | nil => exact le_rfl
  | cons b breaks ih =>
    obtain ⟨first, rest⟩ := List.pairwise_cons.mp rising
    by_cases reached : b.1 ≤ x
    · simp only [value_cons, reached, reached.trans le, if_true]
      exact ih rest fun a member => (first a member).2
    · have whole : low ≤ value low (b :: breaks) y := low_le_value rising above
      simpa only [value_cons, reached, if_false] using whole

/-- Later breaks only raise it. -/
theorem value_le_append {more : List (Nat × Nat)} (rising : Rising (breaks ++ more))
    (above : ∀ b ∈ breaks ++ more, low ≤ b.2) : value low breaks x ≤ value low (breaks ++ more) x := by
  induction breaks generalizing low with
  | nil => exact low_le_value rising above
  | cons b breaks ih =>
    obtain ⟨first, rest⟩ := List.pairwise_cons.mp rising
    simp only [List.cons_append, value_cons]
    split_ifs
    · exact ih rest fun a member => (first a member).2
    · exact le_rfl

theorem value_append_before {b : Nat × Nat} (before : x < b.1) :
    value low (breaks ++ [b]) x = value low breaks x := by
  induction breaks generalizing low with
  | nil => simp only [List.nil_append, value_cons, not_le.mpr before, if_false, value_nil]
  | cons a breaks ih => simp only [List.cons_append, value_cons, ih]

theorem value_append_after {b : Nat × Nat} (reached : ∀ a ∈ breaks, a.1 ≤ b.1) (after : b.1 ≤ x) :
    value low (breaks ++ [b]) x = b.2 := by
  induction breaks generalizing low with
  | nil => simp only [List.nil_append, value_cons, after, if_true, value_nil]
  | cons a breaks ih =>
    have here := (reached a (List.mem_cons_self ..)).trans after
    simp only [List.cons_append, value_cons, here, if_true]
    exact ih fun c member => reached c (List.mem_cons_of_mem _ member)

end StepFunction
