import Mathlib.Algebra.Order.Floor.Ring
import Mathlib.Data.Rat.Floor
import Mathlib.Tactic

/-- Rounding to the nearest integer, a tie to the even one. -/
def roundHalfEven (x : ℚ) : ℤ :=
  if x - ⌊x⌋ < 1 / 2 then ⌊x⌋
  else if 1 / 2 < x - ⌊x⌋ then ⌊x⌋ + 1
  else if ⌊x⌋ % 2 = 0 then ⌊x⌋ else ⌊x⌋ + 1

/-- Toward zero. -/
def truncate (x : ℚ) : ℤ := if 0 ≤ x then ⌊x⌋ else ⌈x⌉

namespace RoundHalfEven

theorem abs_error_le (x : ℚ) : |x - roundHalfEven x| ≤ 1 / 2 := by
  have low := Int.floor_le x
  have high := Int.lt_floor_add_one x
  unfold roundHalfEven
  split_ifs <;> rw [abs_le] <;> push_cast <;> constructor <;> linarith

/-- The only integer within half a unit is the rounded one. -/
theorem eq_of_near {x : ℚ} {n : ℤ} (near : |x - n| < 1 / 2) : roundHalfEven x = n := by
  have close := abs_error_le x
  rw [abs_lt] at near
  rw [abs_le] at close
  have low : (roundHalfEven x : ℚ) < n + 1 := by linarith
  have high : (n : ℚ) < roundHalfEven x + 1 := by linarith
  have low' : roundHalfEven x < n + 1 := by exact_mod_cast low
  have high' : n < roundHalfEven x + 1 := by exact_mod_cast high
  omega

theorem of_int (n : ℤ) : roundHalfEven n = n := eq_of_near (by simp)

/-- Half way between two integers the even one is taken. -/
theorem of_half (m : ℤ) : roundHalfEven (m + 1 / 2) = if m % 2 = 0 then m else m + 1 := by
  have floor : ⌊(m : ℚ) + 1 / 2⌋ = m := by
    rw [Int.floor_eq_iff]
    constructor <;> linarith
  unfold roundHalfEven
  rw [floor, if_neg (by linarith), if_neg (by linarith)]

theorem le_of_apart {x y : ℚ} (apart : x + 1 ≤ y) : roundHalfEven x ≤ roundHalfEven y := by
  have low := abs_le.mp (abs_error_le x)
  have high := abs_le.mp (abs_error_le y)
  have close : (roundHalfEven x : ℚ) ≤ roundHalfEven y := by linarith
  exact_mod_cast close

theorem mono {x y : ℚ} (le : x ≤ y) : roundHalfEven x ≤ roundHalfEven y := by
  by_cases same : roundHalfEven y < roundHalfEven x
  · have low := abs_le.mp (abs_error_le x)
    have high := abs_le.mp (abs_error_le y)
    have apart : (roundHalfEven y : ℚ) + 1 ≤ roundHalfEven x := by exact_mod_cast same
    have equal : x = y := by linarith
    rw [equal]
  · exact not_lt.mp same

/-- Two numbers a unit apart round to one integer when they are the halves
after an odd and after the next even one. -/
theorem eq_iff_of_apart {x y : ℚ} (apart : x + 1 ≤ y) :
    roundHalfEven x = roundHalfEven y ↔ ∃ m : ℤ, m % 2 = 1 ∧ x = m + 1 / 2 ∧ y = x + 1 := by
  constructor
  · intro same
    have low := abs_le.mp (abs_error_le x)
    have high := abs_le.mp (abs_error_le y)
    rw [← same] at high
    have left : x = ((roundHalfEven x - 1 : ℤ) : ℚ) + 1 / 2 := by
      push_cast
      linarith
    refine ⟨roundHalfEven x - 1, ?_, left, by linarith⟩
    have half := of_half (roundHalfEven x - 1)
    rw [← left] at half
    split_ifs at half <;> omega
  · rintro ⟨m, odd, rfl, rfl⟩
    have next : (m : ℚ) + 1 / 2 + 1 = ((m + 1 : ℤ) : ℚ) + 1 / 2 := by
      push_cast
      ring
    rw [next, of_half, of_half, if_neg (by omega), if_pos (by omega)]

/-- `n` is strictly nearer to `x` than every other integer. -/
def Nearest (x : ℚ) (n : ℤ) : Prop := ∀ k : ℤ, k ≠ n → |x - n| < |x - k|

theorem Nearest.near {x : ℚ} {n : ℤ} (nearest : Nearest x n) : |x - n| < 1 / 2 := by
  have below := nearest (n - 1) (by omega)
  have above := nearest (n + 1) (by omega)
  push_cast at below above
  rcases abs_cases (x - n) with ⟨size, _⟩ | ⟨size, _⟩ <;>
    rcases abs_cases (x - (n - 1)) with ⟨size', _⟩ | ⟨size', _⟩ <;>
    rcases abs_cases (x - (n + 1)) with ⟨size'', _⟩ | ⟨size'', _⟩ <;> linarith

theorem nearest_of_near {x : ℚ} {n : ℤ} (near : |x - n| < 1 / 2) : Nearest x n := by
  intro k other
  have apart : (1 : ℚ) ≤ |(n : ℚ) - k| := by
    rw [← Int.cast_sub, ← Int.cast_abs]
    exact_mod_cast Int.one_le_abs (sub_ne_zero.mpr (Ne.symm other))
  have split : |(n : ℚ) - k| ≤ |x - k| + |x - n| := by
    have triangle := abs_sub_le (n : ℚ) x k
    rw [abs_sub_comm (n : ℚ) x] at triangle
    linarith
  linarith

/-- The nearest integer moves with a whole shift. -/
theorem Nearest.shift {x : ℚ} {n : ℤ} (nearest : Nearest x n) (k : ℤ) : roundHalfEven (x - k) = n - k := by
  refine eq_of_near ?_
  push_cast
  simpa only [sub_sub_sub_cancel_right] using nearest.near

end RoundHalfEven
