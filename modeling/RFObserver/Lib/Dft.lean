import Mathlib.Algebra.BigOperators.Ring.Finset
import Mathlib.Algebra.Order.Floor.Ring
import Mathlib.Data.List.GetD
import Mathlib.Data.Rat.Floor
import Mathlib.Tactic

/-! Discrete Fourier transforms, with phases in turns, and what the inverse
transform of some bins is as a function of time. -/

/-- Phases in turns: `turn q` is `exp(2j * pi * q)`. -/
structure Turns (K : Type*) [Field K] where
  turn : ℚ → K
  turn_add : ∀ a b, turn (a + b) = turn a * turn b
  turn_one : turn 1 = 1

namespace Turns

variable {K : Type*} [Field K] (T : Turns K)

theorem turn_zero : T.turn 0 = 1 := by
  have whole := T.turn_add 0 1
  rw [zero_add, T.turn_one, mul_one] at whole
  exact whole.symm

theorem turn_natCast (n : ℕ) : T.turn n = 1 := by
  induction n with
  | zero => rw [Nat.cast_zero, T.turn_zero]
  | succ n ih => rw [Nat.cast_succ, T.turn_add, ih, T.turn_one, mul_one]

theorem turn_intCast (n : ℤ) : T.turn n = 1 := by
  obtain ⟨m, rfl | rfl⟩ := n.eq_nat_or_neg
  · exact_mod_cast T.turn_natCast m
  · have back := T.turn_add (-(m : ℚ)) m
    rw [neg_add_cancel, T.turn_zero, T.turn_natCast, mul_one] at back
    push_cast
    exact back.symm

/-- Whole turns change nothing. -/
theorem turn_add_int (q : ℚ) (n : ℤ) : T.turn (q + n) = T.turn q := by
  rw [T.turn_add, T.turn_intCast, mul_one]

theorem turn_eq_of_sub_int {p q : ℚ} {n : ℤ} (apart : p = q + n) : T.turn p = T.turn q := by
  rw [apart, T.turn_add_int]

/-- The cosine of half of `q` turns. -/
def halfCos (q : ℚ) : K := (T.turn (q / 2) + T.turn (-(q / 2))) / ((2 : ℕ) : K)

/-- `fft` of one block. -/
def fft (z : List K) : List K :=
  (List.range z.length).map fun k => ∑ t ∈ Finset.range z.length, z.getD t 0 * T.turn (-((k * t : ℕ) / z.length))

/-- `ifft` of one block. -/
def ifft (z : List K) : List K :=
  (List.range z.length).map fun i =>
    (∑ k ∈ Finset.range z.length, z.getD k 0 * T.turn ((k * i : ℕ) / z.length)) / (z.length : K)

/-- The frequency of a bin: the first half of the bins, then the negative ones. -/
def fftfreq (n k : ℕ) : ℤ := if 2 * k < n then k else k - n

theorem length_fft (z : List K) : (T.fft z).length = z.length := by
  rw [fft, List.length_map, List.length_range]

theorem length_ifft (z : List K) : (T.ifft z).length = z.length := by
  rw [ifft, List.length_map, List.length_range]

theorem getD_ifft {z : List K} {i : ℕ} (inside : i < z.length) : (T.ifft z).getD i 0 =
    (∑ k ∈ Finset.range z.length, z.getD k 0 * T.turn ((k * i : ℕ) / z.length)) / (z.length : K) := by
  rw [ifft, List.getD_eq_getElem _ _ (by rw [List.length_map, List.length_range]; exact inside), List.getElem_map,
    List.getElem_range]

/-- A bin stands for its frequency at every sample. -/
theorem turn_fftfreq {n : ℕ} (positive : 0 < n) (k i : ℕ) :
    T.turn ((k * i : ℕ) / n) = T.turn (fftfreq n k * (i / n)) := by
  have filled : (n : ℚ) ≠ 0 := Nat.cast_ne_zero.mpr positive.ne'
  rw [fftfreq]
  split_ifs
  · congr 1
    push_cast
    ring
  · refine T.turn_eq_of_sub_int (n := (i : ℤ)) ?_
    push_cast
    field_simp
    ring

/-- The sum of the bins `z` around bin `k0`, as a function of time; `n` is the
number of samples that the bins were taken of. -/
def band (k0 : ℤ) (n : ℕ) (z : List K) (time : ℚ) : K :=
  (∑ k ∈ Finset.range z.length, z.getD k 0 * T.turn ((k0 + fftfreq z.length k) * (time / n))) / (n : K)

/-- The inverse transform of the bins around `k0` is their sum mixed down by
`k0` bins, at the times of its samples. -/
theorem ifft_band [CharZero K] (k0 : ℤ) {n i : ℕ} (z : List K) (inside : i < z.length) (some_ : 0 < n) :
    (T.ifft z).getD i 0 * ((z.length : K) / n) =
      T.turn (-(k0 * (i / z.length))) * T.band k0 n z (i * n / z.length) := by
  have positive : 0 < z.length := by omega
  have filled : (z.length : K) ≠ 0 := Nat.cast_ne_zero.mpr positive.ne'
  have filled' : (z.length : ℚ) ≠ 0 := Nat.cast_ne_zero.mpr positive.ne'
  have some' : (n : ℚ) ≠ 0 := Nat.cast_ne_zero.mpr some_.ne'
  have each : ∀ k ∈ Finset.range z.length, z.getD k 0 * T.turn ((k * i : ℕ) / z.length) =
      T.turn (-(k0 * (i / z.length))) *
        (z.getD k 0 * T.turn ((k0 + fftfreq z.length k) * (i * n / z.length / n))) := by
    intro k _
    rw [T.turn_fftfreq positive, mul_left_comm, ← T.turn_add]
    congr 2
    field_simp
    ring
  rw [T.getD_ifft inside, Finset.sum_congr rfl each, ← Finset.mul_sum, band, div_mul_div_comm,
    mul_comm (z.length : K) (n : K), mul_div_mul_right _ _ filled, mul_div_assoc]

end Turns
