import Mathlib.Data.Int.Log
import RFObserver.Lib.RoundHalfEven

/-! Doubles as rationals: a result is rounded to the nearest one, a tie to the
even one. -/

namespace Binary64

def power (e : ℤ) : ℚ := 2 ^ e

/-- The exponent of the last place of the doubles around `x`. -/
def place (x : ℚ) : ℤ := max (Int.log 2 |x| - 52) (-1074)

def ulp (x : ℚ) : ℚ := power (place x)

def nearest (x : ℚ) : ℚ := roundHalfEven (x / ulp x) * ulp x

/-- `/` of two integers; none is for a quotient beyond the largest double, or
a divisor 0. -/
def div (a b : ℤ) : Option ℚ :=
  if b = 0 ∨ power 1024 ≤ |nearest ((a : ℚ) / b)| then none else some (nearest ((a : ℚ) / b))

variable {x : ℚ}

theorem power_pos (e : ℤ) : 0 < power e := zpow_pos (by norm_num) e

theorem power_add (e f : ℤ) : power (e + f) = power e * power f := zpow_add₀ (by norm_num) e f

theorem power_le {e f : ℤ} : power e ≤ power f ↔ e ≤ f := zpow_le_zpow_iff_right₀ (by norm_num)

theorem power_natCast (n : Nat) : power n = 2 ^ n := zpow_natCast 2 n

theorem power_neg_one : power (-1) = 1 / 2 := by
  unfold power
  norm_num

theorem power_half (e : ℤ) : power (e - 1) = power e / 2 := by
  rw [sub_eq_add_neg, power_add, power_neg_one]
  ring

theorem ulp_pos (x : ℚ) : 0 < ulp x := power_pos _

theorem power_log_le (nonzero : x ≠ 0) : power (Int.log 2 |x|) ≤ |x| := by
  have low := Int.zpow_log_le_self (b := 2) (by norm_num) (abs_pos.mpr nonzero)
  exact_mod_cast low

theorem lt_power_iff (nonzero : x ≠ 0) (e : ℤ) : |x| < power e ↔ Int.log 2 |x| < e := by
  have turn := Int.lt_zpow_iff_log_lt (b := 2) (by norm_num) (x := e) (abs_pos.mpr nonzero)
  exact_mod_cast turn

theorem nearest_error (x : ℚ) : |x - nearest x| ≤ ulp x / 2 := by
  have positive := ulp_pos x
  have error := RoundHalfEven.abs_error_le (x / ulp x)
  have scaled : x - nearest x = (x / ulp x - roundHalfEven (x / ulp x)) * ulp x := by
    unfold nearest
    field_simp
  rw [scaled, abs_mul, abs_of_pos positive]
  nlinarith

theorem ulp_le (nonzero : x ≠ 0) : ulp x ≤ max (|x| * power (-52)) (power (-1074)) := by
  have low := power_log_le nonzero
  have positive := power_pos (-52)
  unfold ulp place
  rcases le_total (Int.log 2 |x| - 52) (-1074) with small | large
  · rw [max_eq_right small]
    exact le_max_right _ _
  · rw [max_eq_left large, sub_eq_add_neg, power_add]
    refine le_trans ?_ (le_max_left _ _)
    gcongr

/-- A result that is no subnormal is right to 53 bits. -/
theorem nearest_relative (normal : x = 0 ∨ power (-1022) ≤ |x|) : |x - nearest x| ≤ |x| * power (-53) := by
  rcases normal with rfl | normal
  · simp [nearest, roundHalfEven]
  have nonzero : x ≠ 0 := by
    rintro rfl
    rw [abs_zero] at normal
    exact absurd normal (not_le.mpr (power_pos _))
  have positive := power_pos (-52)
  have bound : power (-1074) ≤ |x| * power (-52) := by
    rw [show (-1074 : ℤ) = -1022 + -52 by norm_num, power_add]
    gcongr
  have last := ulp_le nonzero
  rw [max_eq_left bound] at last
  have error := nearest_error x
  rw [show (-53 : ℤ) = -52 - 1 by norm_num, power_half]
  linarith

/-- Whole numbers are doubles where the last place is worth at most one. -/
theorem whole_place (fine : place x ≤ 0) (n : ℤ) : ∃ k : ℤ, (n : ℚ) = k * ulp x := by
  refine ⟨n * 2 ^ (-place x).toNat, ?_⟩
  have back : (2 : ℚ) ^ (-place x).toNat * ulp x = 1 := by
    rw [ulp, ← power_natCast, ← power_add, Int.toNat_of_nonneg (by omega), neg_add_cancel]
    rfl
  push_cast
  rw [mul_assoc, back, mul_one]

theorem le_nearest (fine : place x ≤ 0) {n : ℤ} (below : (n : ℚ) ≤ x) : (n : ℚ) ≤ nearest x := by
  obtain ⟨k, kEq⟩ := whole_place fine n
  have positive := ulp_pos x
  have close := abs_le.mp (RoundHalfEven.abs_error_le (x / ulp x))
  have scaled : (k : ℚ) ≤ x / ulp x := by rwa [le_div_iff₀ positive, ← kEq]
  have reached : k ≤ roundHalfEven (x / ulp x) := by
    have : (k : ℚ) < roundHalfEven (x / ulp x) + 1 := by linarith
    exact Int.lt_add_one_iff.mp (by exact_mod_cast this)
  rw [kEq, nearest]
  gcongr

theorem nearest_le (fine : place x ≤ 0) {n : ℤ} (above : x ≤ n) : nearest x ≤ n := by
  obtain ⟨k, kEq⟩ := whole_place fine n
  have positive := ulp_pos x
  have close := abs_le.mp (RoundHalfEven.abs_error_le (x / ulp x))
  have scaled : x / ulp x ≤ k := by rwa [div_le_iff₀ positive, ← kEq]
  have reached : roundHalfEven (x / ulp x) ≤ k := by
    have : (roundHalfEven (x / ulp x) : ℚ) < k + 1 := by linarith
    exact Int.lt_add_one_iff.mp (by exact_mod_cast this)
  rw [kEq, nearest]
  gcongr

theorem place_le_zero (small : |x| < power 53) : place x ≤ 0 := by
  rcases eq_or_ne x 0 with rfl | nonzero
  · simp [place]
  · have := (lt_power_iff nonzero 53).mp small
    unfold place
    omega

theorem nearest_nonneg (nonneg : 0 ≤ x) : 0 ≤ nearest x := by
  have scaled : 0 ≤ x / ulp x := div_nonneg nonneg (ulp_pos x).le
  have close := abs_le.mp (RoundHalfEven.abs_error_le (x / ulp x))
  have reached : 0 ≤ roundHalfEven (x / ulp x) := by
    have : (0 : ℚ) < roundHalfEven (x / ulp x) + 1 := by linarith
    exact Int.lt_add_one_iff.mp (by exact_mod_cast this)
  exact mul_nonneg (by exact_mod_cast reached) (ulp_pos x).le

theorem nearest_abs_le {n : ℤ} (within : |x| ≤ n) (small : n < 2 ^ 53) : |nearest x| ≤ n := by
  have fine : place x ≤ 0 := by
    refine place_le_zero (within.trans_lt ?_)
    have : (n : ℚ) < 2 ^ 53 := by exact_mod_cast small
    exact this
  obtain ⟨low, high⟩ := abs_le.mp within
  have low' : ((-n : ℤ) : ℚ) ≤ x := by exact_mod_cast low
  refine abs_le.mpr ⟨?_, nearest_le fine high⟩
  exact_mod_cast le_nearest fine low'

/-- A quotient of at most half the smallest double is rounded to 0. -/
theorem nearest_tiny (nonneg : 0 ≤ x) (tiny : x ≤ power (-1075)) : nearest x = 0 := by
  rcases nonneg.eq_or_lt with rfl | positive
  · simp [nearest, roundHalfEven]
  have last : place x = -1074 := by
    refine max_eq_right ?_
    have below : |x| < power (-1022) := by
      rw [abs_of_pos positive]
      refine tiny.trans_lt (not_le.mp fun above => ?_)
      exact absurd (power_le.mp above) (by norm_num)
    have := (lt_power_iff positive.ne' _).mp below
    omega
  have least := power_pos (-1074)
  have half : x / ulp x ≤ 1 / 2 := by
    rw [ulp, last, div_le_iff₀ least]
    rw [show (-1075 : ℤ) = -1074 - 1 by norm_num, power_half] at tiny
    linarith
  have start : 0 ≤ x / ulp x := div_nonneg nonneg (ulp_pos x).le
  have floor : ⌊x / ulp x⌋ = 0 := Int.floor_eq_iff.mpr ⟨by exact_mod_cast start, by push_cast; linarith⟩
  have none : roundHalfEven (x / ulp x) = 0 := by
    unfold roundHalfEven
    rw [floor]
    split_ifs <;> first | rfl | (push_cast at *; linarith) | omega
  rw [nearest, none]
  simp

/-- A larger one is not. -/
theorem nearest_pos (above : power (-1075) < x) : 0 < nearest x := by
  have positive : 0 < x := (power_pos _).trans above
  have least := power_pos (-1074)
  have error := abs_le.mp (nearest_error x)
  have last := ulp_le positive.ne'
  rw [abs_of_pos positive] at last
  rcases le_max_iff.mp last with relative | smallest
  · have unit : power (-52) < 2 := by
      unfold power
      norm_num
    have : ulp x < x * 2 := relative.trans_lt (by gcongr)
    linarith
  · rw [show (-1075 : ℤ) = -1074 - 1 by norm_num, power_half] at above
    linarith

/-- The ceiling of a quotient of small integers is exact, unless the quotient
is rounded to 0. -/
theorem ceil_nearest {a b : ℤ} (aPos : 0 < a) (small : a < 2 ^ 53) (bPos : 0 < b)
    (normal : power (-1075) < (a : ℚ) / b) : ⌈nearest ((a : ℚ) / b)⌉ = ⌈(a : ℚ) / b⌉ := by
  have bRat : (0 : ℚ) < b := by exact_mod_cast bPos
  have aRat : (0 : ℚ) < a := by exact_mod_cast aPos
  have quotient : (0 : ℚ) < a / b := div_pos aRat bRat
  have unit : (a : ℚ) / b ≤ a := div_le_self aRat.le (by exact_mod_cast bPos)
  have below : |(a : ℚ) / b| < power 53 := by
    rw [abs_of_pos quotient]
    refine unit.trans_lt ?_
    have : (a : ℚ) < 2 ^ 53 := by exact_mod_cast small
    exact this
  have fine := place_le_zero below
  obtain ⟨n, nEq⟩ : ∃ n, ⌈(a : ℚ) / b⌉ = n := ⟨_, rfl⟩
  obtain ⟨low, high⟩ := Int.ceil_eq_iff.mp nEq
  rw [nEq, Int.ceil_eq_iff]
  refine ⟨?_, nearest_le fine high⟩
  rcases le_or_gt n 1 with first | later
  · have : (n : ℚ) - 1 ≤ 0 := by
      have : (n : ℚ) ≤ 1 := by exact_mod_cast first
      linarith
    exact this.trans_lt (nearest_pos normal)
  · -- the quotient is more than half a last place above the integer below it
    have apart : (1 : ℚ) / b ≤ (a : ℚ) / b - (n - 1) := by
      have whole : (n - 1) * b < a := by
        rw [lt_div_iff₀ bRat] at low
        exact_mod_cast low
      have : ((n - 1 : ℤ) : ℚ) * b + 1 ≤ a := by exact_mod_cast whole
      rw [div_le_iff₀ bRat, sub_mul, div_mul_cancel₀ _ bRat.ne']
      push_cast at this
      linarith
    have one : 1 ≤ (a : ℚ) / b := by
      have : (1 : ℚ) ≤ n - 1 := by
        have : (2 : ℚ) ≤ n := by exact_mod_cast later
        linarith
      linarith
    have relative : |(a : ℚ) / b - nearest ((a : ℚ) / b)| ≤ |(a : ℚ) / b| * power (-53) := by
      refine nearest_relative (Or.inr ?_)
      rw [abs_of_pos quotient]
      have : power (-1022) ≤ power 0 := power_le.mpr (by norm_num)
      exact this.trans (by simpa [power] using one)
    rw [abs_of_pos quotient] at relative
    have error := (abs_le.mp relative).2
    have less : (a : ℚ) / b * power (-53) < 1 / b := by
      have : (a : ℚ) * power (-53) < 1 := by
        have bound : (a : ℚ) < power 53 := by
          have : (a : ℚ) < 2 ^ 53 := by exact_mod_cast small
          exact this
        have unit : power 53 * power (-53) = 1 := by
          rw [← power_add]
          simp [power]
        rw [← unit]
        have := power_pos (-53)
        gcongr
      rw [div_mul_eq_mul_div]
      gcongr
    linarith

theorem tiny_iff {a b : ℤ} (bPos : 0 < b) : (a : ℚ) / b ≤ power (-1075) ↔ a * 2 ^ 1075 ≤ b := by
  have bRat : (0 : ℚ) < b := by exact_mod_cast bPos
  have unit : power (-1075) * power 1075 = 1 := by
    rw [← power_add]
    rfl
  have large : power 1075 = ((2 ^ 1075 : ℤ) : ℚ) := by
    rw [show (1075 : ℤ) = ((1075 : Nat) : ℤ) from rfl, power_natCast, Int.cast_pow, Int.cast_ofNat]
  rw [div_le_iff₀ bRat, ← mul_le_mul_iff_left₀ (power_pos 1075), mul_right_comm, unit, one_mul, large]
  exact_mod_cast Iff.rfl

theorem div_small {a b : ℤ} (aNonneg : 0 ≤ a) (small : a < 2 ^ 53) (bPos : 0 < b) :
    div a b = some (nearest ((a : ℚ) / b)) := by
  have bRat : (0 : ℚ) < b := by exact_mod_cast bPos
  have aRat : (0 : ℚ) ≤ a := by exact_mod_cast aNonneg
  have within : |(a : ℚ) / b| ≤ a := by
    rw [abs_of_nonneg (div_nonneg aRat bRat.le)]
    exact div_le_self aRat (by exact_mod_cast bPos)
  have bounded := nearest_abs_le within small
  have below : (a : ℚ) < power 53 := by
    have : (a : ℚ) < 2 ^ 53 := by exact_mod_cast small
    exact this
  have largest : power 53 ≤ power 1024 := power_le.mpr (by norm_num)
  refine if_neg (not_or.mpr ⟨bPos.ne', not_le.mpr (bounded.trans_lt (below.trans_le largest))⟩)

/-- A whole number of thousandths is still nearest after a division and a
multiplication by a thousand. -/
theorem round_thousandths {m : ℤ} (small : |m| < 2 ^ 50) :
    roundHalfEven (nearest (nearest ((m : ℚ) / 1000) * 1000)) = m := by
  rcases eq_or_ne m 0 with rfl | nonzero
  · simp [nearest, roundHalfEven]
  have unit := power_pos (-53)
  have size : (1 : ℚ) ≤ |(m : ℚ)| := by exact_mod_cast Int.one_le_abs nonzero
  have bound : |(m : ℚ)| * power (-53) < 1 / 8 := by
    have : |(m : ℚ)| < power 50 := by
      have : |(m : ℚ)| < 2 ^ 50 := by exact_mod_cast small
      exact this
    have eighth : power 50 * power (-53) = 1 / 8 := by
      rw [← power_add]
      norm_num [power]
    rw [← eighth]
    gcongr
  have least : power (-1022) ≤ 1 / 1000 := by
    have : power (-1022) ≤ power (-10) := power_le.mpr (by norm_num)
    refine this.trans ?_
    norm_num [power]
  have thousandth : |(m : ℚ) / 1000| = |(m : ℚ)| / 1000 := by
    rw [abs_div]
    norm_num
  have first := nearest_relative (x := (m : ℚ) / 1000) (Or.inr (by rw [thousandth]; linarith))
  obtain ⟨y, yEq⟩ : ∃ y, nearest ((m : ℚ) / 1000) * 1000 = y := ⟨_, rfl⟩
  have near : |(m : ℚ) - y| ≤ |(m : ℚ)| * power (-53) := by
    have scaled : (m : ℚ) - y = ((m : ℚ) / 1000 - nearest ((m : ℚ) / 1000)) * 1000 := by
      rw [← yEq]
      ring
    rw [scaled, abs_mul, abs_of_pos (by norm_num : (0 : ℚ) < 1000)]
    rw [thousandth] at first
    linarith
  have size' : |y| ≤ |(m : ℚ)| + 1 / 8 := by
    have := abs_sub_abs_le_abs_sub y m
    rw [abs_sub_comm] at this
    linarith
  have large : power (-1022) ≤ |y| := by
    have := abs_sub_abs_le_abs_sub (m : ℚ) y
    linarith
  have second := nearest_relative (Or.inr large)
  have eighth : power (-53) ≤ 1 / 8 := by
    have : power (-53) ≤ power (-3) := power_le.mpr (by norm_num)
    refine this.trans ?_
    norm_num [power]
  rw [yEq]
  refine RoundHalfEven.eq_of_near ?_
  have total : |nearest y - m| ≤ |y - nearest y| + |(m : ℚ) - y| := by
    rw [abs_sub_comm y, abs_sub_comm (m : ℚ)]
    have := abs_add_le (nearest y - y) (y - m)
    rwa [sub_add_sub_cancel] at this
  have : |y| * power (-53) ≤ (|(m : ℚ)| + 1 / 8) * power (-53) := by gcongr
  linarith

end Binary64
