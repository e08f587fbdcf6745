import RFObserver.Lib.Binary64

/-! Doubles with their infinities and NaN, and the bits of floating-point formats. -/

namespace Binary64

/-- What a double stands for; zero has no sign here. -/
inductive Number
  | nan
  | infinite (negative : Bool)
  | finite (x : ℚ)
  deriving DecidableEq

namespace Number

/-- The double nearest to a rational, an infinity beyond the largest. -/
def round (x : ℚ) : Number := if power 1024 ≤ |nearest x| then infinite (decide (x < 0)) else finite (nearest x)

def add : Number → Number → Number
  | finite x, finite y => round (x + y)
  | infinite s, infinite t => if s = t then infinite s else nan
  | infinite s, finite _ => infinite s
  | finite _, infinite t => infinite t
  | _, _ => nan

def mul : Number → Number → Number
  | finite x, finite y => round (x * y)
  | infinite s, infinite t => infinite (s != t)
  | infinite s, finite y => if y = 0 then nan else infinite (s != decide (y < 0))
  | finite x, infinite t => if x = 0 then nan else infinite (decide (x < 0) != t)
  | _, _ => nan

/-- `x <= y`, which NaN meets on neither side. -/
def le : Number → Number → Bool
  | finite x, finite y => decide (x ≤ y)
  | infinite s, infinite t => s || !t
  | infinite s, finite _ => s
  | finite _, infinite t => !t
  | _, _ => false

end Number

/-- An interchange format. -/
structure Format where
  exponentBits : ℕ
  mantissaBits : ℕ

def double : Format := ⟨11, 52⟩

def single : Format := ⟨8, 23⟩

/-- The number of a bit pattern. -/
def Format.number (f : Format) (bits : ℕ) : Number :=
  let mantissa := bits % 2 ^ f.mantissaBits
  let exponent := bits / 2 ^ f.mantissaBits % 2 ^ f.exponentBits
  let negative := decide (bits / 2 ^ (f.exponentBits + f.mantissaBits) % 2 = 1)
  let least : ℤ := 2 - 2 ^ (f.exponentBits - 1) - f.mantissaBits
  if exponent = 2 ^ f.exponentBits - 1 then (if mantissa = 0 then .infinite negative else .nan)
  else
    let size :=
      if exponent = 0 then mantissa * power least
      else ((2 ^ f.mantissaBits + mantissa : ℕ) : ℚ) * power (least + exponent - 1)
    .finite (if negative then -size else size)

/-- The bits of a double. -/
structure Double where
  bits : BitVec 64
  deriving DecidableEq

def Double.number (d : Double) : Number := double.number d.bits.toNat

/-- The significand of a whole number with 53 bits; one that is rounded up to the next power of two has 54. -/
def significand (n : ℕ) : ℕ := (roundHalfEven ((n : ℚ) / power (Nat.log2 n - 52))).toNat

/-- The double of a whole number, none beyond the largest. -/
def float (n : ℕ) : Option Double :=
  if n = 0 then some ⟨0⟩
  else if power 1024 ≤ nearest n then none
  else some ⟨BitVec.ofNat 64 ((Nat.log2 n + 1022) * 2 ^ 52 + significand n)⟩

theorem number_normal {exponent m : ℕ} (positive : 0 < exponent) (below : exponent < 2047) (short : m < 2 ^ 52) :
    double.number (exponent * 2 ^ 52 + m) =
      .finite (((2 ^ 52 + m : ℕ) : ℚ) * power ((exponent : ℤ) - 1075)) := by
  have mantissa : (exponent * 2 ^ 52 + m) % 2 ^ 52 = m := by omega
  have field : (exponent * 2 ^ 52 + m) / 2 ^ 52 % 2 ^ 11 = exponent := by omega
  have sign : ¬(exponent * 2 ^ 52 + m) / 2 ^ (11 + 52) % 2 = 1 := by omega
  have place : (2 : ℤ) - 2 ^ (11 - 1) - (52 : ℕ) + exponent - 1 = exponent - 1075 := by
    norm_num
    ring
  unfold Format.number double
  simp only [mantissa, field, decide_eq_false sign]
  rw [if_neg (by omega), if_neg positive.ne', place]
  rfl

theorem log_natCast (n : ℕ) : Int.log 2 |(n : ℚ)| = Nat.log2 n := by
  rw [abs_of_nonneg (Nat.cast_nonneg n), Int.log_natCast, Nat.log2_eq_log_two]

theorem place_natCast (n : ℕ) : place (n : ℚ) = (Nat.log2 n : ℤ) - 52 := by
  rw [place, log_natCast]
  exact max_eq_left (by omega)

theorem nearest_natCast {n : ℕ} (positive : 0 < n) :
    nearest (n : ℚ) = significand n * power ((Nat.log2 n : ℤ) - 52) ∧
      2 ^ 52 ≤ significand n ∧ significand n ≤ 2 ^ 53 := by
  have scale := power_pos ((Nat.log2 n : ℤ) - 52)
  have low : power (Nat.log2 n) ≤ n := by
    rw [power_natCast]
    exact_mod_cast Nat.log2_self_le positive.ne'
  have high : (n : ℚ) < power (Nat.log2 n + 1 : ℕ) := by
    rw [power_natCast]
    exact_mod_cast Nat.lt_log2_self
  have shift (k : ℕ) : power ((Nat.log2 n + k : ℕ) : ℤ) = ((2 ^ (52 + k) : ℤ) : ℚ) * power ((Nat.log2 n : ℤ) - 52) := by
    have whole : ((2 ^ (52 + k) : ℤ) : ℚ) = power (52 + k : ℕ) := by
      rw [power_natCast, Int.cast_pow]
      rfl
    rw [whole, ← power_add]
    congr 1
    push_cast
    ring
  have least := RoundHalfEven.mono ((le_div_iff₀ scale).mpr ((shift 0).symm.le.trans low))
  have greatest := RoundHalfEven.mono ((div_le_iff₀ scale).mpr (high.le.trans (shift 1).le))
  rw [RoundHalfEven.of_int] at least greatest
  have nonneg : (0 : ℤ) ≤ roundHalfEven ((n : ℚ) / power ((Nat.log2 n : ℤ) - 52)) := by omega
  refine ⟨?_, ?_, ?_⟩
  · rw [nearest, ulp, place_natCast]
    congr 1
    exact_mod_cast (Int.toNat_of_nonneg nonneg).symm
  · unfold significand
    omega
  · unfold significand
    omega

/-- The exponent of a whole number that is rounded below the largest power of two fits its field. -/
theorem log2_room {n : ℕ} (positive : 0 < n) (small : nearest (n : ℚ) < power 1024) :
    Nat.log2 n < 1024 ∧ (significand n = 2 ^ 53 → Nat.log2 n < 1023) := by
  obtain ⟨value, least, -⟩ := nearest_natCast positive
  have scaled (k : ℕ) (reached : significand n ≥ 2 ^ k) : power (k + (Nat.log2 n - 52)) < power 1024 := by
    have scale := power_pos ((Nat.log2 n : ℤ) - 52)
    refine lt_of_le_of_lt ?_ (value ▸ small)
    rw [power_add, power_natCast]
    gcongr
    exact_mod_cast reached
  have apart {e f : ℤ} (less : power e < power f) : e < f := not_le.mp fun le => (power_le.mpr le).not_gt less
  constructor
  · have := apart (scaled 52 least)
    omega
  · intro full
    have := apart (scaled 53 full.ge)
    omega

/-- A whole number as a double is the nearest one. -/
theorem number_float {n : ℕ} {d : Double} (made : float n = some d) : d.number = .finite (nearest n) := by
  unfold float at made
  split_ifs at made with zero large
  · obtain rfl := Option.some.inj made
    rw [zero, Nat.cast_zero, nearest, zero_div]
    decide +kernel
  · obtain rfl := Option.some.inj made
    have positive := Nat.pos_of_ne_zero zero
    obtain ⟨value, least, greatest⟩ := nearest_natCast positive
    obtain ⟨room, fullRoom⟩ := log2_room positive (not_le.mp large)
    have fits : (Nat.log2 n + 1022) * 2 ^ 52 + significand n < 2 ^ 64 := by omega
    rw [Double.number, BitVec.toNat_ofNat, Nat.mod_eq_of_lt fits, value]
    rcases greatest.lt_or_eq with short | full
    · have split : (Nat.log2 n + 1022) * 2 ^ 52 + significand n =
          (Nat.log2 n + 1023) * 2 ^ 52 + (significand n - 2 ^ 52) := by omega
      have place : ((Nat.log2 n + 1023 : ℕ) - 1075 : ℤ) = (Nat.log2 n : ℤ) - 52 := by
        push_cast
        ring
      rw [split, number_normal (by omega) (by omega) (by omega), Nat.add_sub_cancel' least, place]
    · have split : (Nat.log2 n + 1022) * 2 ^ 52 + significand n = (Nat.log2 n + 1024) * 2 ^ 52 + 0 := by omega
      have carried : power ((Nat.log2 n + 1024 : ℕ) - 1075 : ℤ) = 2 * power ((Nat.log2 n : ℤ) - 52) := by
        rw [show ((Nat.log2 n + 1024 : ℕ) - 1075 : ℤ) = 1 + ((Nat.log2 n : ℤ) - 52) by push_cast; ring, power_add]
        rfl
      rw [split, number_normal (by omega) (by have := fullRoom full; omega) (by decide), carried, full]
      push_cast
      ring_nf

theorem float_isSome {n : ℕ} : (float n).isSome ↔ nearest (n : ℚ) < power 1024 := by
  unfold float
  split_ifs with zero large
  · have := power_pos 1024
    simpa [zero, nearest, roundHalfEven] using this
  · simpa using large
  · simpa using large

/-- Whole numbers of 53 bits are doubles. -/
theorem nearest_whole {n : ℕ} (small : n < 2 ^ 53) : nearest (n : ℚ) = n := by
  have fine : place (n : ℚ) ≤ 0 := by
    refine place_le_zero ?_
    have below : (n : ℚ) < 2 ^ 53 := by exact_mod_cast small
    rw [abs_of_nonneg (Nat.cast_nonneg n)]
    exact below
  have low := le_nearest (n := n) fine (by simp)
  have high := nearest_le (n := n) fine (by simp)
  exact le_antisymm (by exact_mod_cast high) (by exact_mod_cast low)

/-- A bound that is a whole number of 53 bits stays one. -/
theorem le_nearest_of_le {n : ℕ} (small : n < 2 ^ 52) {x : ℚ} (below : (n : ℚ) ≤ x) : (n : ℚ) ≤ nearest x := by
  by_cases fine : place x ≤ 0
  · exact_mod_cast le_nearest (n := n) fine (by exact_mod_cast below)
  · have nonneg : 0 ≤ x := (Nat.cast_nonneg n).trans below
    have large : power 53 ≤ x := by
      by_contra less
      exact fine (place_le_zero (by rwa [abs_of_nonneg nonneg, ← not_le]))
    have error := nearest_relative (x := x) (Or.inr ?_)
    · rw [abs_of_nonneg nonneg] at error
      have near := (abs_le.mp error).2
      have half : x * power (-53) ≤ x * (1 / 2) := by
        have : power (-53) ≤ power (-1) := power_le.mpr (by norm_num)
        rw [power_neg_one] at this
        gcongr
      have double : (n : ℚ) ≤ power 53 / 2 := by
        rw [← power_half]
        have : (n : ℚ) < 2 ^ 52 := by exact_mod_cast small
        exact this.le
      linarith
    · rw [abs_of_nonneg nonneg]
      exact (power_le.mpr (by norm_num)).trans large

theorem round_small {n : ℕ} (small : n < 2 ^ 53) {x : ℚ} (within : |x| ≤ n) :
    Number.round x = .finite (nearest x) := by
  have bound := nearest_abs_le (n := n) (by exact_mod_cast within) (by exact_mod_cast small)
  rw [Int.cast_natCast] at bound
  have largest : (n : ℚ) < power 1024 := by
    have : (n : ℚ) < 2 ^ 53 := by exact_mod_cast small
    exact this.trans_le (power_le (e := 53) (f := 1024) |>.mpr (by norm_num))
  exact if_neg (not_le.mpr (bound.trans_lt largest))

theorem whole_lt_largest {n : ℕ} (small : n < 2 ^ 53) : nearest (n : ℚ) < power 1024 := by
  have below : (n : ℚ) < 2 ^ 53 := by exact_mod_cast small
  rw [nearest_whole small]
  exact below.trans_le (power_le (e := 53) (f := 1024) |>.mpr (by decide))

theorem ulp_le_of_lt {x : ℚ} {e : ℤ} (from_ : 1 ≤ e) (small : |x| < power e) : ulp x ≤ power (e - 53) := by
  refine power_le.mpr (max_le ?_ (by omega))
  rcases eq_or_ne x 0 with rfl | nonzero
  · rw [abs_zero, Int.log_zero_right]
    omega
  · have := (lt_power_iff nonzero e).mp small
    omega

theorem roundHalfEven_neg (x : ℚ) : roundHalfEven (-x) = -roundHalfEven x := by
  rcases (RoundHalfEven.abs_error_le x).lt_or_eq with near | half
  · refine RoundHalfEven.eq_of_near ?_
    rwa [Int.cast_neg, ← neg_add', abs_neg, ← sub_eq_add_neg]
  · obtain ⟨m, rfl⟩ : ∃ m : ℤ, x = m + 1 / 2 := by
      rcases (abs_eq (by norm_num)).mp half with above | below
      · exact ⟨roundHalfEven x, by linarith⟩
      · exact ⟨roundHalfEven x - 1, by push_cast; linarith⟩
    have mirrored : -((m : ℚ) + 1 / 2) = ((-m - 1 : ℤ) : ℚ) + 1 / 2 := by
      push_cast
      ring
    rw [mirrored, RoundHalfEven.of_half, RoundHalfEven.of_half]
    split <;> split <;> omega

theorem nearest_neg (x : ℚ) : nearest (-x) = -nearest x := by
  have same : ulp (-x) = ulp x := by rw [ulp, ulp, place, place, abs_neg]
  rw [nearest, nearest, same, neg_div, roundHalfEven_neg, Int.cast_neg, neg_mul]

/-- A running sum of whole numbers against a bound: it is exact up to the bound, and then stays above. -/
inductive Against (bound : ℕ) (sum : ℕ) : Number → Prop
  | exact (within : sum ≤ bound) : Against bound sum (.finite sum)
  | above (beyond : bound < sum) {x : ℚ} (large : ((bound + 1 : ℕ) : ℚ) ≤ x) : Against bound sum (.finite x)
  | overflow (beyond : bound < sum) : Against bound sum (.infinite false)

namespace Against

variable {bound sum n : ℕ} {x : ℚ} {w : Number}

theorem of_large (small : bound + 1 < 2 ^ 52) (beyond : bound < sum) (large : ((bound + 1 : ℕ) : ℚ) ≤ x) :
    Against bound sum (.round x) := by
  unfold Number.round
  split
  · have positive : ¬x < 0 := not_lt.mpr ((Nat.cast_nonneg _).trans large)
    rw [decide_eq_false positive]
    exact .overflow beyond
  · exact .above beyond (le_nearest_of_le small large)

theorem add (small : bound + 1 < 2 ^ 52) (against : Against bound sum w) (n : ℕ) :
    Against bound (sum + n) (w.add (.finite (nearest n))) := by
  have nonneg : 0 ≤ nearest (n : ℚ) := nearest_nonneg (Nat.cast_nonneg n)
  cases against with
  | overflow beyond => exact .overflow (by omega)
  | above beyond large => exact of_large small (by omega) (by linarith)
  | exact within =>
    rw [Number.add]
    by_cases whole : n ≤ bound + 1
    · rw [nearest_whole (by omega), ← Nat.cast_add]
      by_cases still : sum + n ≤ bound
      · rw [round_small (n := sum + n) (by omega) (by rw [abs_of_nonneg (Nat.cast_nonneg _)]), nearest_whole (by omega)]
        exact .exact still
      · exact of_large small (by omega) (by exact_mod_cast not_le.mp still)
    · have reached : ((bound + 1 : ℕ) : ℚ) ≤ nearest n :=
        le_nearest_of_le small (by exact_mod_cast (not_le.mp whole).le)
      have start : (0 : ℚ) ≤ sum := Nat.cast_nonneg sum
      exact of_large small (by omega) (by linarith)

theorem le_iff (against : Against bound sum w) : w.le (.finite bound) = true ↔ sum ≤ bound := by
  cases against with
  | overflow beyond => exact iff_of_false Bool.false_ne_true (not_le.mpr beyond)
  | above beyond large =>
    have less : (bound : ℚ) < ((bound + 1 : ℕ) : ℚ) := by exact_mod_cast Nat.lt_succ_self bound
    exact iff_of_false (by simpa [Number.le] using less.trans_le large) (not_le.mpr beyond)
  | exact within => exact iff_of_true (by simpa [Number.le] using within) within

end Against

/-- Whole numbers summed as doubles compare with a small bound as their sum does. -/
theorem sum_le_iff {bound : ℕ} (small : bound + 1 < 2 ^ 52) (counts : List ℕ) :
    ((counts.map fun n : ℕ => Number.finite (nearest n)).foldl Number.add (.finite 0)).le (.finite bound) = true ↔
      counts.sum ≤ bound := by
  have run {w : Number} {sum : ℕ} (against : Against bound sum w) :
      Against bound (sum + counts.sum) ((counts.map fun n : ℕ => Number.finite (nearest n)).foldl Number.add w) := by
    induction counts generalizing w sum with
    | nil => exact against
    | cons n counts ih =>
      rw [List.map_cons, List.foldl_cons, List.sum_cons, ← add_assoc]
      exact ih (against.add small n)
  have start : Against bound 0 (.finite 0) := by exact_mod_cast Against.exact (Nat.zero_le bound)
  have whole := (run start).le_iff
  rwa [zero_add] at whole

end Binary64
