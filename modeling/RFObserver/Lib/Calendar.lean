import Mathlib.Data.Nat.Find
import Mathlib.Tactic

/-! Dates of the proleptic Gregorian calendar, years 1 to 9999, and their
ordinals: day 1 is January 1 of year 1. -/

namespace Calendar

def isLeap (y : Nat) : Bool := y % 4 == 0 && (y % 100 != 0 || y % 400 == 0)

def daysInMonth (y : Nat) : Nat → Nat
  | 2 => if isLeap y then 29 else 28
  | 4 | 6 | 9 | 11 => 30
  | _ => 31

def daysInYear (y : Nat) : Nat := if isLeap y then 366 else 365

def daysBeforeYear (y : Nat) : Nat := (y - 1) * 365 + (y - 1) / 4 - (y - 1) / 100 + (y - 1) / 400

def daysBeforeMonth (y m : Nat) : Nat := ((List.range (m - 1)).map fun k => daysInMonth y (k + 1)).sum

theorem isLeap_iff {y : Nat} : isLeap y = true ↔ 4 ∣ y ∧ (100 ∣ y → 400 ∣ y) := by
  simp only [isLeap, Bool.and_eq_true, Bool.or_eq_true, beq_iff_eq, bne_iff_ne, Nat.dvd_iff_mod_eq_zero]
  tauto

theorem daysBeforeYear_succ {y : Nat} (positive : 1 ≤ y) : daysBeforeYear (y + 1) = daysBeforeYear y + daysInYear y := by
  obtain ⟨p, rfl⟩ := Nat.exists_eq_add_of_le' positive
  have centuries : p / 100 ≤ p / 4 := Nat.div_le_div_left (by omega) (by omega)
  have century : 100 ∣ p + 1 → 4 ∣ p + 1 := fun divides => Nat.dvd_trans (by omega) divides
  have era : 400 ∣ p + 1 → 100 ∣ p + 1 := fun divides => Nat.dvd_trans (by omega) divides
  simp only [daysBeforeYear, daysInYear, isLeap_iff, Nat.add_sub_cancel, Nat.succ_div]
  generalize p / 4 = fours, p / 100 = hundreds, p / 400 = eras at *
  by_cases four : 4 ∣ p + 1
  · by_cases hundred : 100 ∣ p + 1
    · by_cases eighth : 400 ∣ p + 1
      · simp only [four, hundred, eighth, if_true, implies_true, and_self]
        omega
      · simp only [four, hundred, eighth, if_true, if_false, true_imp_iff, and_false]
        omega
    · have eighth : ¬ 400 ∣ p + 1 := fun divides => hundred (era divides)
      simp only [four, hundred, eighth, if_true, if_false, false_imp_iff, and_self]
      omega
  · have hundred : ¬ 100 ∣ p + 1 := fun divides => four (century divides)
    have eighth : ¬ 400 ∣ p + 1 := fun divides => hundred (era divides)
    simp only [four, hundred, eighth, if_false, false_and]
    omega

theorem daysBeforeYear_lt {y z : Nat} (positive : 1 ≤ y) (before : y < z) :
    daysBeforeYear y + daysInYear y ≤ daysBeforeYear z := by
  induction z, before using Nat.le_induction with
  | base => exact (daysBeforeYear_succ positive).ge
  | succ z later ih =>
    rw [daysBeforeYear_succ (by omega)]
    omega

theorem daysBeforeMonth_succ (y : Nat) {m : Nat} (positive : 1 ≤ m) :
    daysBeforeMonth y (m + 1) = daysBeforeMonth y m + daysInMonth y m := by
  obtain ⟨k, rfl⟩ := Nat.exists_eq_add_of_le' positive
  simp [daysBeforeMonth, List.range_succ]

theorem daysBeforeMonth_lt (y : Nat) {m k : Nat} (positive : 1 ≤ m) (before : m < k) :
    daysBeforeMonth y m + daysInMonth y m ≤ daysBeforeMonth y k := by
  induction k, before using Nat.le_induction with
  | base => exact (daysBeforeMonth_succ y positive).ge
  | succ k later ih =>
    rw [daysBeforeMonth_succ y (by omega)]
    omega

theorem daysBeforeMonth_end (y : Nat) : daysBeforeMonth y 13 = daysInYear y := by
  unfold daysInYear
  cases leap : isLeap y <;> simp [daysBeforeMonth, daysInMonth, List.range_succ, leap]

/-- A date that exists. -/
structure Date where
  year : Nat
  month : Nat
  day : Nat
  years : 1 ≤ year ∧ year ≤ 9999
  months : 1 ≤ month ∧ month ≤ 12
  days : 1 ≤ day ∧ day ≤ daysInMonth year month
  deriving DecidableEq

namespace Date

variable {a b : Date}

def ordinal (d : Date) : Nat := daysBeforeYear d.year + daysBeforeMonth d.year d.month + d.day

/-- Earlier by year, month and day. -/
def Before (a b : Date) : Prop :=
  a.year < b.year ∨ a.year = b.year ∧ (a.month < b.month ∨ a.month = b.month ∧ a.day < b.day)

theorem in_month (d : Date) :
    daysBeforeMonth d.year d.month + d.day ≤ daysBeforeMonth d.year (d.month + 1) := by
  rw [daysBeforeMonth_succ _ d.months.1]
  have := d.days.2
  omega

theorem in_year (d : Date) : daysBeforeMonth d.year d.month + d.day ≤ daysInYear d.year := by
  have inMonth := d.in_month
  rw [← daysBeforeMonth_end]
  rcases Nat.lt_or_ge d.month 12 with earlier | last
  · have := daysBeforeMonth_lt d.year (Nat.le_add_left 1 d.month) (by omega : d.month + 1 < 13)
    omega
  · have : d.month = 12 := by have := d.months.2; omega
    rw [this] at inMonth ⊢
    exact inMonth

theorem Before.ordinal_lt (before : a.Before b) : a.ordinal < b.ordinal := by
  unfold ordinal
  have day := b.days.1
  rcases before with year | ⟨sameYear, month | ⟨sameMonth, earlier⟩⟩
  · have := daysBeforeYear_lt a.years.1 year
    have := a.in_year
    omega
  · have := daysBeforeMonth_lt a.year a.months.1 month
    have := a.days.2
    rw [← sameYear]
    omega
  · rw [← sameYear, ← sameMonth]
    omega

theorem eq_of_fields (year : a.year = b.year) (month : a.month = b.month) (day : a.day = b.day) : a = b := by
  cases a
  cases b
  simp only at year month day
  subst year month day
  rfl

theorem before_trichotomy (a b : Date) : a.Before b ∨ a = b ∨ b.Before a := by
  unfold Before
  rcases Nat.lt_trichotomy a.year b.year with less | year | more
  · exact Or.inl (Or.inl less)
  · rcases Nat.lt_trichotomy a.month b.month with less | month | more
    · exact Or.inl (Or.inr ⟨year, Or.inl less⟩)
    · rcases Nat.lt_trichotomy a.day b.day with less | day | more
      · exact Or.inl (Or.inr ⟨year, Or.inr ⟨month, less⟩⟩)
      · exact Or.inr (Or.inl (eq_of_fields year month day))
      · exact Or.inr (Or.inr (Or.inr ⟨year.symm, Or.inr ⟨month.symm, more⟩⟩))
    · exact Or.inr (Or.inr (Or.inr ⟨year.symm, Or.inl more⟩))
  · exact Or.inr (Or.inr (Or.inl more))

theorem ordinal_lt_iff : a.ordinal < b.ordinal ↔ a.Before b := by
  constructor
  · intro less
    rcases before_trichotomy a b with before | rfl | after
    · exact before
    · exact absurd less (lt_irrefl _)
    · exact absurd (less.trans after.ordinal_lt) (lt_irrefl _)
  · exact Before.ordinal_lt

theorem ordinal_injective (same : a.ordinal = b.ordinal) : a = b := by
  rcases before_trichotomy a b with before | equal | after
  · have := before.ordinal_lt
    omega
  · exact equal
  · have := after.ordinal_lt
    omega

end Date

def maxOrdinal : Nat := 3652059

/-- The year of day `n`, and the month of day `n` of a year. -/
def yearOf (n : Nat) : Nat := Nat.findGreatest (fun y => 1 ≤ y ∧ daysBeforeYear y < n) 9999
def monthOf (y n : Nat) : Nat := Nat.findGreatest (fun m => 1 ≤ m ∧ daysBeforeMonth y m < n) 12

theorem yearOf_spec {n : Nat} (positive : 1 ≤ n) (inRange : n ≤ maxOrdinal) :
    1 ≤ yearOf n ∧ yearOf n ≤ 9999 ∧ daysBeforeYear (yearOf n) < n ∧ n ≤ daysBeforeYear (yearOf n) + daysInYear (yearOf n) := by
  have first : 1 ≤ 1 ∧ daysBeforeYear 1 < n := ⟨le_rfl, positive⟩
  have found : 1 ≤ yearOf n ∧ daysBeforeYear (yearOf n) < n :=
    Nat.findGreatest_spec (P := fun y => 1 ≤ y ∧ daysBeforeYear y < n) (by omega : 1 ≤ 9999) first
  have bound : yearOf n ≤ 9999 := Nat.findGreatest_le 9999
  refine ⟨found.1, bound, found.2, ?_⟩
  rw [← daysBeforeYear_succ found.1]
  rcases Nat.lt_or_ge (yearOf n) 9999 with earlier | last
  · by_contra beyond
    exact Nat.findGreatest_is_greatest (Nat.lt_succ_self _) earlier ⟨by omega, Nat.not_le.mp beyond⟩
  · have : yearOf n = 9999 := by omega
    rw [this]
    exact inRange

theorem monthOf_spec (y : Nat) {n : Nat} (positive : 1 ≤ n) (inRange : n ≤ daysInYear y) :
    1 ≤ monthOf y n ∧ monthOf y n ≤ 12 ∧ daysBeforeMonth y (monthOf y n) < n ∧
      n ≤ daysBeforeMonth y (monthOf y n) + daysInMonth y (monthOf y n) := by
  have first : 1 ≤ 1 ∧ daysBeforeMonth y 1 < n := ⟨le_rfl, positive⟩
  have found : 1 ≤ monthOf y n ∧ daysBeforeMonth y (monthOf y n) < n :=
    Nat.findGreatest_spec (P := fun m => 1 ≤ m ∧ daysBeforeMonth y m < n) (by omega : 1 ≤ 12) first
  have bound : monthOf y n ≤ 12 := Nat.findGreatest_le 12
  refine ⟨found.1, bound, found.2, ?_⟩
  rw [← daysBeforeMonth_succ y found.1]
  rcases Nat.lt_or_ge (monthOf y n) 12 with earlier | last
  · by_contra beyond
    exact Nat.findGreatest_is_greatest (Nat.lt_succ_self _) earlier ⟨by omega, Nat.not_le.mp beyond⟩
  · have : monthOf y n = 12 := by omega
    rw [this, daysBeforeMonth_end]
    exact inRange

/-- The date of an ordinal, for those that have one. -/
def Date.ofOrdinal (n : Nat) (positive : 1 ≤ n) (inRange : n ≤ maxOrdinal) : Date where
  year := yearOf n
  month := monthOf (yearOf n) (n - daysBeforeYear (yearOf n))
  day := n - daysBeforeYear (yearOf n) - daysBeforeMonth (yearOf n) (monthOf (yearOf n) (n - daysBeforeYear (yearOf n)))
  years := by
    have year := yearOf_spec positive inRange
    omega
  months := by
    have year := yearOf_spec positive inRange
    have month := monthOf_spec (yearOf n) (n := n - daysBeforeYear (yearOf n)) (by omega) (by omega)
    omega
  days := by
    have year := yearOf_spec positive inRange
    have month := monthOf_spec (yearOf n) (n := n - daysBeforeYear (yearOf n)) (by omega) (by omega)
    omega

theorem Date.ordinal_ofOrdinal {n : Nat} (positive : 1 ≤ n) (inRange : n ≤ maxOrdinal) :
    (Date.ofOrdinal n positive inRange).ordinal = n := by
  have year := yearOf_spec positive inRange
  have month := monthOf_spec (yearOf n) (n := n - daysBeforeYear (yearOf n)) (by omega) (by omega)
  unfold ordinal ofOrdinal
  simp only
  omega

theorem Date.ordinal_pos (d : Date) : 1 ≤ d.ordinal := by
  have := d.days.1
  unfold ordinal
  omega

theorem Date.ordinal_le (d : Date) : d.ordinal ≤ maxOrdinal := by
  have inYear := d.in_year
  have last : daysBeforeYear 10000 = maxOrdinal := rfl
  have := daysBeforeYear_lt d.years.1 (by have := d.years.2; omega : d.year < 10000)
  unfold ordinal
  omega

end Calendar
