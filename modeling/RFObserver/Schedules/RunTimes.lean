import RFObserver.Lib.Binary64
import RFObserver.Schedules.Schedule

/-! The instants of a schedule's runs, in the arithmetic of the source: sums are
of integers, quotients are doubles. -/

namespace RFObserver

def maxRuns : ℤ := 100000

/-- The fields of a schedule that say when its runs are, in epoch milliseconds. -/
structure RunTimes where
  startMs : ℤ
  durationMs : ℤ
  everyMs : Option ℤ
  count : Option ℤ
  untilMs : Option ℤ
  deriving DecidableEq

namespace RunTimes

def runStartMs (r : RunTimes) (k : ℤ) : ℤ := r.startMs + k * r.everyMs.getD 0

/-- none when the division or the assertion raises -/
def totalRuns (r : RunTimes) : Option ℤ :=
  match r.everyMs with
  | none => some 1
  | some every =>
    match r.count with
    | some count => some count
    | none => r.untilMs.bind fun u => (Binary64.div (u - r.startMs) every).map fun q => max 0 ⌈q⌉

/-- The first run starting at or after `t`; the inner none is past the last. -/
def firstRunFrom (r : RunTimes) (t : ℤ) : Option (Option ℤ) :=
  let within := fun k : ℤ => r.totalRuns.map fun total => if k < total then some k else none
  if t ≤ r.startMs then within 0
  else
    match r.everyMs with
    | none => some none
    | some every => (Binary64.div (t - r.startMs) every).bind fun q => within ⌈q⌉

/-- The integers from `a` on up to `b`, without `b`. -/
def range (a b : ℤ) : List ℤ := (List.range (b - a).toNat).map fun i : Nat => a + i

def runsBetween (r : RunTimes) (t0 t1 limit : ℤ) : Option (List ℤ) :=
  (r.firstRunFrom t0).bind fun first =>
    match first with
    | none => some []
    | some first =>
      (r.firstRunFrom t1).bind fun stop => r.totalRuns.map fun total =>
        let last := stop.getD total - 1
        if last < first then [] else range (max first (last - limit + 1)) (last + 1)

/-- What `parse_schedule` checks of a schedule's times; an instant read from a
text lies around the years 1 to 9999. -/
structure Checked (r : RunTimes) : Prop where
  low : -2 ^ 50 ≤ r.startMs
  high : ∀ u ∈ r.untilMs, u ≤ 2 ^ 50
  duration : 1 ≤ r.durationMs
  once : r.everyMs = none → r.count = none ∧ r.untilMs = none
  every : ∀ e ∈ r.everyMs, (minEveryMs : ℤ) ≤ e ∧ r.durationMs < e
  ends : r.everyMs ≠ none → (∃ c, 1 ≤ c ∧ r.count = some c ∧ r.untilMs = none) ∨
    (r.count = none ∧ ∃ u, r.startMs < u ∧ r.untilMs = some u)

/-- Run `k` exists: the only one, or before the count or the end. -/
def IsRun (r : RunTimes) (k : Nat) : Prop :=
  (r.everyMs = none → k = 0) ∧ (∀ c ∈ r.count, (k : ℤ) < c) ∧ ∀ u ∈ r.untilMs, r.runStartMs k < u

/-- `found` is the first run at or after `t`. -/
def FirstFrom (r : RunTimes) (t : ℤ) : Option ℤ → Prop
  | some k => ∃ n : Nat, k = n ∧ r.IsRun n ∧ t ≤ r.runStartMs n ∧ ∀ j : Nat, r.IsRun j → t ≤ r.runStartMs j → n ≤ j
  | none => ∀ n : Nat, r.IsRun n → r.runStartMs n < t

/-- The run arithmetic is exact at all times below `2 ^ 51`. -/
structure Exact (r : RunTimes) : Prop where
  total : ∃ n, r.totalRuns = some n ∧ ∀ k : Nat, (k : ℤ) < n ↔ r.IsRun k
  first : ∀ t < 2 ^ 51, ∃ found, r.firstRunFrom t = some found ∧ r.FirstFrom t found
  between : ∀ t0 < 2 ^ 51, ∀ t1 < 2 ^ 51, ∀ limit : Nat, ∃ all : List Nat, all.Pairwise (· < ·) ∧
    (∀ k, k ∈ all ↔ r.IsRun k ∧ t0 ≤ r.runStartMs k ∧ r.runStartMs k < t1) ∧
    r.runsBetween t0 t1 limit = some ((all.drop (all.length - limit)).map fun k : Nat => (k : ℤ))

variable {r : RunTimes}

theorem Checked.every_pos (checked : r.Checked) {e : ℤ} (repeats : r.everyMs = some e) : 0 < e := by
  have := (checked.every e repeats).1
  unfold minEveryMs at this
  omega

/-- The schedule of these times, with exact quotients. -/
def Checked.schedule (checked : r.Checked) : Schedule where
  id := ""
  startMs := r.startMs
  durationMs := r.durationMs.toNat
  everyMs := r.everyMs.map Int.toNat
  count := r.count.map Int.toNat
  untilMs := r.untilMs
  label := ""
  createdMs := 0
  spaced := fun every repeats => by
    obtain ⟨e, member, rfl⟩ := Option.map_eq_some_iff.mp repeats
    have := (checked.every e member).1
    omega

theorem Checked.schedule_start (checked : r.Checked) (k : Nat) : checked.schedule.runStartMs k = r.runStartMs k := by
  change r.startMs + k * ((r.everyMs.map Int.toNat).getD 0 : Nat) = r.startMs + k * r.everyMs.getD 0
  cases repeats : r.everyMs with
  | none => simp
  | some e =>
    have := checked.every_pos repeats
    simp only [Option.map_some, Option.getD_some]
    rw [Int.toNat_of_nonneg this.le]

/-- The ceiling with an interval given as a natural number. -/
theorem ceil_toNat {e : ℤ} (positive : 0 < e) (a : ℤ) : ⌈(a : ℚ) / (e.toNat : Nat)⌉ = ⌈(a : ℚ) / e⌉ := by
  have same : ((e.toNat : Nat) : ℚ) = e := by
    rw [← Int.cast_natCast, Int.toNat_of_nonneg positive.le]
  rw [same]

theorem Checked.isRun_iff (checked : r.Checked) (k : Nat) : r.IsRun k ↔ k < checked.schedule.totalRuns := by
  cases repeats : r.everyMs with
  | none =>
    obtain ⟨noCount, noUntil⟩ := checked.once repeats
    rw [checked.schedule.totalRuns_once (by simp [schedule, repeats])]
    simp [IsRun, repeats, noCount, noUntil]
  | some e =>
    have positive := checked.every_pos repeats
    rcases checked.ends (by simp [repeats]) with ⟨c, counted, isCount, noUntil⟩ | ⟨noCount, u, later, isUntil⟩
    · have total : checked.schedule.totalRuns = c.toNat := by
        simp [Schedule.totalRuns, schedule, repeats, isCount]
      rw [total]
      simp only [IsRun, repeats, isCount, noUntil, reduceCtorEq, false_implies, true_and, Option.mem_some_iff,
        forall_eq', Option.not_mem_none, implies_true, and_true]
      omega
    · have total : checked.schedule.totalRuns = ⌈((u - r.startMs : ℤ) : ℚ) / (e.toNat : Nat)⌉.toNat := by
        simp [Schedule.totalRuns, schedule, repeats, noCount, isUntil]
      have turn : ⌈((u - checked.schedule.startMs : ℤ) : ℚ) / (e.toNat : Nat)⌉.toNat ≤ k ↔
          u ≤ checked.schedule.startMs + k * (e.toNat : Nat) := Schedule.ceil_le_iff (by omega) u k
      have cast : ((e.toNat : Nat) : ℤ) = e := Int.toNat_of_nonneg positive.le
      rw [total, ← not_le]
      change _ ↔ ¬ ⌈((u - checked.schedule.startMs : ℤ) : ℚ) / (e.toNat : Nat)⌉.toNat ≤ k
      rw [turn, cast, not_le]
      simp only [IsRun, repeats, noCount, isUntil, reduceCtorEq, false_implies, true_and, Option.mem_some_iff,
        forall_eq', Option.not_mem_none, implies_true, runStartMs, Option.getD_some]
      rfl

/-- No quotient of the number of runs is rounded to 0. -/
def CountNormal (r : RunTimes) : Prop := ∀ e ∈ r.everyMs, ∀ u ∈ r.untilMs, e < (u - r.startMs) * 2 ^ 1075

theorem Checked.total_eq (checked : r.Checked) (normal : r.CountNormal) :
    r.totalRuns = some (checked.schedule.totalRuns : ℤ) := by
  cases repeats : r.everyMs with
  | none =>
    rw [checked.schedule.totalRuns_once (by simp [schedule, repeats])]
    simp [totalRuns, repeats]
  | some e =>
    have positive := checked.every_pos repeats
    rcases checked.ends (by simp [repeats]) with ⟨c, counted, isCount, noUntil⟩ | ⟨noCount, u, later, isUntil⟩
    · have total : checked.schedule.totalRuns = c.toNat := by
        simp [Schedule.totalRuns, schedule, repeats, isCount]
      rw [total, Int.toNat_of_nonneg (by omega)]
      simp [totalRuns, repeats, isCount]
    · have total : checked.schedule.totalRuns = ⌈((u - r.startMs : ℤ) : ℚ) / (e.toNat : Nat)⌉.toNat := by
        simp [Schedule.totalRuns, schedule, repeats, noCount, isUntil]
      have low := checked.low
      have high := checked.high u isUntil
      have small : u - r.startMs < 2 ^ 53 := by omega
      have large := mt (Binary64.tiny_iff positive).mp (not_le.mpr (normal e repeats u isUntil))
      have exactly := Binary64.ceil_nearest (a := u - r.startMs) (by omega) small positive (not_le.mp large)
      rw [total, ceil_toNat positive, Int.toNat_eq_max, max_comm]
      simp only [totalRuns, repeats, noCount, isUntil, Option.bind_some, Option.map_some,
        Binary64.div_small (by omega) small positive, exactly]

/-- A schedule to an end so far below its interval counts no runs. -/
theorem Checked.total_tiny (checked : r.Checked) {e u : ℤ} (repeats : r.everyMs = some e) (isUntil : r.untilMs = some u)
    (tiny : (u - r.startMs) * 2 ^ 1075 ≤ e) : r.totalRuns = some 0 := by
  have positive := checked.every_pos repeats
  rcases checked.ends (by simp [repeats]) with ⟨c, counted, isCount, noUntil⟩ | ⟨noCount, u', later, isUntil'⟩
  · rw [isUntil] at noUntil
    cases noUntil
  obtain rfl := Option.some.inj (isUntil.symm.trans isUntil')
  have low := checked.low
  have high := checked.high u isUntil
  have small : u - r.startMs < 2 ^ 53 := by omega
  have ratPos : (0 : ℚ) ≤ ((u - r.startMs : ℤ) : ℚ) / e :=
    div_nonneg (by exact_mod_cast (by omega : 0 ≤ u - r.startMs)) (by exact_mod_cast positive.le)
  simp only [totalRuns, repeats, noCount, isUntil, Option.bind_some, Option.map_some,
    Binary64.div_small (by omega) small positive, Binary64.nearest_tiny ratPos ((Binary64.tiny_iff positive).mpr tiny),
    Int.ceil_zero, max_self]

/-- Where the number of runs is rounded to 0, run 0 is the only one. -/
theorem Checked.tiny (checked : r.Checked) (tiny : ¬ r.CountNormal) :
    r.totalRuns = some 0 ∧ (∀ k : Nat, r.IsRun k ↔ k = 0) ∧ r.everyMs ≠ none := by
  unfold CountNormal at tiny
  push Not at tiny
  obtain ⟨e, repeats, u, isUntil, close⟩ := tiny
  have positive := checked.every_pos repeats
  refine ⟨checked.total_tiny repeats isUntil close, fun k => ?_, by rw [Option.mem_def.mp repeats]; simp⟩
  rcases checked.ends (by rw [Option.mem_def.mp repeats]; simp) with ⟨-, -, -, noUntil⟩ | ⟨noCount, u', later, isUntil'⟩
  · cases noUntil.symm.trans isUntil
  obtain rfl := Option.some.inj (isUntil'.symm.trans isUntil)
  have span : u' - r.startMs ≤ e := by
    refine le_trans (le_mul_of_one_le_right (by omega) ?_) close
    exact one_le_pow₀ (by norm_num)
  simp only [IsRun, Option.mem_def.mp repeats, noCount, isUntil', reduceCtorEq, false_implies, true_and,
    Option.mem_some_iff, forall_eq', Option.not_mem_none, implies_true, runStartMs, Option.getD_some]
  constructor
  · intro before
    by_contra more
    have : e ≤ k * e := le_mul_of_one_le_left positive.le (by omega)
    omega
  · rintro rfl
    rw [Nat.cast_zero, zero_mul]
    omega

theorem Checked.total_some (checked : r.Checked) : ∃ n, r.totalRuns = some n := by
  by_cases normal : r.CountNormal
  · exact ⟨_, checked.total_eq normal⟩
  · exact ⟨0, (checked.tiny normal).1⟩

/-- The runs found are below the number of runs. -/
theorem firstRunFrom_range {t k n : ℤ} (checked : r.Checked) (found : r.firstRunFrom t = some (some k))
    (counted : r.totalRuns = some n) : 0 ≤ k ∧ k < n := by
  have within : ∀ j : ℤ, (r.totalRuns.map fun total => if j < total then some j else none) = some (some k) → j = k ∧ k < n := by
    intro j here
    rw [counted, Option.map_some, Option.some.injEq] at here
    split_ifs at here with below
    obtain rfl := Option.some.inj here
    exact ⟨rfl, below⟩
  unfold firstRunFrom at found
  dsimp only at found
  split_ifs at found with early
  · obtain ⟨rfl, below⟩ := within 0 found
    exact ⟨le_rfl, below⟩
  · cases repeats : r.everyMs with
    | none => simp [repeats] at found
    | some e =>
      rw [repeats] at found
      obtain ⟨q, quotient, found⟩ := Option.bind_eq_some_iff.mp found
      obtain ⟨rfl, below⟩ := within ⌈q⌉ found
      refine ⟨Int.ceil_nonneg ?_, below⟩
      unfold Binary64.div at quotient
      split_ifs at quotient
      obtain rfl := Option.some.inj quotient
      have positive := checked.every_pos repeats
      refine Binary64.nearest_nonneg (div_nonneg ?_ (by exact_mod_cast positive.le))
      exact_mod_cast (by omega : 0 ≤ t - r.startMs)

/-- The first run from `t`, as long as no quotient is rounded to 0. -/
theorem Checked.first_eq (checked : r.Checked) (normal : r.CountNormal) {t : ℤ} (small : t - r.startMs < 2 ^ 53)
    (quotient : ∀ e ∈ r.everyMs, r.startMs < t → e < (t - r.startMs) * 2 ^ 1075) :
    r.firstRunFrom t = some ((checked.schedule.firstRunFrom t).map fun k : Nat => (k : ℤ)) := by
  have total := checked.total_eq normal
  have within : ∀ k : Nat, (if (k : ℤ) < checked.schedule.totalRuns then some (k : ℤ) else none) =
      ((some k).filter fun k => k < checked.schedule.totalRuns).map fun k : Nat => (k : ℤ) := by
    intro k
    simp only [Option.filter_some, Nat.cast_lt, decide_eq_true_eq]
    split_ifs <;> rfl
  unfold firstRunFrom Schedule.firstRunFrom
  change (if t ≤ r.startMs then _ else _) = some (((if t ≤ r.startMs then some 0 else _) : Option Nat).filter _ |>.map _)
  by_cases early : t ≤ r.startMs
  · rw [if_pos early, if_pos early, total]
    exact congrArg some (within 0)
  · rw [if_neg early, if_neg early]
    change _ = some ((Option.filter _ ((r.everyMs.map Int.toNat).map
      fun every : Nat => ⌈((t - r.startMs : ℤ) : ℚ) / every⌉.toNat)).map _)
    cases repeats : r.everyMs with
    | none => rfl
    | some e =>
      have positive := checked.every_pos repeats
      have large := mt (Binary64.tiny_iff positive).mp (not_le.mpr (quotient e repeats (not_le.mp early)))
      have exactly := Binary64.ceil_nearest (a := t - r.startMs) (by omega) small positive (not_le.mp large)
      have nonneg : 0 ≤ ⌈((t - r.startMs : ℤ) : ℚ) / e⌉ := by
        refine Int.ceil_nonneg (div_nonneg ?_ (by exact_mod_cast positive.le))
        exact_mod_cast (by omega : 0 ≤ t - r.startMs)
      simp only [Option.map_some, Binary64.div_small (by omega) small positive, Option.bind_some, exactly, total,
        ceil_toNat positive]
      rw [← within, Int.toNat_of_nonneg nonneg]

/-- A quotient rounded to 0 takes run 0 for the first one. -/
theorem Checked.first_tiny (checked : r.Checked) {e t total : ℤ} (repeats : r.everyMs = some e)
    (counted : r.totalRuns = some total) (positive : 0 < total) (later : r.startMs < t) (small : t - r.startMs < 2 ^ 53)
    (tiny : (t - r.startMs) * 2 ^ 1075 ≤ e) : r.firstRunFrom t = some (some 0) := by
  have ePos := checked.every_pos repeats
  have ratPos : (0 : ℚ) ≤ ((t - r.startMs : ℤ) : ℚ) / e :=
    div_nonneg (by exact_mod_cast (by omega : 0 ≤ t - r.startMs)) (by exact_mod_cast ePos.le)
  unfold firstRunFrom
  rw [if_neg (not_le.mpr later)]
  simp only [repeats, Binary64.div_small (by omega) small ePos,
    Binary64.nearest_tiny ratPos ((Binary64.tiny_iff ePos).mpr tiny), Option.bind_some, Int.ceil_zero, counted,
    Option.map_some, if_pos positive]

/-- The intervals that no quotient of times below `2 ^ 51` by them is rounded
to 0: those below `2 ^ 1075`, or any interval where no such time comes after the
start and the end is far enough. -/
def Ordinary (r : RunTimes) : Prop :=
  ∀ e ∈ r.everyMs, e < 2 ^ 1075 ∨ (2 ^ 51 ≤ r.startMs + 1 ∧ ∀ u ∈ r.untilMs, e < (u - r.startMs) * 2 ^ 1075)

theorem Checked.isRun_zero (checked : r.Checked) : r.IsRun 0 := by
  refine ⟨fun _ => rfl, fun c counted => ?_, fun u isUntil => ?_⟩
  · cases repeats : r.everyMs with
    | none => cases (checked.once repeats).1.symm.trans counted
    | some e =>
      rcases checked.ends (by simp [repeats]) with ⟨c', positive, isCount, -⟩ | ⟨noCount, -⟩
      · cases isCount.symm.trans counted
        rw [Nat.cast_zero]
        omega
      · cases noCount.symm.trans counted
  · cases repeats : r.everyMs with
    | none => cases (checked.once repeats).2.symm.trans isUntil
    | some e =>
      rcases checked.ends (by simp [repeats]) with ⟨-, -, -, noUntil⟩ | ⟨-, u', later, isUntil'⟩
      · cases noUntil.symm.trans isUntil
      · cases isUntil'.symm.trans isUntil
        simpa [runStartMs] using later

theorem Checked.ordinary_of_exact (checked : r.Checked) (exactly : r.Exact) : r.Ordinary := by
  intro e repeats
  by_contra huge
  obtain ⟨large, tiny⟩ := not_or.mp huge
  obtain ⟨total, counted, runs⟩ := exactly.total
  have positive : 0 < total := (runs 0).mpr checked.isRun_zero
  by_cases next : r.startMs + 1 < 2 ^ 51
  · have misses := checked.first_tiny (t := r.startMs + 1) repeats counted positive (by omega) (by omega) (by omega)
    obtain ⟨found, first, least⟩ := exactly.first _ next
    obtain rfl := Option.some.inj (misses.symm.trans first)
    obtain ⟨n, zero, -, reached, -⟩ := least
    obtain rfl : n = 0 := by omega
    simp only [runStartMs, Nat.cast_zero, zero_mul, add_zero] at reached
    omega
  · have far : ¬ ∀ u ∈ r.untilMs, e < (u - r.startMs) * 2 ^ 1075 := fun all => tiny ⟨by omega, all⟩
    obtain ⟨u, isUntil, close⟩ : ∃ u ∈ r.untilMs, (u - r.startMs) * 2 ^ 1075 ≤ e := by
      by_contra none
      exact far fun u isUntil => not_le.mp fun close => none ⟨u, isUntil, close⟩
    cases (checked.total_tiny repeats isUntil close).symm.trans counted
    omega

theorem Ordinary.count_normal (ordinary : r.Ordinary) (checked : r.Checked) : r.CountNormal := by
  intro e repeats u isUntil
  rcases ordinary e repeats with small | ⟨-, far⟩
  · rcases checked.ends (by rw [Option.mem_def.mp repeats]; simp) with ⟨-, -, -, noUntil⟩ | ⟨-, u', later, isUntil'⟩
    · cases noUntil.symm.trans isUntil
    · obtain rfl := Option.some.inj (isUntil'.symm.trans isUntil)
      have span : 1 ≤ u' - r.startMs := by omega
      refine small.trans_le (le_mul_of_one_le_left ?_ span)
      positivity
  · exact far u isUntil

theorem Ordinary.first_eq (ordinary : r.Ordinary) (checked : r.Checked) {t : ℤ} (small : t < 2 ^ 51) :
    r.firstRunFrom t = some ((checked.schedule.firstRunFrom t).map fun k : Nat => (k : ℤ)) := by
  have low := checked.low
  refine checked.first_eq (ordinary.count_normal checked) (by omega) fun e repeats later => ?_
  rcases ordinary e repeats with below | ⟨past, -⟩
  · have span : 1 ≤ t - r.startMs := by omega
    refine below.trans_le (le_mul_of_one_le_left ?_ span)
    positivity
  · omega

theorem Checked.first_from (checked : r.Checked) (t : ℤ) :
    r.FirstFrom t ((checked.schedule.firstRunFrom t).map fun k : Nat => (k : ℤ)) := by
  cases found : checked.schedule.firstRunFrom t with
  | none =>
    intro k isRun
    rw [← checked.schedule_start]
    exact Schedule.firstRunFrom_eq_none.mp found k ((checked.isRun_iff k).mp isRun)
  | some k =>
    obtain ⟨exists_, reached, before⟩ := Schedule.firstRunFrom_eq_some.mp found
    refine ⟨k, rfl, (checked.isRun_iff k).mpr exists_, checked.schedule_start k ▸ reached, fun j _ also => ?_⟩
    by_contra earlier
    have := before j (not_le.mp earlier)
    rw [checked.schedule_start] at this
    omega

theorem range_eq (a n : Nat) : range (a : ℤ) (a + n : Nat) = (List.range' a n).map fun k : Nat => (k : ℤ) := by
  have width : (((a + n : Nat) : ℤ) - a).toNat = n := by omega
  rw [range, List.range'_eq_map_range, List.map_map, width]
  refine List.map_congr_left fun i _ => ?_
  simp

theorem Ordinary.between_eq (ordinary : r.Ordinary) (checked : r.Checked) {t0 t1 : ℤ} (small0 : t0 < 2 ^ 51)
    (small1 : t1 < 2 ^ 51) (limit : Nat) :
    r.runsBetween t0 t1 limit = some ((checked.schedule.runsBetween t0 t1 limit).map fun k : Nat => (k : ℤ)) := by
  unfold runsBetween Schedule.runsBetween
  rw [ordinary.first_eq checked small0, ordinary.first_eq checked small1,
    checked.total_eq (ordinary.count_normal checked)]
  cases checked.schedule.firstRunFrom t0 with
  | none => rfl
  | some first =>
    have stop : ((checked.schedule.firstRunFrom t1).map fun k : Nat => (k : ℤ)).getD checked.schedule.totalRuns =
        checked.schedule.dueBefore t1 := by
      unfold Schedule.dueBefore
      cases checked.schedule.firstRunFrom t1 <;> rfl
    simp only [Option.map_some, Option.bind_some, stop, sub_add_cancel]
    obtain ⟨due, dueEq⟩ : ∃ due, checked.schedule.dueBefore t1 = due := ⟨_, rfl⟩
    rw [dueEq]
    by_cases empty : due ≤ first
    · rw [if_pos (by omega), show due - max first (due - limit) = 0 by omega]
      rfl
    · rw [if_neg (by omega), ← range_eq]
      congr 2 <;> omega

theorem Ordinary.exact (ordinary : r.Ordinary) (checked : r.Checked) : r.Exact where
  total := ⟨_, checked.total_eq (ordinary.count_normal checked), fun k => by rw [checked.isRun_iff]; exact Nat.cast_lt⟩
  first t small := ⟨_, ordinary.first_eq checked small, checked.first_from t⟩
  between t0 small0 t1 small1 limit := by
    refine ⟨checked.schedule.runsBetween t0 t1 checked.schedule.totalRuns, ?_, fun k => ?_, ?_⟩
    · exact Schedule.runsBetween_sorted
    · have below : checked.schedule.dueBefore t1 ≤ checked.schedule.totalRuns := Schedule.dueBefore_le
      rw [Schedule.mem_runsBetween, Schedule.lt_dueBefore, checked.isRun_iff, checked.schedule_start]
      constructor
      · rintro ⟨reached, ⟨isRun, before⟩, -⟩
        exact ⟨isRun, reached, before⟩
      · rintro ⟨isRun, reached, before⟩
        exact ⟨reached, ⟨isRun, before⟩, by omega⟩
    · rw [ordinary.between_eq checked small0 small1, Schedule.runsBetween_newest]

/-- The run arithmetic is exact just where no quotient is rounded to 0. -/
theorem Checked.exact_iff_ordinary (checked : r.Checked) : r.Exact ↔ r.Ordinary :=
  ⟨checked.ordinary_of_exact, fun ordinary => ordinary.exact checked⟩

end RunTimes
end RFObserver
