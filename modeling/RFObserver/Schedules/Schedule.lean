import Mathlib.Data.Rat.Floor
import Mathlib.Tactic

namespace RFObserver

def minEveryMs : Nat := 1000

/-- A schedule, one window or a repeating one. Times are epoch milliseconds. -/
structure Schedule where
  id : String
  startMs : ℤ
  durationMs : Nat
  everyMs : Option Nat
  count : Option Nat
  untilMs : Option ℤ
  label : String
  createdMs : ℤ
  spaced : ∀ every ∈ everyMs, minEveryMs ≤ every
  deriving DecidableEq

namespace Schedule

def runStartMs (s : Schedule) (k : Nat) : ℤ := s.startMs + k * (s.everyMs.getD 0 : Nat)

def totalRuns (s : Schedule) : Nat :=
  match s.everyMs, s.count, s.untilMs with
  | none, _, _ => 1
  | some _, some count, _ => count
  | some every, none, some untilMs => ⌈((untilMs - s.startMs : ℤ) : ℚ) / every⌉.toNat
  | some _, none, none => 0

/-- The first run starting at or after `t`, none past the last. -/
def firstRunFrom (s : Schedule) (t : ℤ) : Option Nat :=
  let k := if t ≤ s.startMs then some 0
    else s.everyMs.map fun every : Nat => ⌈((t - s.startMs : ℤ) : ℚ) / every⌉.toNat
  k.filter fun k => k < s.totalRuns

/-- How many runs start before `t`. -/
def dueBefore (s : Schedule) (t : ℤ) : Nat := (s.firstRunFrom t).getD s.totalRuns

/-- Runs starting in `[t0, t1)`, the newest `limit` of them. -/
def runsBetween (s : Schedule) (t0 t1 : ℤ) (limit : Nat) : List Nat :=
  match s.firstRunFrom t0 with
  | none => []
  | some first =>
    let stop := s.dueBefore t1
    let from_ := max first (stop - limit)
    List.range' from_ (stop - from_)

variable {s : Schedule}

theorem runStartMs_mono {j k : Nat} (ordered : j ≤ k) : s.runStartMs j ≤ s.runStartMs k := by
  unfold runStartMs
  have : (j : ℤ) * (s.everyMs.getD 0 : Nat) ≤ k * (s.everyMs.getD 0 : Nat) := by gcongr
  omega

theorem every_pos {every : Nat} (repeats : s.everyMs = some every) : 0 < every := by
  have := s.spaced every repeats
  unfold minEveryMs at this
  omega

theorem totalRuns_once (once : s.everyMs = none) : s.totalRuns = 1 := by
  unfold totalRuns
  rw [once]

/-- The runs start one after another. -/
theorem runStartMs_strict {j k : Nat} (ordered : j < k) (exists_ : k < s.totalRuns) :
    s.runStartMs j < s.runStartMs k := by
  cases repeats : s.everyMs with
  | none =>
    rw [totalRuns_once repeats] at exists_
    omega
  | some every =>
    have positive := every_pos repeats
    unfold runStartMs
    rw [repeats, Option.getD_some]
    have : (j : ℤ) * every < k * every := by gcongr
    omega

/-- Run `k` is not before `t` exactly from the ceiling on. -/
theorem ceil_le_iff {every : Nat} (positive : 0 < every) (t : ℤ) (k : Nat) :
    ⌈((t - s.startMs : ℤ) : ℚ) / every⌉.toNat ≤ k ↔ t ≤ s.startMs + k * every := by
  have rational : (0 : ℚ) < every := by exact_mod_cast positive
  rw [Int.toNat_le, Int.ceil_le, div_le_iff₀ rational]
  constructor
  · intro bound
    have : t - s.startMs ≤ k * every := by exact_mod_cast bound
    omega
  · intro bound
    have : t - s.startMs ≤ k * every := by omega
    exact_mod_cast this

theorem firstRunFrom_eq_some {t : ℤ} {k : Nat} :
    s.firstRunFrom t = some k ↔ k < s.totalRuns ∧ t ≤ s.runStartMs k ∧ ∀ j < k, s.runStartMs j < t := by
  unfold firstRunFrom
  simp only [Option.filter_eq_some_iff, decide_eq_true_eq]
  by_cases early : t ≤ s.startMs
  · rw [if_pos early]
    constructor
    · rintro ⟨zero, total⟩
      obtain rfl := Option.some.inj zero
      refine ⟨total, by simpa [runStartMs] using early, fun j before => absurd before (Nat.not_lt_zero j)⟩
    · rintro ⟨total, -, before⟩
      refine ⟨?_, total⟩
      by_contra later
      have zero := before 0 (by by_contra none; exact later (by rw [Nat.eq_zero_of_not_pos none]))
      simp only [runStartMs, Nat.cast_zero, zero_mul, add_zero] at zero
      omega
  · rw [if_neg early]
    cases repeats : s.everyMs with
    | none =>
      rw [Option.map_none]
      constructor
      · rintro ⟨nothing, -⟩
        cases nothing
      · rintro ⟨-, reached, -⟩
        simp only [runStartMs, repeats, Option.getD_none, Nat.cast_zero, mul_zero, add_zero] at reached
        omega
    | some every =>
      have positive := every_pos repeats
      have ceiling := fun k => ceil_le_iff (s := s) positive t k
      simp only [runStartMs, repeats, Option.getD_some, Option.map_some, Option.some.injEq]
      obtain ⟨c, cEq⟩ : ∃ c, ⌈((t - s.startMs : ℤ) : ℚ) / every⌉.toNat = c := ⟨_, rfl⟩
      simp only [cEq] at ceiling ⊢
      constructor
      · rintro ⟨rfl, total⟩
        refine ⟨total, (ceiling c).mp le_rfl, fun j before => ?_⟩
        by_contra late
        have := (ceiling j).mpr (not_lt.mp late)
        omega
      · rintro ⟨total, reached, before⟩
        refine ⟨le_antisymm ((ceiling k).mpr reached) ?_, total⟩
        by_contra less
        have := before c (not_le.mp less)
        have := (ceiling c).mp le_rfl
        omega

theorem firstRunFrom_eq_none {t : ℤ} :
    s.firstRunFrom t = none ↔ ∀ k < s.totalRuns, s.runStartMs k < t := by
  constructor
  · intro past k exists_
    by_contra late
    have some : ∃ j, j < s.totalRuns ∧ t ≤ s.runStartMs j := ⟨k, exists_, not_lt.mp late⟩
    have found : s.firstRunFrom t = Option.some (Nat.find some) := by
      refine firstRunFrom_eq_some.mpr ⟨(Nat.find_spec some).1, (Nat.find_spec some).2, fun j before => ?_⟩
      by_contra reached
      exact Nat.find_min some before ⟨before.trans (Nat.find_spec some).1, not_lt.mp reached⟩
    rw [past] at found
    cases found
  · intro past
    by_contra found
    obtain ⟨k, here⟩ := Option.ne_none_iff_exists'.mp found
    obtain ⟨exists_, reached, -⟩ := firstRunFrom_eq_some.mp here
    have := past k exists_
    omega

/-- The run after run `k`. -/
theorem firstRunFrom_next (k : Nat) (exists_ : k < s.totalRuns) :
    s.firstRunFrom (s.runStartMs k + 1) = if k + 1 < s.totalRuns then some (k + 1) else none := by
  split_ifs with more
  · refine firstRunFrom_eq_some.mpr ⟨more, ?_, fun j before => ?_⟩
    · have := runStartMs_strict (Nat.lt_add_one k) more
      omega
    · have := runStartMs_mono (s := s) (Nat.le_of_lt_succ before)
      omega
  · refine firstRunFrom_eq_none.mpr fun j below => ?_
    have := runStartMs_mono (s := s) (show j ≤ k by omega)
    omega

theorem lt_dueBefore {t : ℤ} {k : Nat} : k < s.dueBefore t ↔ k < s.totalRuns ∧ s.runStartMs k < t := by
  unfold dueBefore
  cases found : s.firstRunFrom t with
  | none =>
    rw [Option.getD_none]
    exact ⟨fun below => ⟨below, firstRunFrom_eq_none.mp found k below⟩, fun due => due.1⟩
  | some first =>
    obtain ⟨exists_, reached, before⟩ := firstRunFrom_eq_some.mp found
    rw [Option.getD_some]
    refine ⟨fun below => ⟨below.trans exists_, before k below⟩, fun due => ?_⟩
    by_contra late
    have := runStartMs_mono (s := s) (not_lt.mp late)
    omega

/-- The runs between are those that start there, but for the ones with
`limit` later ones among them. -/
theorem mem_runsBetween {t0 t1 : ℤ} {limit k : Nat} :
    k ∈ s.runsBetween t0 t1 limit ↔ t0 ≤ s.runStartMs k ∧ k < s.dueBefore t1 ∧ s.dueBefore t1 ≤ k + limit := by
  unfold runsBetween
  cases found : s.firstRunFrom t0 with
  | none =>
    simp only [List.not_mem_nil, false_iff]
    rintro ⟨reached, due, -⟩
    have := firstRunFrom_eq_none.mp found k (lt_dueBefore.mp due).1
    omega
  | some first =>
    obtain ⟨exists_, reached, before⟩ := firstRunFrom_eq_some.mp found
    have from_ : t0 ≤ s.runStartMs k ↔ first ≤ k := by
      refine ⟨fun start => ?_, fun later => reached.trans (runStartMs_mono later)⟩
      by_contra early
      have := before k (not_le.mp early)
      omega
    rw [from_]
    simp only [List.mem_range'_1]
    omega

theorem dueBefore_le {t : ℤ} : s.dueBefore t ≤ s.totalRuns := by
  by_contra more
  exact absurd (lt_dueBefore.mp (not_le.mp more)).1 (lt_irrefl _)

theorem runsBetween_sorted {t0 t1 : ℤ} {limit : Nat} : (s.runsBetween t0 t1 limit).Pairwise (· < ·) := by
  unfold runsBetween
  cases s.firstRunFrom t0 with
  | none => exact List.Pairwise.nil
  | some first => exact List.pairwise_lt_range'

/-- A limit keeps the newest of the runs between. -/
theorem runsBetween_newest {t0 t1 : ℤ} {limit : Nat} : s.runsBetween t0 t1 limit =
    (s.runsBetween t0 t1 s.totalRuns).drop ((s.runsBetween t0 t1 s.totalRuns).length - limit) := by
  have below := dueBefore_le (s := s) (t := t1)
  unfold runsBetween
  cases s.firstRunFrom t0 with
  | none => exact List.drop_nil.symm
  | some first =>
    dsimp only
    rw [List.length_range', List.drop_range']
    congr 1 <;> omega

end Schedule
end RFObserver
