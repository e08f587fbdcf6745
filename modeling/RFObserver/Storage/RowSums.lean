import RFObserver.Lib.Tally
import RFObserver.Lib.Upsert
import RFObserver.Storage.TierStore

namespace RFObserver
open Tally

section Periods

variable {level : Nat} (positive : 0 < level)
include positive

theorem bucketEpoch_le (epoch : ℚ) : (bucketEpoch level epoch : ℚ) ≤ epoch := by
  have pos : (0 : ℚ) < level := by exact_mod_cast positive
  have below := mul_le_mul_of_nonneg_right (Int.floor_le (epoch / level)) pos.le
  rw [div_mul_cancel₀ _ pos.ne'] at below
  simpa [bucketEpoch] using below

theorem lt_bucketEpoch_add (epoch : ℚ) : epoch < (bucketEpoch level epoch : ℚ) + level := by
  have pos : (0 : ℚ) < level := by exact_mod_cast positive
  have above := mul_lt_mul_of_pos_right (Int.lt_floor_add_one (epoch / level)) pos
  rw [div_mul_cancel₀ _ pos.ne', add_mul, one_mul] at above
  simpa [bucketEpoch] using above

omit positive in
theorem dvd_bucketEpoch (epoch : ℚ) : (level : ℤ) ∣ bucketEpoch level epoch := dvd_mul_left ..

theorem bucketEpoch_aligned {bucket : ℤ} (aligned : (level : ℤ) ∣ bucket) : bucketEpoch level bucket = bucket := by
  obtain ⟨k, rfl⟩ := aligned
  have pos : (level : ℚ) ≠ 0 := by exact_mod_cast positive.ne'
  simp [bucketEpoch, mul_comm, mul_div_assoc, div_self pos]

theorem bucketEpoch_mono {epoch epoch' : ℚ} (le : epoch ≤ epoch') :
    bucketEpoch level epoch ≤ bucketEpoch level epoch' := by
  have pos : (0 : ℚ) < level := by exact_mod_cast positive
  have floors := Int.floor_le_floor (div_le_div_of_nonneg_right le pos.le)
  exact mul_le_mul_of_nonneg_right floors (by positivity)

theorem le_bucketEpoch {bucket : ℤ} (aligned : (level : ℤ) ∣ bucket) (epoch : ℚ) :
    bucket ≤ bucketEpoch level epoch ↔ (bucket : ℚ) ≤ epoch := by
  constructor
  · intro le
    exact le_trans (by exact_mod_cast le) (bucketEpoch_le positive epoch)
  · intro le
    exact bucketEpoch_aligned positive aligned ▸ bucketEpoch_mono positive le

omit positive in
/-- Different periods are whole periods apart. -/
theorem add_le_of_lt {bucket bucket' : ℤ} (aligned : (level : ℤ) ∣ bucket) (aligned' : (level : ℤ) ∣ bucket')
    (lt : bucket < bucket') : bucket + level ≤ bucket' := by
  have gap := Int.le_of_dvd (by omega) (dvd_sub aligned' aligned)
  omega

theorem bucketEpoch_eq {bucket : ℤ} (aligned : (level : ℤ) ∣ bucket) {epoch : ℚ} (le : (bucket : ℚ) ≤ epoch)
    (lt : epoch < (bucket + level : ℤ)) : bucketEpoch level epoch = bucket := by
  refine le_antisymm (not_lt.mp fun later => ?_) ((le_bucketEpoch positive aligned epoch).mpr le)
  have past := add_le_of_lt aligned (dvd_bucketEpoch epoch) later
  rw [le_bucketEpoch positive (dvd_add_self_right.mpr aligned)] at past
  exact absurd lt (not_lt.mpr past)

end Periods

instance zipWith_add_associative : Std.Associative (List.zipWith fun a b : ℚ => a + b) where
  assoc p q r := by
    induction p generalizing q r with
    | nil => rfl
    | cons a p ih =>
      cases q with
      | nil => rfl
      | cons b q =>
        cases r with
        | nil => rfl
        | cons c r => simp [add_assoc, ih]

instance zipWith_add_commutative : Std.Commutative (List.zipWith fun a b : ℚ => a + b) where
  comm p q := by rw [List.zipWith_comm]; simp only [add_comm]

/-- PSD rows added up bin by bin, none of no rows. -/
abbrev addRows : Option (List ℚ) → Option (List ℚ) → Option (List ℚ) := Option.merge (List.zipWith (· + ·))

namespace AvgWindow

def psdCount (w : AvgWindow) : Nat := if w.powers.isSome then 1 else 0

/-- A window without a maximum is left out of the floor. -/
def floorAvg (w : AvgWindow) : Option ℚ := w.pwrMax.map fun _ => w.pwrAvg

def range (w : AvgWindow) : Option (ℚ × ℚ) := w.powers.bind fun p => colorRange p colorBins

/-- All PSD rows of some windows have one width. -/
def Wide (width : Nat) (ws : List AvgWindow) : Prop := ∀ w ∈ ws, ∀ p ∈ w.powers, p.length = width

theorem Wide.left {width : Nat} {ws ws' : List AvgWindow} (wide : Wide width (ws ++ ws')) : Wide width ws :=
  fun w member => wide w (List.mem_append_left _ member)

theorem Wide.right {width : Nat} {ws ws' : List AvgWindow} (wide : Wide width (ws ++ ws')) : Wide width ws' :=
  fun w member => wide w (List.mem_append_right _ member)

/-- Rows of one width add up to a row of that width. -/
theorem Wide.tally {width : Nat} {ws : List AvgWindow} (wide : Wide width ws) :
    ∀ p ∈ tally addRows none powers ws, p.length = width := by
  induction ws with
  | nil => exact fun p isSum => by cases isSum
  | cons w ws ih =>
    have later := ih fun w' member => wide w' (List.mem_cons_of_mem _ member)
    have first := wide w (List.mem_cons_self ..)
    rw [tally_cons]
    cases row : w.powers with
    | none =>
      rw [id_op addRows none]
      exact later
    | some p =>
      rw [row] at first
      cases sum : Tally.tally addRows none powers ws with
      | none => exact first
      | some q =>
        rw [sum] at later
        intro _ isSum
        obtain rfl := Option.some.inj isSum
        simp [first p rfl, later q rfl]

end AvgWindow

namespace TierRow
open AvgWindow

/-- A row of a tier is what its windows give: they are of its period and key,
its sums are theirs, and so is its PSD sum when their PSD rows have one width. -/
structure Exact (level : Nat) (r : TierRow) : Prop where
  tier : r.levelSec = level
  aligned : (level : ℤ) ∣ r.bucketEpoch
  period : ∀ w ∈ r.windows, RFObserver.bucketEpoch level w.startTime = r.bucketEpoch
  key : ∀ w ∈ r.windows, w.tuning.key = r.tuning.key
  n : r.n = r.windows.length
  sumAvg : r.sumAvg = tally (· + ·) 0 pwrAvg r.windows
  sumMedian : r.sumMedian = tally (· + ·) 0 pwrMedian r.windows
  sumStd : r.sumStd = tally (· + ·) 0 pwrStd r.windows
  sumKurtosis : r.sumKurtosis = tally (· + ·) 0 kurtosis r.windows
  maxMax : r.maxMax = tally (Option.merge max) none pwrMax r.windows
  minAvg : r.minAvg = tally (Option.merge min) none floorAvg r.windows
  psdMin : r.psdMin = tally (Option.merge min) none (fun w => w.range.map Prod.fst) r.windows
  psdMax : r.psdMax = tally (Option.merge max) none (fun w => w.range.map Prod.snd) r.windows
  psd : ∀ width, Wide width r.windows → r.nPsd = tally (· + ·) 0 psdCount r.windows ∧
    r.psdSum = tally addRows none powers r.windows
  empty : r.nPsd = 0 ↔ r.psdSum = none

theorem Exact.create {level : Nat} {bucket : ℤ} (aligned : (level : ℤ) ∣ bucket) (tuning : Tuning) :
    (create level bucket tuning).Exact level where
  tier := rfl
  aligned := aligned
  period := List.forall_mem_nil _
  key := List.forall_mem_nil _
  n := rfl
  sumAvg := rfl
  sumMedian := rfl
  sumStd := rfl
  sumKurtosis := rfl
  maxMax := rfl
  minAvg := rfl
  psdMin := rfl
  psdMax := rfl
  psd _ _ := ⟨rfl, rfl⟩
  empty := ⟨fun _ => rfl, fun _ => rfl⟩

theorem addPsd_empty {psdSum : Option (List ℚ)} {nPsd : Nat} (empty : nPsd = 0 ↔ psdSum = none) (p : List ℚ) :
    (addPsd psdSum nPsd p).2 = 0 ↔ (addPsd psdSum nPsd p).1 = none := by
  unfold addPsd
  cases psdSum with
  | none => simp
  | some sum =>
    have some : nPsd ≠ 0 := fun zero => by cases empty.mp zero
    simp only
    split <;> simp [some]

/-- A row of the same width is added. -/
theorem addPsd_wide {psdSum : Option (List ℚ)} {nPsd : Nat} (empty : nPsd = 0 ↔ psdSum = none) {p : List ℚ}
    (wide : ∀ sum ∈ psdSum, sum.length = p.length) :
    addPsd psdSum nPsd p = (addRows psdSum (some p), nPsd + 1) := by
  unfold addPsd
  cases psdSum with
  | none => simp [empty.mpr rfl]
  | some sum =>
    simp only
    rw [if_pos (wide sum rfl)]
    rfl

theorem Exact.addWindow {level : Nat} {r : TierRow} (exact : r.Exact level) {w : AvgWindow}
    (period : RFObserver.bucketEpoch level w.startTime = r.bucketEpoch) (key : w.tuning.key = r.tuning.key) :
    (r.addWindow w).Exact level where
  tier := exact.tier
  aligned := exact.aligned
  period := fun v member => by
    rcases List.mem_append.mp member with before | last
    · exact exact.period v before
    · obtain rfl := List.mem_singleton.mp last
      exact period
  key := fun v member => by
    rcases List.mem_append.mp member with before | last
    · exact exact.key v before
    · obtain rfl := List.mem_singleton.mp last
      exact key
  n := by simp [TierRow.addWindow, exact.n]
  sumAvg := by simp only [TierRow.addWindow, exact.sumAvg, tally_concat]
  sumMedian := by simp only [TierRow.addWindow, exact.sumMedian, tally_concat]
  sumStd := by simp only [TierRow.addWindow, exact.sumStd, tally_concat]
  sumKurtosis := by simp only [TierRow.addWindow, exact.sumKurtosis, tally_concat]
  maxMax := by simp only [TierRow.addWindow, exact.maxMax, tally_concat]
  minAvg := by simp only [TierRow.addWindow, exact.minAvg, tally_concat, floorAvg]
  psdMin := by simp only [TierRow.addWindow, exact.psdMin, tally_concat, range]
  psdMax := by simp only [TierRow.addWindow, exact.psdMax, tally_concat, range]
  psd := fun width wide => by
    obtain ⟨count, sum⟩ := exact.psd width wide.left
    have rowWide : ∀ p ∈ w.powers, p.length = width := wide.right w (List.mem_singleton_self w)
    have sumWide := wide.left.tally
    simp only [TierRow.addWindow, tally_concat, ← count, ← sum, psdCount]
    rw [← sum] at sumWide
    cases row : w.powers with
    | none => exact ⟨rfl, (op_id addRows none _).symm⟩
    | some p =>
      rw [row] at rowWide
      simp only
      rw [addPsd_wide exact.empty fun q isSum => (sumWide q isSum).trans (rowWide p rfl).symm]
      exact ⟨rfl, rfl⟩
  empty := by
    simp only [TierRow.addWindow]
    cases w.powers with
    | none => exact exact.empty
    | some p => exact addPsd_empty exact.empty p

theorem Exact.merge {level : Nat} {r other : TierRow} (exact : r.Exact level) (otherExact : other.Exact level)
    (period : other.bucketEpoch = r.bucketEpoch) (key : other.tuning.key = r.tuning.key) :
    (r.merge other).Exact level where
  tier := exact.tier
  aligned := exact.aligned
  period := fun v member => by
    rcases List.mem_append.mp member with its | others
    · exact exact.period v its
    · exact (otherExact.period v others).trans period
  key := fun v member => by
    rcases List.mem_append.mp member with its | others
    · exact exact.key v its
    · exact (otherExact.key v others).trans key
  n := by simp only [TierRow.merge, exact.n, otherExact.n, List.length_append]
  sumAvg := by simp only [TierRow.merge, exact.sumAvg, otherExact.sumAvg, tally_append]
  sumMedian := by simp only [TierRow.merge, exact.sumMedian, otherExact.sumMedian, tally_append]
  sumStd := by simp only [TierRow.merge, exact.sumStd, otherExact.sumStd, tally_append]
  sumKurtosis := by simp only [TierRow.merge, exact.sumKurtosis, otherExact.sumKurtosis, tally_append]
  maxMax := by simp only [TierRow.merge, exact.maxMax, otherExact.maxMax, tally_append]
  minAvg := by simp only [TierRow.merge, exact.minAvg, otherExact.minAvg, tally_append]
  psdMin := by simp only [TierRow.merge, exact.psdMin, otherExact.psdMin, tally_append]
  psdMax := by simp only [TierRow.merge, exact.psdMax, otherExact.psdMax, tally_append]
  psd := fun width wide => by
    obtain ⟨count, sum⟩ := exact.psd width wide.left
    obtain ⟨otherCount, otherSum⟩ := otherExact.psd width wide.right
    have sumWide := wide.left.tally
    have otherWide := wide.right.tally
    simp only [TierRow.merge, tally_append, ← count, ← otherCount, ← sum, ← otherSum, true_and]
    rw [← sum] at sumWide
    rw [← otherSum] at otherWide
    cases itsSum : r.psdSum with
    | none => cases other.psdSum <;> rfl
    | some p =>
      cases othersSum : other.psdSum with
      | none => rfl
      | some q =>
        simp only
        rw [if_pos ((sumWide p itsSum).trans (otherWide q othersSum).symm)]
        rfl
  empty := by
    have its := exact.empty
    have others := otherExact.empty
    simp only [TierRow.merge, Nat.add_eq_zero_iff, its, others]
    cases r.psdSum with
    | none => cases other.psdSum <;> simp
    | some p =>
      cases other.psdSum with
      | none => simp
      | some q =>
        simp only
        split <;> simp

/-- What a row keeps when it is stored is all of it. -/
theorem Exact.reopen_stored {level : Nat} {r : TierRow} (exact : r.Exact level) : r.stored.reopen r.tuning = r := by
  have empty := exact.empty
  obtain ⟨_, _, _, _, nPsd, _, _, _, _, _, _, _, _, psdSum, _⟩ := r
  simp only [stored, StoredRow.reopen, TierRow.psdMean] at empty ⊢
  by_cases none : nPsd = 0
  · simp [none, empty.mp none]
  · have pos : (nPsd : ℚ) ≠ 0 := by exact_mod_cast none
    simp [none, pos, Function.comp_def]

end TierRow

/-- A stored row is exact when it is once taken up again. -/
def StoredRow.Exact (level : Nat) (r : StoredRow) : Prop := (r.reopen r.tuning).Exact level

theorem TierRow.Exact.stored {level : Nat} {r : TierRow} (exact : r.Exact level) : r.stored.Exact level := by
  unfold StoredRow.Exact
  rw [show r.stored.tuning = r.tuning from rfl, exact.reopen_stored]
  exact exact

/-- The frequency axis of a stored row does not matter. -/
theorem StoredRow.Exact.reopen {level : Nat} {r : StoredRow} (exact : r.Exact level) {tuning : Tuning}
    (same : r.tuning.key = tuning.key) : (r.reopen tuning).Exact level :=
  { exact with key := fun w member => (exact.key w member).trans same }

end RFObserver
