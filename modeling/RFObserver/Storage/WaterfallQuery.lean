import RFObserver.Storage.DisplayBins
import RFObserver.Storage.TierQueries

/-! Which mode a waterfall query answers in, and the windows its rows count. -/

namespace RFObserver
open Tally

namespace FoldPart

/-- How many windows a chunk stands for. -/
def count : FoldPart → ℕ
  | windows rows => rows.length
  | tiers rows => (rows.map fun r : StoredRow => r.n).sum

/-- Tier rows come in the order of their periods. -/
def TiersSorted : FoldPart → Prop
  | windows _ => True
  | tiers rows => rows.Pairwise fun r r' => r.bucketEpoch ≤ r'.bucketEpoch

end FoldPart

/-- What the statements of one query find, each when it runs. -/
structure WaterfallReads where
  coverage : ℕ → Option ℚ
  counted : ℕ
  raw : List TimedWindow
  parts : List FoldPart
  sorted : ∀ part ∈ parts, part.TiersSorted

def emptyWaterfall : WaterfallResult where
  bucketSec := 0
  numBins := 0
  minDb := 0
  maxDb := 0
  totalWindows := 0
  freqStartHz := 0
  freqStepHz := 0
  mode := 0
  buckets := []
  psdRows := []

namespace WaterfallReads

/-- `_covering_tier` -/
def coveringTier (since span : ℚ) (maxRows : ℕ) (forcedBucket : Option ℚ) (reads : WaterfallReads) : Option (ℕ × ℚ) :=
  (chooseTier span maxRows forcedBucket).filter fun tier =>
    (reads.coverage tier.1).elim false fun cover => decide (cover ≤ since)

/-- The fold of what the scans find, on buckets of a length. -/
def folded (since until_ bucketSec : ℚ) (maxBins : ℕ) (reads : WaterfallReads) : WaterfallFold :=
  reads.parts.foldl FoldPart.addTo (WaterfallFold.create since until_ bucketSec maxBins)

/-- `query_avg_waterfall`: windows that are no more than the rows asked for
are shown one by one, unless a bucket is forced. -/
def queryAvgWaterfall (since until_ : ℚ) (maxRows maxBins : ℕ) (bucketSec : Option ℚ) (reads : WaterfallReads) :
    WaterfallResult :=
  let span := until_ - since
  if span ≤ 0 then emptyWaterfall
  else
    let forced := bucketSec.filter fun bucket => 0 < bucket
    if forced = none ∧ reads.counted = 0 then emptyWaterfall
    else if forced = none ∧ reads.counted ≤ maxRows then waterfallRaw (span / maxRows) maxBins reads.raw
    else
      match reads.coveringTier since span maxRows bucketSec with
      | some (_, tierBucket) => (reads.folded since until_ tierBucket maxBins).result
      | none => (reads.folded since until_ (forced.getD (span / maxRows)) maxBins).result

/-- The windows that the rows of an answer stand for, which are read after the count. -/
def shown (maxRows : ℕ) (reads : WaterfallReads) : ℕ :=
  if reads.counted = 0 then 0
  else if reads.counted ≤ maxRows then reads.raw.length
  else (reads.parts.map FoldPart.count).sum

end WaterfallReads

def WaterfallResult.counts (result : WaterfallResult) : List ℕ := result.buckets.map WaterfallBucket.count

section Counts

variable {grid : Grid} {maxBins : ℕ} {f : WaterfallFold}

/-- The windows in all buckets of a fold. -/
def WaterfallFold.counted (f : WaterfallFold) : ℕ := ∑ i ∈ Finset.range f.grid.n, f.statN i

theorem WaterfallFold.result_counts (f : WaterfallFold) : f.result.counts.sum = f.counted := by
  have buckets : f.result.counts = (List.range f.grid.n).map f.statN := by
    rw [WaterfallResult.counts, WaterfallFold.result, List.map_map]
    rfl
  rw [buckets, WaterfallFold.counted]
  rfl

/-- Windows count in their buckets, whatever their order. -/
theorem FoldPart.addTo_statN_windows (rows : List AvgWindow) (f : WaterfallFold) :
    (f.addWindows rows).statN =
      pointwise (· + ·) f.statN
        (tally (pointwise (· + ·)) (fun _ => 0) (fun w => single 0 (f.grid.index w.startTime) 1) rows) := by
  cases rows with
  | nil => rfl
  | cons w rows => exact addRunsAt_eq (· + ·) 0 (fun _ => 1) (w :: rows) f.statN

theorem FoldPart.addTo_counted (positive : 0 < grid.bucketSec) (nonempty : 0 < grid.n) {part : FoldPart}
    (sorted : part.TiersSorted) (on : f.On grid maxBins) :
    (part.addTo f).On grid maxBins ∧ (part.addTo f).counted = f.counted + part.count := by
  obtain ⟨rfl, rfl⟩ := on
  cases part with
  | windows rows =>
    have onNext := WaterfallFold.On.addWindows rows f ⟨rfl, rfl⟩
    refine ⟨onNext, ?_⟩
    have inside (w : AvgWindow) : (∑ i ∈ Finset.range f.grid.n, single 0 (f.grid.index w.startTime) 1 i) = 1 := by
      unfold single
      rw [Finset.sum_ite_eq', if_pos (Finset.mem_range.mpr (Grid.index_lt nonempty _))]
    have respects (a b : ℕ → ℕ) : ∑ i ∈ Finset.range f.grid.n, pointwise (· + ·) a b i =
        ∑ i ∈ Finset.range f.grid.n, a i + ∑ i ∈ Finset.range f.grid.n, b i := Finset.sum_add_distrib
    have total := tally_hom (pointwise (· + ·)) (fun _ => 0) respects
      (fun w : AvgWindow => single 0 (f.grid.index w.startTime) 1) rows
    simp only [inside, Finset.sum_const_zero] at total
    rw [WaterfallFold.counted, FoldPart.addTo, onNext.1, FoldPart.addTo_statN_windows, FoldPart.count,
      length_eq_tally, ← total]
    exact Finset.sum_add_distrib
  | tiers rows =>
    have observes := (@WaterfallFold.observes_statN f.grid f.maxBins positive).total nonempty
    obtain ⟨onNext, sum⟩ := observes.tiers rows f ⟨rfl, rfl⟩ sorted
    refine ⟨onNext, ?_⟩
    rw [WaterfallFold.counted, FoldPart.addTo, onNext.1, FoldPart.count, sum_map_eq_tally]
    exact sum

theorem parts_counted (positive : 0 < grid.bucketSec) (nonempty : 0 < grid.n) {parts : List FoldPart}
    (sorted : ∀ part ∈ parts, part.TiersSorted) (on : f.On grid maxBins) :
    (parts.foldl FoldPart.addTo f).counted = f.counted + (parts.map FoldPart.count).sum := by
  induction parts generalizing f with
  | nil => rfl
  | cons part parts ih =>
    obtain ⟨onNext, one⟩ := FoldPart.addTo_counted positive nonempty (sorted part List.mem_cons_self) on
    have rest := ih (fun later member => sorted later (List.mem_cons_of_mem _ member)) onNext
    rw [List.foldl_cons, rest, one, List.map_cons, List.sum_cons, add_assoc]

end Counts

namespace WaterfallReads

variable {since until_ : ℚ} {maxRows maxBins : ℕ} {reads : WaterfallReads}

theorem folded_counts {bucketSec : ℚ} (positive : 0 < bucketSec) (reads : WaterfallReads) :
    (reads.folded since until_ bucketSec maxBins).result.counts.sum = (reads.parts.map FoldPart.count).sum := by
  have start : (WaterfallFold.create since until_ bucketSec maxBins).counted = 0 := by
    simp [WaterfallFold.counted, WaterfallFold.create]
  have on : (WaterfallFold.create since until_ bucketSec maxBins).On (Grid.create since until_ bucketSec) maxBins :=
    ⟨rfl, rfl⟩
  have all := parts_counted positive (Grid.create_n_pos ..) reads.sorted on
  rw [WaterfallFold.result_counts, folded, all, start, zero_add]

theorem raw_counts (bucketSec : ℚ) (rows : List TimedWindow) :
    (waterfallRaw bucketSec maxBins rows).counts.sum = rows.length := by
  have ones : (waterfallRaw bucketSec maxBins rows).counts = rows.map fun _ => 1 := by
    rw [WaterfallResult.counts, waterfallRaw, List.map_map]
    rfl
  rw [ones, List.map_const', List.sum_replicate_nat, mul_one]

/-- Without a forced bucket the mode is chosen by the count, and the rows of
the answer count the windows that were read after it. -/
theorem queryAvgWaterfall_spec (reads : WaterfallReads) (maxBins : ℕ) (some_ : 0 < maxRows) (forward : since < until_) :
    let result := reads.queryAvgWaterfall since until_ maxRows maxBins none
    (result.mode = 0 ↔ reads.counted ≤ maxRows) ∧ result.counts.sum = reads.shown maxRows := by
  have span : 0 < until_ - since := sub_pos.mpr forward
  have rows : (0 : ℚ) < maxRows := by exact_mod_cast some_
  unfold queryAvgWaterfall shown
  simp only [not_le.mpr span, if_false, Option.filter_none, true_and, Option.getD_none]
  by_cases none_ : reads.counted = 0
  · rw [if_pos none_, if_pos none_]
    exact ⟨iff_of_true rfl (by omega), rfl⟩
  rw [if_neg none_, if_neg none_]
  by_cases few : reads.counted ≤ maxRows
  · rw [if_pos few, if_pos few]
    exact ⟨iff_of_true rfl few, raw_counts _ _⟩
  rw [if_neg few, if_neg few]
  cases tier : reads.coveringTier since (until_ - since) maxRows none with
  | none => exact ⟨iff_of_false Nat.one_ne_zero few, folded_counts (div_pos span rows) reads⟩
  | some found =>
    obtain ⟨chosen, -⟩ := Option.filter_eq_some_iff.mp tier
    obtain ⟨-, positive⟩ := SensorDatabase.chooseTier_spec chosen
    exact ⟨iff_of_false Nat.one_ne_zero few, folded_counts positive reads⟩

theorem queryAvgWaterfall_raw (forward : since < until_) (some_ : reads.counted ≠ 0) (few : reads.counted ≤ maxRows) :
    reads.queryAvgWaterfall since until_ maxRows maxBins none =
      waterfallRaw ((until_ - since) / maxRows) maxBins reads.raw := by
  unfold queryAvgWaterfall
  simp only [not_le.mpr (sub_pos.mpr forward), if_false, Option.filter_none, true_and]
  rw [if_neg some_, if_pos few]

theorem queryAvgWaterfall_backward (backward : until_ ≤ since) (reads : WaterfallReads) :
    reads.queryAvgWaterfall since until_ maxRows maxBins none = emptyWaterfall :=
  if_pos (sub_nonpos.mpr backward)

end WaterfallReads

end RFObserver
