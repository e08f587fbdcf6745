import RFObserver.Storage.FoldReads

/-! What the Dashboard's waterfall reports: its axis, its buckets and its PSD rows. -/

namespace RFObserver

/-- A row of the waterfall, a window or a bucket of them; no maximum is minus infinity. -/
structure WaterfallBucket where
  startEpoch : ℚ
  durationSec : ℚ
  count : Nat
  pwrAvg : ℚ
  pwrMax : Option ℚ
  pwrMedian : ℚ
  pwrStd : ℚ
  kurtosis : ℚ

/-- The answer of `query_avg_waterfall`; a value that is none is NaN. -/
structure WaterfallResult where
  bucketSec : ℚ
  numBins : Nat
  minDb : ℚ
  maxDb : ℚ
  totalWindows : Nat
  freqStartHz : ℚ
  freqStepHz : ℚ
  mode : Nat
  buckets : List WaterfallBucket
  psdRows : List (List (Option ℚ))

/-- The axis of the display bins: a group mean of a uniform axis shifts the
start and multiplies the step. -/
def displayAxis (numBins : Nat) (freqStartHz freqStepHz : ℚ) (maxBins : Nat) : ℚ × ℚ :=
  if maxBins < numBins ∧ 0 < freqStepHz then
    let factor : Nat := numBins / maxBins
    (freqStartHz + (factor - 1) * freqStepHz / 2, factor * freqStepHz)
  else (freqStartHz, freqStepHz)

/-- `_ds_psd`: the display bins of one row, their least and their greatest value. -/
def dsPsd (powers : List ℚ) (maxBins : Nat) : List (Option ℚ) × Option ℚ × Option ℚ :=
  let bins :=
    if maxBins < powers.length then (groupMean powers maxBins).map some
    else powers.map some ++ List.replicate (maxBins - powers.length) none
  (bins, leastOf bins, greatestOf bins)

/-- A window with how long it lasted. -/
structure TimedWindow extends AvgWindow where
  durationSec : ℚ

namespace TimedWindow

def bucket (w : TimedWindow) : WaterfallBucket :=
  ⟨w.startTime, w.durationSec, 1, w.pwrAvg, some (w.pwrMax.getD 0), w.pwrMedian, w.pwrStd, w.kurtosis⟩

/-- The display bins of a window, none of them with a value without a row. -/
def display (maxBins : Nat) (w : TimedWindow) : List (Option ℚ) :=
  w.powers.elim (List.replicate maxBins none) fun p => (dsPsd p maxBins).1

end TimedWindow

/-- `_waterfall_raw` -/
def waterfallRaw (bucketSec : ℚ) (maxBins : Nat) (rows : List TimedWindow) : WaterfallResult :=
  let ranges := rows.filterMap fun w => w.powers.map fun p => (dsPsd p maxBins).2
  let axis := rows.head?.elim (0, 0, 0) fun w => (w.tuning.numBins, w.tuning.freqStartHz, w.tuning.freqStepHz)
  let shown := displayAxis axis.1 axis.2.1 axis.2.2 maxBins
  { bucketSec := bucketSec
    numBins := maxBins
    minDb := (leastOf (ranges.map Prod.fst)).getD 0
    maxDb := (greatestOf (ranges.map Prod.snd)).getD 0
    totalWindows := ranges.length
    freqStartHz := shown.1
    freqStepHz := shown.2
    mode := 0
    buckets := rows.map TimedWindow.bucket
    psdRows := rows.map (TimedWindow.display maxBins) }

namespace WaterfallFold

variable (f : WaterfallFold)

/-- The mean PSD row of a bucket. -/
def psdRow (i : Nat) : List (Option ℚ) :=
  (List.range f.maxBins).map fun bin => if f.psdCnt i bin = 0 then none else some (f.psdSum i bin / f.psdCnt i bin)

def waterfallBucket (i : Nat) : WaterfallBucket :=
  let b := f.bucket i
  ⟨b.startEpoch, f.grid.bucketSec, b.count, b.pwrAvg, b.pwrMax, b.pwrMedian, b.pwrStd, b.kurtosis⟩

def result : WaterfallResult :=
  let axis := f.axis.getD (0, 0, 0)
  let shown := displayAxis axis.1 axis.2.1 axis.2.2 f.maxBins
  { bucketSec := f.grid.bucketSec
    numBins := f.maxBins
    minDb := f.gmin.getD 0
    maxDb := f.gmax.getD 0
    totalWindows := f.totalWindows
    freqStartHz := shown.1
    freqStepHz := shown.2
    mode := 1
    buckets := (List.range f.grid.n).map f.waterfallBucket
    psdRows := (List.range f.grid.n).map f.psdRow }

end WaterfallFold

end RFObserver
