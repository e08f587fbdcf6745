import RFObserver.Lib.RoundHalfEven

namespace RFObserver

/-- Tier periods in seconds, finest first. -/
def tierSeconds : List Nat := [10, 60, 600]

def colorBins : Nat := 512

structure Tuning where
  sdrCenterFreqHz : ℚ
  sampleRateHz : ℚ
  gainDb : Option ℚ
  numBins : Nat
  freqStartHz : ℚ
  freqStepHz : ℚ
  deriving DecidableEq

/-- What of a tuning a stored tier row is looked up by. -/
structure StoreKey where
  sdrCenterFreqHz : ℚ
  sampleRateHz : ℚ
  gainDb : Option ℚ
  numBins : Nat
  deriving DecidableEq

def Tuning.key (t : Tuning) : StoreKey := ⟨t.sdrCenterFreqHz, t.sampleRateHz, t.gainDb, t.numBins⟩

/-- One averaged window, as stored. Times are epoch seconds. -/
structure AvgWindow where
  startTime : ℚ
  tuning : Tuning
  pwrAvg : ℚ
  pwrMax : Option ℚ
  pwrMedian : ℚ
  pwrStd : ℚ
  kurtosis : ℚ
  powers : Option (List ℚ)
  deriving DecidableEq

/-- The start of the tier period that `epoch` is in. -/
def bucketEpoch (level : Nat) (epoch : ℚ) : ℤ := ⌊epoch / level⌋ * level

/-- The running sums of one tier period for one tuning. `windows` are the
windows summed, which nothing reads. -/
structure TierRow where
  levelSec : Nat
  bucketEpoch : ℤ
  tuning : Tuning
  n : Nat
  nPsd : Nat
  sumAvg : ℚ
  sumMedian : ℚ
  sumStd : ℚ
  sumKurtosis : ℚ
  maxMax : Option ℚ
  minAvg : Option ℚ
  psdMin : Option ℚ
  psdMax : Option ℚ
  psdSum : Option (List ℚ)
  windows : List AvgWindow
  deriving DecidableEq

/-- The mean of each `factor` adjacent bins, `bins` of them. -/
def groupMean (p : List ℚ) (bins : Nat) : List ℚ :=
  let factor := p.length / bins
  (List.range bins).map fun m => ((List.range factor).map fun k => p.getD (m * factor + k) 0).sum / factor

/-- The least and greatest value of a PSD row after its downsample. -/
def colorRange (powers : List ℚ) (bins : Nat) : Option (ℚ × ℚ) :=
  let p := if bins < powers.length then groupMean powers bins else powers
  match p.min?, p.max? with
  | some lo, some hi => some (lo, hi)
  | _, _ => none

namespace TierRow

def create (level : Nat) (bucket : ℤ) (tuning : Tuning) : TierRow where
  levelSec := level
  bucketEpoch := bucket
  tuning := tuning
  n := 0
  nPsd := 0
  sumAvg := 0
  sumMedian := 0
  sumStd := 0
  sumKurtosis := 0
  maxMax := none
  minAvg := none
  psdMin := none
  psdMax := none
  psdSum := none
  windows := []

/-- The PSD sum and count after one more PSD row. -/
def addPsd (psdSum : Option (List ℚ)) (nPsd : Nat) (powers : List ℚ) : Option (List ℚ) × Nat :=
  match psdSum with
  | none => (some powers, 1)
  | some sum =>
    if sum.length = powers.length then (some (List.zipWith (· + ·) sum powers), nPsd + 1) else (some sum, nPsd)

def addWindow (row : TierRow) (w : AvgWindow) : TierRow :=
  let crange := w.powers.bind fun p => colorRange p colorBins
  let psd := match w.powers with
    | none => (row.psdSum, row.nPsd)
    | some p => addPsd row.psdSum row.nPsd p
  { row with
    n := row.n + 1
    nPsd := psd.2
    sumAvg := row.sumAvg + w.pwrAvg
    sumMedian := row.sumMedian + w.pwrMedian
    sumStd := row.sumStd + w.pwrStd
    sumKurtosis := row.sumKurtosis + w.kurtosis
    maxMax := Option.merge max row.maxMax w.pwrMax
    minAvg := Option.merge min row.minAvg (w.pwrMax.map fun _ => w.pwrAvg)
    psdMin := Option.merge min row.psdMin (crange.map Prod.fst)
    psdMax := Option.merge max row.psdMax (crange.map Prod.snd)
    psdSum := psd.1
    windows := row.windows ++ [w] }

def psdMean (row : TierRow) : Option (List ℚ) :=
  if row.nPsd = 0 then none else row.psdSum.map fun sum => sum.map (· / row.nPsd)

/-- Fold another partial row of the same period and tuning into this one. -/
def merge (row other : TierRow) : TierRow :=
  { row with
    n := row.n + other.n
    nPsd := row.nPsd + other.nPsd
    sumAvg := row.sumAvg + other.sumAvg
    sumMedian := row.sumMedian + other.sumMedian
    sumStd := row.sumStd + other.sumStd
    sumKurtosis := row.sumKurtosis + other.sumKurtosis
    maxMax := Option.merge max row.maxMax other.maxMax
    minAvg := Option.merge min row.minAvg other.minAvg
    psdMin := Option.merge min row.psdMin other.psdMin
    psdMax := Option.merge max row.psdMax other.psdMax
    psdSum := match other.psdSum, row.psdSum with
      | none, sum => sum
      | some p, none => some p
      | some p, some sum => if sum.length = p.length then some (List.zipWith (· + ·) sum p) else some sum
    windows := row.windows ++ other.windows }

end TierRow

/-- Running sums for every tier and tuning, in the order they were begun. -/
structure TierAccumulator where
  openRows : List TierRow
  deriving DecidableEq

namespace TierAccumulator

/-- The rows whose period ended before `epoch` leave. -/
def closeBefore (acc : TierAccumulator) (epoch : ℚ) : List TierRow × TierAccumulator :=
  (acc.openRows.filter fun r => ((r.bucketEpoch + r.levelSec : ℤ) : ℚ) ≤ epoch,
    ⟨acc.openRows.filter fun r => ¬ ((r.bucketEpoch + r.levelSec : ℤ) : ℚ) ≤ epoch⟩)

/-- Add a window to its row of one tier. A late one, of a period that was
closed, is left out. -/
def addLevel (w : AvgWindow) (acc : TierAccumulator) (level : Nat) : TierAccumulator :=
  match acc.openRows.find? fun r => r.levelSec = level ∧ r.tuning = w.tuning with
  | none => ⟨acc.openRows ++ [(TierRow.create level (bucketEpoch level w.startTime) w.tuning).addWindow w]⟩
  | some row =>
    if w.startTime < row.bucketEpoch then acc
    else ⟨acc.openRows.map fun r => if r.levelSec = level ∧ r.tuning = w.tuning then r.addWindow w else r⟩

/-- Add one window. The rows whose period ended before it are ready to store. -/
def add (acc : TierAccumulator) (w : AvgWindow) : List TierRow × TierAccumulator :=
  let (done, acc) := acc.closeBefore w.startTime
  (done, tierSeconds.foldl (addLevel w) acc)

end TierAccumulator

/-- The forced bucket is a whole number of tier periods, up to a rounding error. -/
def tierDivides (level : Nat) (bucket : ℚ) : Prop :=
  1 ≤ bucket / level ∧ |bucket / level - roundHalfEven (bucket / level)| < 1 / 10 ^ 9

instance (level : Nat) (bucket : ℚ) : Decidable (tierDivides level bucket) := inferInstanceAs (Decidable (_ ∧ _))

/-- The tier and display bucket for a range, none to use raw windows: the
coarsest tier that divides a forced bucket, or whose period rounded up to a
whole multiple stays near the ideal bucket. -/
def chooseTier (spanSec : ℚ) (maxRows : Nat) (forcedBucket : Option ℚ) : Option (Nat × ℚ) :=
  match forcedBucket.filter fun bucket => 0 < bucket with
  | some bucket => (tierSeconds.reverse.find? fun level => tierDivides level bucket).map fun level => (level, bucket)
  | none =>
    let target := spanSec / maxRows
    tierSeconds.reverse.findSome? fun level : Nat =>
      if target < level then none
      else
        let bucket : ℚ := ⌈target / level - 1 / 10 ^ 9⌉ * level
        if bucket ≤ 5 / 4 * target then some (level, bucket) else none

end RFObserver
