import RFObserver.Lib.Tally
import RFObserver.Storage.TierStore

namespace RFObserver
open Tally

/-- The Dashboard's buckets, anchored to epoch multiples of their length. -/
structure Grid where
  bucketSec : ℚ
  anchor : ℚ
  n : Nat
  deriving DecidableEq

namespace Grid

def create (since until_ bucketSec : ℚ) : Grid :=
  let anchor := ⌊since / bucketSec⌋ * bucketSec
  ⟨bucketSec, anchor, max 1 ⌈(until_ - anchor) / bucketSec⌉.toNat⟩

/-- The bucket of an instant, the ones outside counting with the edges. -/
def index (g : Grid) (epoch : ℚ) : Nat := min ⌊(epoch - g.anchor) / g.bucketSec⌋.toNat (g.n - 1)

end Grid

/-- A PSD row on `maxBins` bins: group means when it is wider, nothing on the
bins past a narrower one. None without a row. -/
def decodePsdRow (maxBins : Nat) (blob : Option (List ℚ)) : Option (List (Option ℚ)) :=
  match blob with
  | none => none
  | some p =>
    if p.length = 0 then none
    else if maxBins < p.length then some ((groupMean p maxBins).map some)
    else some (p.map some ++ List.replicate (maxBins - p.length) none)

/-- The decoded value on a bin, none without a row or past its end. -/
def binOf (row : Option (List (Option ℚ))) (bin : Nat) : Option ℚ := (row.getD []).getD bin none

def leastOf (values : List (Option ℚ)) : Option ℚ := values.foldl (Option.merge min) none

def greatestOf (values : List (Option ℚ)) : Option ℚ := values.foldl (Option.merge max) none

/-- Per-bucket PSD sums and stats. A bucket's `statMax` is none while no
window had a maximum; so is the range while no value was seen. -/
structure WaterfallFold where
  grid : Grid
  maxBins : Nat
  psdSum : Nat → Nat → ℚ
  psdCnt : Nat → Nat → Nat
  statN : Nat → Nat
  statAvg : Nat → ℚ
  statMed : Nat → ℚ
  statStd : Nat → ℚ
  statKurt : Nat → ℚ
  statMax : Nat → Option ℚ
  totalWindows : Nat
  gmin : Option ℚ
  gmax : Option ℚ
  axis : Option (Nat × ℚ × ℚ)

namespace WaterfallFold

def create (since until_ bucketSec : ℚ) (maxBins : Nat) : WaterfallFold where
  grid := Grid.create since until_ bucketSec
  maxBins := maxBins
  psdSum := fun _ _ => 0
  psdCnt := fun _ _ => 0
  statN := fun _ => 0
  statAvg := fun _ => 0
  statMed := fun _ => 0
  statStd := fun _ => 0
  statKurt := fun _ => 0
  statMax := fun _ => none
  totalWindows := 0
  gmin := none
  gmax := none
  axis := none

def windowPsd (maxBins : Nat) (w : AvgWindow) : Option (List (Option ℚ)) := decodePsdRow maxBins w.powers

/-- A tier row counts with its PSD only when it has one that was summed. -/
def tierPsd (maxBins : Nat) (r : StoredRow) : Option (List (Option ℚ)) :=
  if 0 < r.nPsd then decodePsdRow maxBins r.psdMean else none

/-- A chunk of windows in time order. -/
def addWindows (rows : List AvgWindow) (f : WaterfallFold) : WaterfallFold :=
  match rows with
  | [] => f
  | first :: _ =>
    let rs := runs (fun w : AvgWindow => f.grid.index w.startTime) rows
    let f := { f with
      axis := some (f.axis.getD (first.tuning.numBins, first.tuning.freqStartHz, first.tuning.freqStepHz))
      statN := addRunsAt (· + ·) (fun _ => 1) rs f.statN
      statAvg := addRuns (· + ·) (fun w : AvgWindow => w.pwrAvg) rs f.statAvg
      statMed := addRuns (· + ·) (fun w : AvgWindow => w.pwrMedian) rs f.statMed
      statStd := addRuns (· + ·) (fun w : AvgWindow => w.pwrStd) rs f.statStd
      statKurt := addRuns (· + ·) (fun w : AvgWindow => w.kurtosis) rs f.statKurt
      statMax := addRuns (Option.merge max) (fun w : AvgWindow => w.pwrMax) rs f.statMax }
    let has := rows.filter fun w => (windowPsd f.maxBins w).isSome
    let values := has.flatMap fun w => (windowPsd f.maxBins w).getD []
    let prs := runs (fun w : AvgWindow => f.grid.index w.startTime) has
    { f with
      totalWindows := f.totalWindows + has.length
      gmin := Option.merge min f.gmin (leastOf values)
      gmax := Option.merge max f.gmax (greatestOf values)
      psdSum := addRuns (pointwise (· + ·)) (fun w bin => (binOf (windowPsd f.maxBins w) bin).getD 0) prs f.psdSum
      psdCnt := addRuns (pointwise (· + ·))
        (fun w bin => if (binOf (windowPsd f.maxBins w) bin).isSome then 1 else 0) prs f.psdCnt }

/-- Tier rows in time order, each inside one bucket. -/
def addTiers (rows : List StoredRow) (f : WaterfallFold) : WaterfallFold :=
  match rows with
  | [] => f
  | first :: _ =>
    let rs := runs (fun r : StoredRow => f.grid.index r.bucketEpoch) rows
    let f := { f with
      axis := some (f.axis.getD (first.tuning.numBins, first.tuning.freqStartHz, first.tuning.freqStepHz))
      statN := addRuns (· + ·) (fun r : StoredRow => r.n) rs f.statN
      statAvg := addRuns (· + ·) (fun r : StoredRow => r.sumAvg) rs f.statAvg
      statMed := addRuns (· + ·) (fun r : StoredRow => r.sumMedian) rs f.statMed
      statStd := addRuns (· + ·) (fun r : StoredRow => r.sumStd) rs f.statStd
      statKurt := addRuns (· + ·) (fun r : StoredRow => r.sumKurtosis) rs f.statKurt
      statMax := addRuns (Option.merge max) (fun r : StoredRow => r.maxMax) rs f.statMax
      gmin := rows.foldl (fun g (r : StoredRow) => Option.merge min g r.psdMin) f.gmin
      gmax := rows.foldl (fun g (r : StoredRow) => Option.merge max g r.psdMax) f.gmax }
    let has := rows.filter fun r => (tierPsd f.maxBins r).isSome
    let prs := runs (fun r : StoredRow => f.grid.index r.bucketEpoch) has
    { f with
      totalWindows := f.totalWindows + (has.map fun r : StoredRow => r.nPsd).sum
      psdSum := addRuns (pointwise (· + ·)) (fun r bin => (binOf (tierPsd f.maxBins r) bin).getD 0 * r.nPsd) prs f.psdSum
      psdCnt := addRuns (pointwise (· + ·))
        (fun r bin => (if (binOf (tierPsd f.maxBins r) bin).isSome then 1 else 0) * r.nPsd) prs f.psdCnt }

/-- What the fold reports of a bucket: its count, its means, its maximum and
its mean PSD row. -/
structure Bucket where
  startEpoch : ℚ
  count : Nat
  pwrAvg : ℚ
  pwrMax : Option ℚ
  pwrMedian : ℚ
  pwrStd : ℚ
  kurtosis : ℚ

/-- A mean, 0 of nothing. -/
def mean (sum : ℚ) (n : Nat) : ℚ := if n = 0 then 0 else sum / n

def bucket (f : WaterfallFold) (i : Nat) : Bucket where
  startEpoch := f.grid.anchor + i * f.grid.bucketSec
  count := f.statN i
  pwrAvg := mean (f.statAvg i) (f.statN i)
  pwrMax := if f.statN i = 0 then some 0 else f.statMax i
  pwrMedian := mean (f.statMed i) (f.statN i)
  pwrStd := mean (f.statStd i) (f.statN i)
  kurtosis := mean (f.statKurt i) (f.statN i)

end WaterfallFold

/-- Per-bucket stats of the timelines. -/
@[ext]
structure StatsFold where
  grid : Grid
  n : Nat → Nat
  avg : Nat → ℚ
  med : Nat → ℚ
  std : Nat → ℚ
  kurt : Nat → ℚ
  mx : Nat → Option ℚ
  gmin : Option ℚ
  gmax : Option ℚ

namespace StatsFold

def create (since until_ bucketSec : ℚ) : StatsFold where
  grid := Grid.create since until_ bucketSec
  n := fun _ => 0
  avg := fun _ => 0
  med := fun _ => 0
  std := fun _ => 0
  kurt := fun _ => 0
  mx := fun _ => none
  gmin := none
  gmax := none

def addWindows (rows : List AvgWindow) (f : StatsFold) : StatsFold :=
  let rs := runs (fun w : AvgWindow => f.grid.index w.startTime) rows
  let has := rows.filter fun w => w.pwrMax.isSome
  { f with
    n := addRuns (· + ·) (fun _ => 1) rs f.n
    avg := addRuns (· + ·) (fun w : AvgWindow => w.pwrAvg) rs f.avg
    med := addRuns (· + ·) (fun w : AvgWindow => w.pwrMedian) rs f.med
    std := addRuns (· + ·) (fun w : AvgWindow => w.pwrStd) rs f.std
    kurt := addRuns (· + ·) (fun w : AvgWindow => w.kurtosis) rs f.kurt
    mx := addRuns (Option.merge max) (fun w : AvgWindow => w.pwrMax) rs f.mx
    gmin := Option.merge min f.gmin (leastOf (has.map fun w => some w.pwrAvg))
    gmax := Option.merge max f.gmax (greatestOf (has.map fun w => w.pwrMax)) }

def addTiers (rows : List StoredRow) (f : StatsFold) : StatsFold :=
  let rs := runs (fun r : StoredRow => f.grid.index r.bucketEpoch) rows
  let has := rows.filter fun r => r.maxMax.isSome ∧ r.minAvg.isSome
  { f with
    n := addRuns (· + ·) (fun r : StoredRow => r.n) rs f.n
    avg := addRuns (· + ·) (fun r : StoredRow => r.sumAvg) rs f.avg
    med := addRuns (· + ·) (fun r : StoredRow => r.sumMedian) rs f.med
    std := addRuns (· + ·) (fun r : StoredRow => r.sumStd) rs f.std
    kurt := addRuns (· + ·) (fun r : StoredRow => r.sumKurtosis) rs f.kurt
    mx := addRuns (Option.merge max) (fun r : StoredRow => r.maxMax) rs f.mx
    gmin := has.foldl (fun g r => Option.merge min g r.minAvg) f.gmin
    gmax := has.foldl (fun g r => Option.merge max g r.maxMax) f.gmax }

end StatsFold

/-- The tuning a request asks for, none of a field asking for any. -/
structure TuningFilter where
  sdrCenterFreq : Option ℚ
  sampleRate : Option ℚ
  gain : Option ℚ

/-- A stored gain of NULL meets no gain filter. -/
def TuningFilter.accepts (filter : TuningFilter) (key : StoreKey) : Bool :=
  (∀ c ∈ filter.sdrCenterFreq, key.sdrCenterFreqHz = c) ∧ (∀ r ∈ filter.sampleRate, key.sampleRateHz = r) ∧
    ∀ g ∈ filter.gain, key.gainDb = some g

/-- `size` rows at a time. -/
def chunks {β : Type*} (size : Nat) : Nat → List β → List (List β)
  | 0, _ => []
  | fuel + 1, rows =>
    if rows = [] then [] else rows.take size :: chunks size fuel (rows.drop size)

def scanChunk : Nat := 2000

namespace SensorDatabase

variable {φ : Type*}

/-- The windows of `[a, b)` in time order, of one start in the order stored. -/
def scanAvgWindows (filter : TuningFilter) (a b : ℚ) (db : SensorDatabase) : List AvgWindow :=
  (db.windows.filter fun w => a ≤ w.startTime ∧ w.startTime < b ∧ filter.accepts w.tuning.key).insertionSort
    fun v w => v.startTime ≤ w.startTime

def foldWindows (addWindows : List AvgWindow → φ → φ) (filter : TuningFilter) (a b : ℚ) (db : SensorDatabase)
    (fold : φ) : φ :=
  if b ≤ a then fold
  else
    let rows := db.scanAvgWindows filter a b
    (chunks scanChunk rows.length rows).foldl (fun fold chunk => addWindows chunk fold) fold

/-- The stored rows of a tier with a period in `[lo, hi)`, in time order. -/
def scanAvgTiers (filter : TuningFilter) (level : Nat) (lo hi : ℤ) (db : SensorDatabase) : List StoredRow :=
  (db.tierRows.filter fun r => r.levelSec = level ∧ lo ≤ r.bucketEpoch ∧ r.bucketEpoch < hi ∧
    filter.accepts r.tuning.key).insertionSort fun r r' => r.bucketEpoch ≤ r'.bucketEpoch

/-- The tier and display bucket for a range, none when the range starts before
the tier's coverage. -/
def coveringTier (since span : ℚ) (maxRows : Nat) (forcedBucket : Option ℚ) (db : SensorDatabase) :
    Option (Nat × ℚ) :=
  (chooseTier span maxRows forcedBucket).filter fun tier => ∃ cover ∈ db.coverage tier.1, (cover : ℚ) ≤ since

/-- The first whole period of a range. -/
def lo (since : ℚ) (level : Nat) : ℤ := ⌈since / level⌉ * level

/-- The end of the last whole period of a range. -/
def hi (since until_ : ℚ) (level : Nat) : ℤ := max (lo since level) (⌊until_ / level⌋ * level)

/-- The stored rows of the whole periods of a range. -/
def tierRange (filter : TuningFilter) (since until_ : ℚ) (level : Nat) (db : SensorDatabase) : List StoredRow :=
  db.scanAvgTiers filter level (lo since level) (hi since until_ level)

/-- Where the newest stored period of a range ends. -/
def coverEnd (filter : TuningFilter) (since until_ : ℚ) (level : Nat) (db : SensorDatabase) : ℤ :=
  match (db.tierRange filter since until_ level).getLast? with
  | some r => min (hi since until_ level) (r.bucketEpoch + level)
  | none => lo since level

/-- Fold a range from stored tier periods, plus raw windows for the partial
period at its start and what comes after the newest stored period. -/
def foldTiered (addWindows : List AvgWindow → φ → φ) (addTiers : List StoredRow → φ → φ) (filter : TuningFilter)
    (since until_ : ℚ) (level : Nat) (db : SensorDatabase) (fold : φ) : φ :=
  let fold := db.foldWindows addWindows filter since (min (lo since level) until_) fold
  let fold := addTiers (db.tierRange filter since until_ level) fold
  db.foldWindows addWindows filter
    (max (max (db.coverEnd filter since until_ level) (lo since level) : ℤ) since) until_ fold

end SensorDatabase
end RFObserver
