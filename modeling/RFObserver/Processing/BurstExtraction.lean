import RFObserver.Lib.RoundHalfEven
import RFObserver.Lib.SegmentReduce
import RFObserver.Processing.BurstMerging

namespace RFObserver
open SegmentReduce

/-- A labelled grid, its cells in row-major order. The labelled cells are those
of the mask, and the time axis rises. -/
structure LabeledGrid where
  nCols : Nat
  labels : List Nat
  mask : List Bool
  powers : List ℚ
  timeAxis : List ℚ
  freqAxis : List ℚ
  masked : mask = labels.map fun l => decide (0 < l)
  size : labels.length = timeAxis.length * nCols
  powered : powers.length = labels.length
  banded : freqAxis.length = nCols
  rising : timeAxis.Pairwise (· < ·)

/-- The rows and columns of a region, its power and the column of its peak. -/
structure Region where
  rowMin : Nat
  rowMax : Nat
  colMin : Nat
  colMax : Nat
  peak : ℚ
  peakCol : Nat

/-- The labels that have a cell of the high mask. -/
def validLabels (labels : List Nat) (maskHigh : List Bool) : List Nat :=
  ((select labels maskHigh).dedup.insertionSort (· ≤ ·)).filter (0 < ·)

/-- The lookup table: set at the valid labels, and as long as the largest of them asks. -/
def labelTable (valid : List Nat) : List Bool :=
  valid.foldl (fun lut l => lut.set l true) (List.replicate (valid.foldl max 0 + 1) false)

def keepsLabel (lut : List Bool) (l : Nat) : Bool :=
  (lut.getD (min l (lut.length - 1)) false) && decide (l < lut.length)

namespace LabeledGrid

variable (g : LabeledGrid)

/-- The cells of the valid labels, grouped by label, each label's in row-major order. -/
def groupedCells (valid : List Nat) : List Nat × List Nat :=
  let cells := flatnonzero g.mask
  let cellLabels := takeAt g.labels cells
  let keep := cellLabels.map (keepsLabel (labelTable valid))
  let order := argsort (select cellLabels keep)
  (takeAt (select cells keep) order, takeAt (select cellLabels keep) order)

/-- Every region measured at once from the grouped cells. -/
def regions (idx lbl : List Nat) : List Region :=
  let starts := flatnonzero (changes lbl)
  let rows := idx.map fun i => i / g.nCols
  let cols := idx.map fun i => i % g.nCols
  let rowMin := reduceat min rows starts
  let rowMax := reduceat max rows starts
  let colMin := reduceat min cols starts
  let colMax := reduceat max cols starts
  let powers := takeAt g.powers idx
  let peak := reduceat max powers starts
  let group := repeatEach (List.range starts.length) (diff (starts ++ [idx.length]))
  let atPeak := flatnonzero (List.zipWith (fun p q => decide (p = q)) powers (takeAt peak group))
  let firstPeak := select atPeak (changes (takeAt group atPeak))
  let peakCol := takeAt cols firstPeak
  (List.range starts.length).filterMap fun k => do
    return ⟨← rowMin[k]?, ← rowMax[k]?, ← colMin[k]?, ← colMax[k]?, ← peak[k]?, ← peakCol[k]?⟩

/-- The region's fingerprint, none when it is too short. -/
def fingerprint (centerFreqHz : ℚ) (captureTime : ℤ) (minDurationSec : ℚ) (r : Region) : Option (BurstValues ℚ) :=
  let lastRow := g.timeAxis.length - 1
  let tStart := g.timeAxis.getD r.rowMin 0
  let tEnd := g.timeAxis.getD (min (r.rowMax + 1) lastRow) 0
  if tEnd - tStart < minDurationSec then none
  else
    let fMin := g.freqAxis.getD r.colMin 0
    let fMax := g.freqAxis.getD r.colMax 0
    some
      { startTime := captureTime + roundHalfEven (tStart * 1000000)
        stopTime := captureTime + roundHalfEven (tEnd * 1000000)
        centerFreqHz := centerFreqHz + (fMin + fMax) / 2
        peakFreqHz := centerFreqHz + g.freqAxis.getD r.peakCol 0
        bandwidthHz := max (fMax - fMin) 0
        peakPowerDb := r.peak
        durationMs := (tEnd - tStart) * 1000
        detectionTimestamp := captureTime }

def extractFingerprints (valid : List Nat) (centerFreqHz : ℚ) (captureTime : ℤ) (minDurationSec : ℚ) :
    List (BurstValues ℚ) :=
  let (idx, lbl) := g.groupedCells valid
  ((g.regions idx lbl).filterMap (g.fingerprint centerFreqHz captureTime minDurationSec)).insertionSort
    fun a b => a.startTime ≤ b.startTime

end LabeledGrid
end RFObserver
