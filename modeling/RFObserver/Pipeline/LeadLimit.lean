import RFObserver.Capture.CircularBuffer
import RFObserver.Processing.Isolate
import RFObserver.Processing.RollingBurst

namespace RFObserver

/-- The settings of a lossless replay with isolation on, and the detector's
matching tolerance. -/
structure ReplaySettings where
  bandwidth : Nat
  numFftBins : Nat
  psdTimeResolutionMs : ℚ
  streamingChunkSlices : Nat
  burstWindowRows : Nat
  burstEvalIntervalRows : Nat
  triggerPreSec : ℚ
  isolationLookbackSec : ℚ
  isolationMaxBurstSec : ℚ
  matchFreqTolHz : ℚ
  bins : 2 ≤ numFftBins

namespace ReplaySettings

variable (s : ReplaySettings)

/-- The samples of one PSD row, from `_recompute_chunk_params`. -/
def sliceSamples : Nat :=
  let hop := s.numFftBins / 2
  let asked := ⌊(s.bandwidth : ℚ) * s.psdTimeResolutionMs / 1000⌋.toNat
  let slice := if asked < s.numFftBins then s.numFftBins else asked
  let fftsPerSlice := max 1 ((slice - s.numFftBins) / hop + 1)
  s.numFftBins + (fftsPerSlice - 1) * hop

def chunkSamples : Nat := s.streamingChunkSlices * s.sliceSamples

def capacity : Nat := max 1 ⌊max s.triggerPreSec s.isolationLookbackSec * s.bandwidth⌋.toNat

def guard : ℤ := BurstRange.guard s.bandwidth

def maxBurst : ℤ := BurstRange.maxSamples s.bandwidth s.isolationMaxBurstSec

def reserve : ℤ := (s.burstEvalIntervalRows + 3) * s.sliceSamples + s.maxBurst + 2 * s.guard

/-- `_compute_lead_limit`. -/
def leadLimit : ℤ :=
  let limit := s.capacity - s.reserve
  let floor : ℤ := 2 * s.chunkSamples
  if limit < floor then floor else limit

/-- The limit is not clamped to two chunks. -/
def Unclamped : Prop := 2 * (s.chunkSamples : ℤ) ≤ s.capacity - s.reserve

end ReplaySettings

/-- A lossless replay: the receiver's ring, the chunks and grids on their way
by their stream positions, the burst thread's detector with its rows'
positions, and the bursts the isolation stage has. `cleared` is a receiver that
is through its wait, `waiting` a burst thread that waits for the stage.
`stream`, `evalEnd` and `previousEnd` only record what was received, and where
the last evaluation and the one before it ended. -/
structure LosslessReplay (α : Type*) where
  settings : ReplaySettings
  ring : CircularBuffer α
  cleared : Bool
  chunks : List Nat
  grids : List Nat
  detector : RollingBurstDetector ℚ
  rowPos : List Nat
  waiting : Option Nat
  batch : List IsolationBurst
  burstDoneEnd : Nat
  stream : List α
  evalEnd : Nat
  previousEnd : Nat

namespace LosslessReplay

variable {α : Type*}

def create [Zero α] (settings : ReplaySettings) : LosslessReplay α where
  settings := settings
  ring := .create settings.capacity (Nat.lt_of_lt_of_le Nat.one_pos (Nat.le_max_left ..))
  cleared := false
  chunks := []
  grids := []
  detector := .create settings.burstWindowRows settings.burstEvalIntervalRows settings.matchFreqTolHz
  rowPos := []
  waiting := none
  batch := []
  burstDoneEnd := 0
  stream := []
  evalEnd := 0
  previousEnd := 0

variable (s : LosslessReplay α)

/-- A completed burst with its samples, if its first row is no more than two
windows back. -/
def toFingerprint (e : BurstEmission ℚ) : IsolationBurst :=
  let kept := (s.detector.totalRowsWritten : ℤ) - 2 * s.settings.burstWindowRows
  let last := e.fingerprint.absEnd - 1
  match s.rowPos[e.fingerprint.absStart.toNat]?, s.rowPos[last.toNat]? with
  | some p0, some p1 =>
    if kept ≤ e.fingerprint.absStart ∧ e.fingerprint.absStart ≤ last ∧ p0 ≤ p1 then
      ⟨e.track.serial, some p0, some (p1 + s.settings.sliceSamples)⟩
    else ⟨e.track.serial, none, none⟩
  | _, _ => ⟨e.track.serial, none, none⟩

/-- A grid goes to the detector, and what it completes to the stage. -/
def feed (start : Nat) (rest : List Nat) (detected : List (DetectedBurst ℚ)) : LosslessReplay α :=
  let rows := s.settings.streamingChunkSlices
  let gridEnd := start + rows * s.settings.sliceSamples
  let evaluated := (s.detector.written rows).Ready
  let fed := { s with
    grids := rest
    detector := s.detector.feed ⟨rows, detected⟩
    rowPos := s.rowPos ++ (List.range rows).map fun i => start + i * s.settings.sliceSamples
    waiting := some gridEnd
    evalEnd := if evaluated then gridEnd else s.evalEnd
    previousEnd := if evaluated then s.evalEnd else s.previousEnd }
  { fed with batch := (fed.detector.emissions.drop s.detector.emissions.length).map fed.toFingerprint }

/-- `waits` is a receiver's wait that is over, `publishes` the burst thread's
after the stage is idle. -/
inductive Act (α : Type*)
  | waits
  | receives (data : List α)
  | psd
  | feeds (detected : List (DetectedBurst ℚ))
  | publishes

def step : Act α → Option (LosslessReplay α)
  | .waits =>
    if s.cleared = false ∧
        (s.ring.totalWritten : ℤ) + s.settings.chunkSamples - s.burstDoneEnd ≤ s.settings.leadLimit then
      some { s with cleared := true }
    else none
  | .receives data =>
    if s.cleared = true ∧ data.length = s.settings.chunkSamples then
      some { s with
        ring := s.ring.write data
        cleared := false
        chunks := s.chunks ++ [s.ring.totalWritten]
        stream := s.stream ++ data }
    else none
  | .psd =>
    match s.chunks with
    | [] => none
    | start :: rest => some { s with chunks := rest, grids := s.grids ++ [start] }
  | .feeds detected =>
    match s.waiting, s.grids with
    | none, start :: rest => some (s.feed start rest detected)
    | _, _ => none
  | .publishes => s.waiting.map fun gridEnd => { s with burstDoneEnd := gridEnd, waiting := none, batch := [] }

end LosslessReplay

end RFObserver
