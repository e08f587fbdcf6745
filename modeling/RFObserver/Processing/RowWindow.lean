import RFObserver.Lib.RoundHalfEven
import RFObserver.Lib.WrappedStore
import RFObserver.Processing.RollingBurstRuns

namespace RFObserver
open WrappedStore

variable {K : Type*} [Field K] [LinearOrder K] [IsStrictOrderedRing K] {α : Type*}

/-- What `detect_bursts` finds in a grid: the rows of each burst lie in it, the
last one excluded. -/
structure GridDetection (α K : Type*) [Field K] [LinearOrder K] where
  bursts : List α → List (DetectedBurst K)
  first_nonneg : ∀ grid, ∀ b ∈ bursts grid, 0 ≤ b.startRow
  stop_le : ∀ grid, ∀ b ∈ bursts grid, b.endRow ≤ grid.length

/-- One call of `feed`: the rows, the stream sample of the first of them and
the samples per row. -/
structure GridFeed (α : Type*) where
  rows : List α
  chunkStart : Option Nat
  sliceSamples : Option Nat

namespace GridFeed

variable (call : GridFeed α)

/-- The first row's position and the row size, when both are given and a row has samples. -/
def positions : Option (Nat × Nat) :=
  call.chunkStart.bind fun start => (call.sliceSamples.filter (0 < ·)).map fun slice => (start, slice)

/-- Each row's position, if it was given. -/
def given : List (Option Nat) :=
  (List.range call.rows.length).map fun i => call.positions.map fun p => p.1 + i * p.2

end GridFeed

/-- A position as `_row_pos` has it. -/
def rowPosition (given : Option Nat) : Int := given.elim (-1) fun p => p

/-- A row's time on the time axis, as a whole number of microseconds after the
first row's. -/
def rowMicros (timeResolution : ℚ) (row : Int) : Int := roundHalfEven (row * timeResolution * 1000000)

/-- The row that `_evaluate` and `window_samples` read off a time. -/
def rowOfMicros (timeResolution : ℚ) (micros : Int) : Int := roundHalfEven (micros / 1000000 / timeResolution)

/-- A detected burst with the rows that its times give. -/
def DetectedBurst.timed (b : DetectedBurst K) (timeResolution : ℚ) : DetectedBurst K :=
  { b with
    startRow := rowOfMicros timeResolution (rowMicros timeResolution b.startRow)
    endRow := rowOfMicros timeResolution (rowMicros timeResolution b.endRow) }

/-- An emitted burst with the stream samples it spans. -/
structure PositionedBurst (K : Type*) where
  emission : BurstEmission K
  samples : Option (Int × Int)
  deriving DecidableEq

/-- The detector with its window of rows and the position of each row, kept for
two windows. `evaluated` and `returned` are of the last call: the grid it
evaluated and the bursts it returned. `fed` only records the rows fed since the
last reset with their positions. -/
structure RowWindow (α K : Type*) [Field K] [LinearOrder K] where
  detector : RollingBurstDetector K
  timeResolution : ℚ
  window : List α
  writePos : Nat
  rowPos : List Int
  sliceSamples : Option Nat
  lastDetection : Option (List (DetectedBurst K))
  evaluated : Option (List α)
  returned : List (PositionedBurst K)
  fed : List (α × Option Nat)

namespace RowWindow

/-- A new detector; `blank` is the row of lowest power a new window is filled with. -/
def create (windowRows evalInterval : Nat) (tol : K) (timeResolution : ℚ) (blank : α) : RowWindow α K where
  detector := .create windowRows evalInterval tol
  timeResolution := timeResolution
  window := List.replicate windowRows blank
  writePos := 0
  rowPos := List.replicate (2 * windowRows) (-1)
  sliceSamples := none
  lastDetection := none
  evaluated := none
  returned := []
  fed := []

variable (s : RowWindow α K)

/-- The samples from the first of the rows on and up to the end of the last one,
none when they are unknown or no longer kept. -/
def spanSamples (first stop : Int) : Option (Int × Int) :=
  let size : Int := s.rowPos.length
  let last := stop - 1
  s.sliceSamples.bind fun slice =>
    if first < s.detector.totalRowsWritten - size ∨ last < first then none
    else
      let p0 := (s.rowPos[(first % size).toNat]?).getD (-1)
      let p1 := (s.rowPos[(last % size).toNat]?).getD (-1)
      if p0 < 0 ∨ p1 < p0 then none else some (p0, p1 + slice)

/-- `start_sample` and `stop_sample` of an emitted track. -/
def toFingerprint (e : BurstEmission K) : PositionedBurst K :=
  ⟨e, s.spanSamples e.track.absStart e.track.absEnd⟩

/-- The samples of a burst of the last evaluation. -/
def windowSamples (b : DetectedBurst K) : Option (Int × Int) :=
  s.detector.evalBaseAbs.bind fun base =>
    let b := b.timed s.timeResolution
    s.spanSamples (base + b.startRow) (base + b.endRow)

/-- The window's rows in the order they came. -/
def orderedWindow : List α :=
  if s.detector.rowsFilled < s.window.length then s.window.take s.detector.rowsFilled
  else s.window.drop s.writePos ++ s.window.take s.writePos

/-- The rows and their positions are written; none when the rows do not fit in
what is left of the window and once more into the window. -/
def write (call : GridFeed α) : Option (RowWindow α K) :=
  (writeSlices s.window s.writePos call.rows).map fun window =>
    { s with
      detector := s.detector.written call.rows.length
      window
      writePos := next s.window.length s.writePos call.rows.length
      rowPos := writeEach s.rowPos s.detector.totalRowsWritten (call.given.map rowPosition)
      sliceSamples := (call.positions.map Prod.snd).or s.sliceSamples
      evaluated := none
      returned := []
      fed := s.fed ++ call.rows.zip call.given }

variable [FloorRing K]

def evaluate (detect : GridDetection α K) : RowWindow α K :=
  let grid := s.orderedWindow
  let bursts := detect.bursts grid
  let found := bursts.map fun b => b.timed s.timeResolution
  let detector := ({ s.detector with rowsSinceEval := 0 }).evaluate found
  { s with
    detector
    lastDetection := some bursts
    evaluated := some grid
    returned := (detector.emissions.drop s.detector.emissions.length).map s.toFingerprint }

def feed (detect : GridDetection α K) (call : GridFeed α) : Option (RowWindow α K) :=
  (s.write call).map fun s => if s.detector.Ready then s.evaluate detect else s

/-- Everything is cleared; the rows left in the window are not read again. -/
def reset (blank : α) : RowWindow α K :=
  create s.window.length s.detector.evalInterval s.detector.matchFreqTolHz s.timeResolution blank

/-- A call of `feed` or of `reset`. -/
inductive Call (α : Type*)
  | feed (call : GridFeed α)
  | reset (blank : α)

def step (detect : GridDetection α K) (s : RowWindow α K) : Call α → Option (RowWindow α K)
  | .feed call => s.feed detect call
  | .reset blank => some (s.reset blank)

/-- The runs of a new detector's calls that return. -/
def Reach (detect : GridDetection α K) (windowRows evalInterval : Nat) (tol : K) (timeResolution : ℚ) (blank : α) :
    RowWindow α K → Prop :=
  Runs.Reach (step detect) (create windowRows evalInterval tol timeResolution blank) fun _ _ => True

end RowWindow
end RFObserver
