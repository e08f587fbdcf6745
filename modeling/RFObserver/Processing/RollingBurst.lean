import Mathlib.Tactic
import Mathlib.Algebra.Order.Floor.Ring
import Mathlib.Data.List.Sort
import RFObserver.Lib.Runs

namespace RFObserver

variable {K : Type*} [Field K] [LinearOrder K] [IsStrictOrderedRing K]

/-- A burst of one evaluation's detection, with its rows in the evaluated window. -/
structure DetectedBurst (K : Type*) [Field K] [LinearOrder K] where
  startRow : Int
  endRow : Int
  centerFreqHz : K
  bandwidthHz : K
  peakPowerDb : K
  peakFreqHz : K
  bandwidth_nonneg : 0 ≤ bandwidthHz

/-- The arguments of one `_absorb` call, with the evaluation it belongs to. -/
structure Sighting (K : Type*) where
  absStart : Int
  absEnd : Int
  fLoHz : K
  fHiHz : K
  centerFreqHz : K
  peakPowerDb : K
  peakFreqHz : K
  stillGrowing : Bool
  eval : Nat
  deriving DecidableEq

/-- A burst being tracked across evaluations. `serial` numbers the tracks as
they are created and `absorbed` has what went into it, the newest first; the
code keeps neither. -/
structure TrackedBurst (K : Type*) where
  absStart : Int
  absEnd : Int
  fLoHz : K
  fHiHz : K
  centerFreqHz : K
  peakPowerDb : K
  peakFreqHz : K
  lastEval : Nat
  stillGrowing : Bool
  emitted : Bool
  serial : Nat
  absorbed : List (Sighting K)
  deriving DecidableEq

/-- An emitted burst. The code gives its rows as times, counted back from now
at one time resolution per row. -/
structure BurstFingerprint (K : Type*) where
  absStart : Int
  absEnd : Int
  centerFreqHz : K
  peakFreqHz : K
  bandwidthHz : K
  peakPowerDb : K
  deriving DecidableEq

namespace TrackedBurst

/-- A new track of one sighting. -/
def create (x : Sighting K) (serial : Nat) : TrackedBurst K :=
  { absStart := x.absStart, absEnd := x.absEnd, fLoHz := x.fLoHz, fHiHz := x.fHiHz,
    centerFreqHz := x.centerFreqHz, peakPowerDb := x.peakPowerDb, peakFreqHz := x.peakFreqHz,
    lastEval := x.eval, stillGrowing := x.stillGrowing, emitted := false, serial, absorbed := [x] }

/-- `_absorb`'s test: near in frequency, and in time within three rows. -/
def Close (t : TrackedBurst K) (tol : K) (x : Sighting K) : Prop :=
  |x.centerFreqHz - t.centerFreqHz| ≤ tol + (x.fHiHz - x.fLoHz + t.fHiHz - t.fLoHz) / 2 ∧
    x.absStart ≤ t.absEnd + 3 ∧ t.absStart - 3 ≤ x.absEnd

instance Close.decidable (t : TrackedBurst K) (tol : K) (x : Sighting K) : Decidable (t.Close tol x) :=
  inferInstanceAs (Decidable (_ ∧ _))

def Widened (t : TrackedBurst K) (x : Sighting K) : Prop :=
  x.fLoHz < t.fLoHz ∨ t.fHiHz < x.fHiHz

instance Widened.decidable (t : TrackedBurst K) (x : Sighting K) : Decidable (t.Widened x) :=
  inferInstanceAs (Decidable (_ ∨ _))

def absorb (t : TrackedBurst K) (x : Sighting K) : TrackedBurst K :=
  { t with
    absStart := min t.absStart x.absStart
    absEnd := max t.absEnd x.absEnd
    fLoHz := min t.fLoHz x.fLoHz
    fHiHz := max t.fHiHz x.fHiHz
    centerFreqHz := (min t.fLoHz x.fLoHz + max t.fHiHz x.fHiHz) / 2
    peakFreqHz := if t.peakPowerDb < x.peakPowerDb then x.peakFreqHz else t.peakFreqHz
    peakPowerDb := max t.peakPowerDb x.peakPowerDb
    lastEval := x.eval
    stillGrowing := x.stillGrowing
    absorbed := x :: t.absorbed }

def toFingerprint (t : TrackedBurst K) : BurstFingerprint K :=
  { absStart := t.absStart, absEnd := t.absEnd, centerFreqHz := t.centerFreqHz, peakFreqHz := t.peakFreqHz,
    bandwidthHz := max (t.fHiHz - t.fLoHz) 0, peakPowerDb := t.peakPowerDb }

/-- Emitted at this evaluation: seen and no longer growing, or scrolled out. -/
def Finished (t : TrackedBurst K) (evalCount : Nat) (base : Int) : Prop :=
  t.emitted = false ∧ (t.lastEval = evalCount ∧ t.stillGrowing = false ∨ t.absEnd < base)

instance Finished.decidable (t : TrackedBurst K) (evalCount : Nat) (base : Int) : Decidable (t.Finished evalCount base) :=
  inferInstanceAs (Decidable (_ ∧ _))

def mark (t : TrackedBurst K) (evalCount : Nat) (base : Int) : TrackedBurst K :=
  if t.Finished evalCount base then { t with emitted := true } else t

end TrackedBurst

/-- One emission: the track as it was then, at which evaluation and window base. -/
structure BurstEmission (K : Type*) where
  track : TrackedBurst K
  eval : Nat
  base : Int
  deriving DecidableEq

def BurstEmission.fingerprint (e : BurstEmission K) : BurstFingerprint K :=
  e.track.toFingerprint

/-- The frequency slop when matching a re-detected burst to a tracked one. -/
def matchFreqTol (binHz : K) : K := max (binHz * 2) 1000

/-- The edges of a band. -/
def lowEdge (centerFreqHz bandwidthHz : K) : K := centerFreqHz - bandwidthHz / 2

def highEdge (centerFreqHz bandwidthHz : K) : K := centerFreqHz + bandwidthHz / 2

def middle (fLoHz fHiHz : K) : K := (fLoHz + fHiHz) / 2

/-- A time difference in seconds, from microseconds. -/
def totalSeconds (micros : ℤ) : K := micros / 1000000

def toMillis (seconds : K) : K := seconds * 1000

/-- The tracking state. A reference to a track is its position in `tracked`,
which is also its insertion order (the code's `_order`). `created`, `passed`,
`emissions` and `dropped` only record what has happened: the tracks created,
the bursts passed to `_absorb`, what `feed` has returned, the tracks let go. -/
structure RollingBurstDetector (K : Type*) where
  windowRows : Nat
  evalInterval : Nat
  matchFreqTolHz : K
  rowsFilled : Nat
  rowsSinceEval : Nat
  totalRowsWritten : Nat
  evalCount : Nat
  evalBaseAbs : Option Int
  tracked : List (TrackedBurst K)
  index : Int → List Nat
  created : Nat
  passed : List (Sighting K)
  emissions : List (BurstEmission K)
  dropped : List (TrackedBurst K)

namespace RollingBurstDetector

def create (windowRows evalInterval : Nat) (matchFreqTolHz : K) : RollingBurstDetector K :=
  { windowRows, evalInterval, matchFreqTolHz, rowsFilled := 0, rowsSinceEval := 0, totalRowsWritten := 0,
    evalCount := 0, evalBaseAbs := none, tracked := [], index := fun _ => [], created := 0, passed := [],
    emissions := [], dropped := [] }

variable [FloorRing K] (s : RollingBurstDetector K)

/-- The buckets an interval touches, with one of margin on each side. The
bucket width is the matching tolerance. -/
def bucketRange (loHz hiHz : K) : List Int :=
  let first := ⌊loHz / s.matchFreqTolHz⌋ - 1
  (List.range (⌊hiHz / s.matchFreqTolHz⌋ + 2 - first).toNat).map fun i => first + i

/-- The index with the track at position `i` under every bucket its interval,
widened by the tolerance, touches. -/
def indexTrack (index : Int → List Nat) (i : Nat) (t : TrackedBurst K) : Int → List Nat :=
  let buckets := s.bucketRange (t.fLoHz - s.matchFreqTolHz) (t.fHiHz + s.matchFreqTolHz)
  fun k => if k ∈ buckets then index k ++ [i] else index k

def candidates (loHz hiHz : K) : List Nat :=
  (((s.bucketRange loHz hiHz).flatMap s.index).dedup).insertionSort (· ≤ ·)

/-- The first candidate that is close. -/
def matchOf (x : Sighting K) : Option Nat :=
  (s.candidates x.fLoHz x.fHiHz).find? fun i => (s.tracked[i]?).any fun t => t.Close s.matchFreqTolHz x

def absorb (x : Sighting K) : RollingBurstDetector K :=
  match s.matchOf x with
  | some i =>
    let widened := (s.tracked[i]?).filter fun t => t.Widened x
    { s with
      tracked := s.tracked.modify i fun t => t.absorb x
      index := widened.elim s.index fun t => s.indexTrack s.index i (t.absorb x)
      passed := x :: s.passed }
  | none =>
    let t := TrackedBurst.create x s.created
    { s with
      tracked := s.tracked ++ [t]
      index := s.indexTrack s.index s.tracked.length t
      created := s.created + 1
      passed := x :: s.passed }

/-- A detected burst in absolute rows. It may still be arriving when its newest
row is within three rows of the window's newest one. -/
def sighting (b : DetectedBurst K) : Sighting K :=
  let base : Int := s.totalRowsWritten - s.rowsFilled
  { absStart := base + b.startRow, absEnd := base + b.endRow, fLoHz := b.centerFreqHz - b.bandwidthHz / 2,
    fHiHz := b.centerFreqHz + b.bandwidthHz / 2, centerFreqHz := b.centerFreqHz, peakPowerDb := b.peakPowerDb,
    peakFreqHz := b.peakFreqHz, stillGrowing := decide ((s.rowsFilled : Int) - 3 ≤ b.endRow), eval := s.evalCount }

def rebuildIndex (tracked : List (TrackedBurst K)) : Int → List Nat :=
  tracked.zipIdx.foldl (fun index t => s.indexTrack index t.2 t.1) fun _ => []

def collectFinished (base : Int) : RollingBurstDetector K :=
  let marked := s.tracked.map fun t => t.mark s.evalCount base
  let keep := marked.filter fun t => ¬ t.absEnd < base
  { s with
    tracked := keep
    index := s.rebuildIndex keep
    emissions := s.emissions ++
      (s.tracked.filter fun t => t.Finished s.evalCount base).map fun t => ⟨t, s.evalCount, base⟩
    dropped := s.dropped ++ marked.filter fun t => t.absEnd < base }

/-- `_evaluate` up to `_collect_finished`, for the bursts detected. -/
def sighted (bursts : List (DetectedBurst K)) : RollingBurstDetector K :=
  let counted := { s with
    evalCount := s.evalCount + 1
    evalBaseAbs := some ((s.totalRowsWritten : Int) - s.rowsFilled) }
  bursts.foldl (fun s b => s.absorb (s.sighting b)) counted

def evaluate (bursts : List (DetectedBurst K)) : RollingBurstDetector K :=
  (s.sighted bursts).collectFinished (s.totalRowsWritten - s.rowsFilled)

/-- `rows` more rows are in the window. -/
def written (rows : Nat) : RollingBurstDetector K :=
  { s with
    rowsFilled := min (s.rowsFilled + rows) s.windowRows
    totalRowsWritten := s.totalRowsWritten + rows
    rowsSinceEval := s.rowsSinceEval + rows }

def Ready : Prop :=
  s.evalInterval ≤ s.rowsSinceEval ∧ s.evalInterval ≤ s.rowsFilled

instance Ready.decidable : Decidable s.Ready :=
  inferInstanceAs (Decidable (_ ∧ _))

/-- One call of `feed`, with what detection finds in the window if it evaluates. -/
structure Feed (K : Type*) [Field K] [LinearOrder K] where
  rows : Nat
  detected : List (DetectedBurst K)

def feed (call : Feed K) : RollingBurstDetector K :=
  let s := s.written call.rows
  if s.Ready then ({ s with rowsSinceEval := 0 }).evaluate call.detected else s

/-- The state in which this call comes to `_collect_finished`, if it evaluates. -/
def toCollect (call : Feed K) : Option (RollingBurstDetector K) :=
  let s := s.written call.rows
  if s.Ready then some (({ s with rowsSinceEval := 0 }).sighted call.detected) else none

def step (s : RollingBurstDetector K) (call : Feed K) : Option (RollingBurstDetector K) :=
  some (s.feed call)

/-- The runs of `feed` calls of a new detector, all of which meet a condition. -/
def Reach (allowed : RollingBurstDetector K → Feed K → Prop) (windowRows evalInterval : Nat) (tol : K) :
    RollingBurstDetector K → Prop :=
  Runs.Reach step (create windowRows evalInterval tol) allowed

end RollingBurstDetector

namespace BurstEmission

variable (e : BurstEmission K)

/-- Seen at its evaluation, and no burst it took in there touched the trailing margin. -/
def Settled : Prop :=
  (∃ x ∈ e.track.absorbed, x.eval = e.eval) ∧ ∀ x ∈ e.track.absorbed, x.eval = e.eval → x.stillGrowing = false

/-- The fingerprint's rows and frequencies are the union of what the track had absorbed. -/
structure Union : Prop where
  start : IsLeast (Sighting.absStart '' {x | x ∈ e.track.absorbed}) e.fingerprint.absStart
  stop : IsGreatest (Sighting.absEnd '' {x | x ∈ e.track.absorbed}) e.fingerprint.absEnd
  low : IsLeast (Sighting.fLoHz '' {x | x ∈ e.track.absorbed})
    (e.fingerprint.centerFreqHz - e.fingerprint.bandwidthHz / 2)
  high : IsGreatest (Sighting.fHiHz '' {x | x ∈ e.track.absorbed})
    (e.fingerprint.centerFreqHz + e.fingerprint.bandwidthHz / 2)

end BurstEmission

/-- The sighting's rows and frequencies lie within the fingerprint's. -/
def BurstFingerprint.Covers (f : BurstFingerprint K) (x : Sighting K) : Prop :=
  f.absStart ≤ x.absStart ∧ x.absEnd ≤ f.absEnd ∧ f.centerFreqHz - f.bandwidthHz / 2 ≤ x.fLoHz ∧
    x.fHiHz ≤ f.centerFreqHz + f.bandwidthHz / 2

instance decidableCovers (f : BurstFingerprint K) (x : Sighting K) : Decidable (f.Covers x) :=
  inferInstanceAs (Decidable (_ ∧ _ ∧ _ ∧ _))

namespace RollingBurstDetector

variable [FloorRing K] (s : RollingBurstDetector K)

/-- Every burst is in one track, every track is emitted once, when it is due,
with the union of what it absorbed, and none is let go before. -/
structure EmitsOnce : Prop where
  absorbed : ((s.tracked ++ s.dropped).flatMap TrackedBurst.absorbed).Perm s.passed
  serials : ((s.tracked ++ s.dropped).map TrackedBurst.serial).Nodup
  once : (s.emissions.map fun e => e.track.serial).Nodup
  reported : ∀ t ∈ s.dropped, ∃ e ∈ s.emissions, e.track.serial = t.serial
  due : ∀ e ∈ s.emissions, e.Settled ∨ e.track.absEnd < e.base
  extent : ∀ e ∈ s.emissions, e.Union

/-- At no evaluation does a track that was not emitted take in a burst that
touches the trailing margin and, as its last one, a burst that does not. -/
def Steady (s : RollingBurstDetector K) (call : Feed K) : Prop :=
  ∀ m ∈ s.toCollect call, ∀ t ∈ m.tracked, t.Finished m.evalCount (m.totalRowsWritten - m.rowsFilled) →
    (∀ x ∈ t.absorbed, x.eval = m.evalCount → x.stillGrowing = false) ∨
      t.absEnd < (m.totalRowsWritten : Int) - m.rowsFilled

def Reported (x : Sighting K) : Prop :=
  ∃ e ∈ s.emissions, e.fingerprint.Covers x

/-- Every burst whose rows have scrolled out of the last evaluated window is
within an emitted fingerprint. -/
def NoneLost : Prop :=
  ∀ x ∈ s.passed, ∀ base ∈ s.evalBaseAbs, x.absEnd < base → s.Reported x

/-- At every evaluation, what an emitted track takes in is within an emitted
fingerprint, and so is what has scrolled out while its track stays open. -/
def Contained (s : RollingBurstDetector K) (call : Feed K) : Prop :=
  ∀ m ∈ s.toCollect call, ∀ t ∈ m.tracked,
    (t.emitted = true → ∀ x ∈ t.absorbed, x.eval = m.evalCount → m.Reported x) ∧
      (t.emitted = false → ¬ t.Finished m.evalCount (m.totalRowsWritten - m.rowsFilled) →
        ∀ x ∈ t.absorbed, x.absEnd < (m.totalRowsWritten : Int) - m.rowsFilled → m.Reported x)

instance decidableReported (x : Sighting K) : Decidable (s.Reported x) :=
  inferInstanceAs (Decidable (∃ e ∈ s.emissions, e.fingerprint.Covers x))

instance decidableSteady (call : Feed K) : Decidable (s.Steady call) :=
  inferInstanceAs (Decidable (∀ m ∈ s.toCollect call, ∀ t ∈ m.tracked,
    t.Finished m.evalCount (m.totalRowsWritten - m.rowsFilled) → _ ∨ _))

instance decidableContained (call : Feed K) : Decidable (s.Contained call) :=
  inferInstanceAs (Decidable (∀ m ∈ s.toCollect call, ∀ t ∈ m.tracked, _ ∧ _))

instance decidableSettled (e : BurstEmission K) : Decidable e.Settled :=
  inferInstanceAs (Decidable ((∃ x ∈ e.track.absorbed, x.eval = e.eval) ∧ ∀ x ∈ e.track.absorbed, _ → _))

end RollingBurstDetector
end RFObserver
