import RFObserver.Capture.CircularBuffer
import RFObserver.Lib.LossyStream
import RFObserver.Lib.RoundHalfEven
import RFObserver.Lib.StepFunction
import RFObserver.Lib.Stretches

namespace RFObserver
open LossyStream

/-- One write operation of a run: received samples, or zeros for lost ones. -/
inductive Op (α : Type*)
  | iq (data : List α)
  | zeros (count : Nat)

structure RunSpec where
  scheduleId : String
  run : Nat
  startMs : ℤ
  nSamples : Nat
  rateHz : ℚ
  centerFreqHz : ℚ
  label : String
  deriving DecidableEq

inductive RunStatus
  | pending | missed | recording | recorded | partialRun
  deriving DecidableEq

def gapLe (a b : Nat × Nat) : Prop := a.1 < b.1 ∨ (a.1 = b.1 ∧ a.2 ≤ b.2)

instance : DecidableRel gapLe := fun a b => inferInstanceAs (Decidable (a.1 < b.1 ∨ (a.1 = b.1 ∧ a.2 ≤ b.2)))

instance : Std.Total gapLe := ⟨fun a b => by unfold gapLe; omega⟩

instance : IsTrans (Nat × Nat) gapLe := ⟨fun a b c => by unfold gapLe; omega⟩

/-- Gaps in the order of Python's tuples. -/
def sortedGaps (gaps : Gaps) : Gaps := gaps.insertionSort gapLe

/-- The samples lost before the chunk's first one, and the gaps inside it. -/
def splitGaps (gaps : Gaps) : Nat × Gaps :=
  (lostWhere (· ≤ 0) gaps, sortedGaps (gaps.filter fun g => 0 < g.1))

/-- The loop of `place` over the gaps still ahead, `lostBefore` samples
having been lost by the ones already passed. -/
def placeLoop (target n : Nat) : Nat → Gaps → Nat × Nat
  | lostBefore, [] => (min (target - lostBefore) n, 0)
  | lostBefore, g :: gaps =>
    if target < g.1 + lostBefore then (min (target - lostBefore) n, 0)
    else if target < g.1 + lostBefore + g.2 then (g.1, g.1 + lostBefore + g.2 - target)
    else placeLoop target n (lostBefore + g.2) gaps

/-- Where time-sample `target` is in a chunk of `n` samples: its offset, and
the zeros to write first when it falls inside a gap. -/
def place (target : Nat) (gaps : Gaps) (n : Nat) : Nat × Nat := placeLoop target n 0 (sortedGaps gaps)

/-- One run being cut out of the stream. `breaks` lists the zero fill by
stream position: the position the zeros precede, and the zeros written
before it in total. -/
structure RunCutter where
  spec : RunSpec
  started : Bool
  done : Bool
  written : Nat
  reason : Option String
  nextPos : Nat
  gaps : List (Nat × Nat)
  lost : Nat
  late : Nat
  firstTime : Option ℚ
  errorNs : Option ℤ
  streamStart : Option Nat
  breaks : List (Nat × Nat)
  zerosTotal : Nat
  deriving DecidableEq

namespace RunCutter

def create (spec : RunSpec) : RunCutter where
  spec := spec
  started := false
  done := false
  written := 0
  reason := none
  nextPos := 0
  gaps := []
  lost := 0
  late := 0
  firstTime := none
  errorNs := none
  streamStart := none
  breaks := []
  zerosTotal := 0

def status (c : RunCutter) : RunStatus :=
  if !c.started then if c.done then .missed else .pending
  else if !c.done then .recording
  else if c.reason = none ∧ c.lost = 0 ∧ c.written = c.spec.nSamples then .recorded
  else .partialRun

/-- What the cutter reports about its run. -/
structure Info where
  requestedStartMs : ℤ
  firstSampleEpoch : Option ℚ
  startErrorNs : Option ℤ
  lateStartSamples : Nat
  gaps : List (Nat × Nat)
  lostSamples : Nat
  streamStart : Option Nat
  samples : Nat
  deriving DecidableEq

def info (c : RunCutter) : Info where
  requestedStartMs := c.spec.startMs
  firstSampleEpoch := c.firstTime
  startErrorNs := c.errorNs
  lateStartSamples := c.late
  gaps := c.gaps
  lostSamples := c.lost
  streamStart := c.streamStart
  samples := c.written

/-- The file index of stream sample `pos`, `none` before the run started. The
breaks are in order, so the last one at or before `pos` has its zeros. -/
def fileIndex (c : RunCutter) (pos : Nat) : Option ℤ :=
  c.streamStart.map fun start : Nat => (pos : ℤ) - start + StepFunction.value 0 c.breaks pos

/-- The stream position just after the file's last stream sample. -/
def streamEnd (c : RunCutter) : Option Nat :=
  c.streamStart.map fun start => start + c.written - c.zerosTotal

def room (c : RunCutter) : Nat := c.spec.nSamples - c.written

def checkDone (c : RunCutter) : RunCutter :=
  if c.spec.nSamples ≤ c.written then { c with done := true } else c

/-- End the run early; nothing is padded. -/
def endRun (c : RunCutter) (reason : String) : RunCutter :=
  if c.done then c else { c with done := true, reason := some reason }

variable {α : Type*}

/-- A cutter and the operations it has returned so far in one call. -/
abbrev Feeding (α : Type*) := RunCutter × List (Op α)

def iq (f : Feeding α) (data : List α) : Feeding α :=
  let k := min data.length f.1.room
  if 0 < k then
    (checkDone { f.1 with written := f.1.written + k }, f.2 ++ [.iq (data.take k)])
  else (checkDone f.1, f.2)

/-- `count` zeros before stream position `pos`. With `shifts` they stand
for lost samples, without it for stream positions that were skipped. -/
def zeros (f : Feeding α) (count pos : Nat) (shifts : Bool) : Feeding α :=
  let k := min count f.1.room
  if 0 < k then
    (checkDone { f.1 with
      zerosTotal := if shifts then f.1.zerosTotal + k else f.1.zerosTotal
      breaks := if shifts then f.1.breaks ++ [(pos, f.1.zerosTotal + k)] else f.1.breaks
      gaps := Stretches.extend f.1.gaps f.1.written k
      lost := f.1.lost + k
      written := f.1.written + k }, f.2 ++ [.zeros k])
  else (checkDone f.1, f.2)

/-- The loop of `chunk`; a gap at or before `start` lies before the run. -/
def chunkLoop (chunk : List α) (chunkStart start : Nat) : Nat → Gaps → Feeding α → Feeding α
  | pos, [], f => iq f (chunk.drop pos)
  | pos, g :: gaps, f =>
    if g.1 ≤ start then chunkLoop chunk chunkStart start pos gaps f
    else chunkLoop chunk chunkStart start g.1 gaps
      (zeros (iq f ((chunk.take g.1).drop pos)) g.2 (chunkStart + g.1) true)

/-- The samples `chunk[start:]` with zeros for the gaps after `start`. -/
def chunk (f : Feeding α) (chunk : List α) (chunkStart start : Nat) (gaps : Gaps) : Feeding α :=
  chunkLoop chunk chunkStart start start gaps f

/-- The start falls on a sample of this chunk or in a gap inside it. -/
def beginInChunk (c : RunCutter) (samples : List α) (chunkStart target : Nat) (inner : Gaps) : Feeding α :=
  let (off, head) := place target inner samples.length
  chunk (zeros ({ c with streamStart := some (chunkStart + off) }, []) head (chunkStart + off) true)
    samples chunkStart off inner

/-- The start falls in the `back` samples lost right before this chunk. -/
def beginInLoss (c : RunCutter) (samples : List α) (chunkStart back : Nat) (inner : Gaps) : Feeding α :=
  chunk (zeros ({ c with streamStart := some chunkStart }, []) back chunkStart true) samples chunkStart 0 inner

/-- The samples before the chunk that the ring still holds from `p0` on,
and the position they start at. -/
def readBack (ring : Option (CircularBuffer α)) (chunkStart : Nat) (p0 : ℤ) : Nat × Option (List α) :=
  let oldest := match ring with
    | some r => r.bounds.1
    | none => chunkStart
  let wanted := (max p0 (min oldest chunkStart : Nat)).toNat
  let data := match ring with
    | some r => if wanted < chunkStart then r.readRange wanted chunkStart else none
    | none => none
  (if data.isNone then chunkStart else wanted, data)

/-- The start is older than this chunk: read back from the ring. `p0` is its
stream position if nothing was lost since. -/
def beginInRing (c : RunCutter) (samples : List α) (chunkStart : Nat) (p0 : ℤ) (before : Nat) (inner : Gaps)
    (ring : Option (CircularBuffer α)) : Feeding α :=
  let (start, data) := readBack ring chunkStart p0
  let late := (start - p0).toNat
  let c := { c with streamStart := some start }
  let f := if late ≠ 0 then zeros ({ c with late := min late c.spec.nSamples }, []) late start true else (c, [])
  let f := match data with
    | some d => iq f d
    | none => f
  chunk (zeros f before chunkStart true) samples chunkStart 0 inner

/-- The requested instant in samples after the chunk's first one. -/
def target (c : RunCutter) (captureTime : ℚ) : ℤ :=
  roundHalfEven (((c.spec.startMs : ℚ) / 1000 - captureTime) * c.spec.rateHz)

def begin (c : RunCutter) (samples : List α) (chunkStart : Nat) (captureTime : ℚ) (gaps : Gaps)
    (ring : Option (CircularBuffer α)) : Feeding α :=
  let rate := c.spec.rateHz
  let delta := (c.spec.startMs : ℚ) / 1000 - captureTime
  let target := c.target captureTime
  let (before, inner) := splitGaps gaps
  let span := samples.length + (inner.map Prod.snd).sum
  if (span : ℤ) ≤ target then (c, [])
  else
    let c := { c with
      started := true
      firstTime := some (captureTime + target / rate)
      errorNs := some (roundHalfEven ((target / rate - delta) * 1000000000)) }
    let f :=
      if 0 ≤ target then beginInChunk c samples chunkStart target.toNat inner
      else if 0 ≤ target + before then beginInLoss c samples chunkStart (-target).toNat inner
      else beginInRing c samples chunkStart (chunkStart + target + before) before inner ring
    ({ f.1 with nextPos := chunkStart + samples.length }, f.2)

/-- A chunk of a run that has started. Stream samples that never reached
this cutter move the file and the stream alike. -/
def continueRun (c : RunCutter) (samples : List α) (chunkStart : Nat) (gaps : Gaps) : Feeding α :=
  let (before, inner) := splitGaps gaps
  let f := if c.nextPos < chunkStart then zeros (c, []) (chunkStart - c.nextPos) chunkStart false else (c, [])
  let f := chunk (zeros f before chunkStart true) samples chunkStart 0 inner
  ({ f.1 with nextPos := chunkStart + samples.length }, f.2)

def feed (c : RunCutter) (samples : List α) (chunkStart : Nat) (captureTime : ℚ) (gaps : Gaps)
    (centerFreqHz : ℚ) (ring : Option (CircularBuffer α)) : Feeding α :=
  if c.done then (c, [])
  else if c.started then
    if centerFreqHz ≠ c.spec.centerFreqHz then (c.endRun "retuned", [])
    else c.continueRun samples chunkStart gaps
  else c.begin samples chunkStart captureTime gaps ring

end RunCutter
end RFObserver
