import Mathlib.Data.List.Sort
import Mathlib.Tactic
import RFObserver.Lib.Runs
import RFObserver.Processing.Isolate

namespace RFObserver

structure BurstCandidate where
  burst : IsolationBurst
  snrDb : ℚ
  deriving DecidableEq

/-- Where a batch's samples are: the ring, or the sweep's whole capture. -/
inductive BurstSource
  | ring (itemsize : Nat)
  | wholeCapture
  deriving DecidableEq

structure IsolationBatch where
  candidates : List BurstCandidate
  sampleRateHz : ℚ
  source : BurstSource
  deriving DecidableEq

def IsolationBatch.whole (batch : IsolationBatch) : Bool := batch.source = .wholeCapture

def IsolationBatch.onRing (batch : IsolationBatch) : Bool := !batch.whole

/-- `_Work`; of the samples only their number. -/
structure IsolationWork where
  cand : BurstCandidate
  rng : Option BurstRange
  data : Option Nat
  snapped : Bool
  readFailed : Bool
  bounds : Option (ℤ × ℤ)
  deriving DecidableEq

/-- `STATES` but `queue_full`. -/
inductive BurstState
  | isolated
  | iqExpired
  | tooLong
  | error
  deriving DecidableEq

/-- `EXPIRY_REASONS`. -/
inductive ExpiryReason
  | overwritten
  | unwritten
  | nopos
  deriving DecidableEq

inductive IsolationCounter
  | received
  | picked
  | gatedOut
  | queueFull
  | state (state : BurstState)
  | expired (reason : ExpiryReason)
  | archiveError
  | moduleError
  | handoffError
  deriving DecidableEq

/-- `IsolationStats`. -/
abbrev IsolationStats := IsolationCounter → Nat

namespace IsolationStats

def count (stats : IsolationStats) (name : IsolationCounter) (n : Nat) : IsolationStats :=
  fun other => if other = name then stats other + n else stats other

def countAll (stats : IsolationStats) (names : List IsolationCounter) : IsolationStats :=
  names.foldl (fun stats name => stats.count name 1) stats

end IsolationStats

/-- The settings of the stage, and which consumers it has. -/
structure IsolationSettings where
  snrDb : ℚ
  maxPerSec : ℤ
  maxBurstSec : ℚ
  queueMax : ℤ
  archive : Bool
  moduleFeed : Bool
  handoff : Bool
  deriving DecidableEq

/-- What a read of a source does: it raises, finds nothing (with the ring's
bounds just after it, unless that raises), or gives so many samples. -/
inductive SourceRead
  | raises
  | gone (bounds : Option (ℤ × ℤ))
  | samples (n : Nat)
  deriving DecidableEq

/-- What happens while one work is isolated and handed to the consumers. -/
structure IsolationOutcome where
  read : SourceRead
  bounds : Option (ℤ × ℤ)
  isolates : Bool
  refusesSaving : Bool
  archives : Bool
  feeds : Bool
  handsOff : Bool
  deriving DecidableEq

def maxWholeCaptureBatches : ℤ := 2

def snapshotMaxBytes : ℤ := 256 * 1024 * 1024

namespace IsolationWork

variable (batch : IsolationBatch) (work : IsolationWork)

/-- `_read`: the samples with the ring's bounds, none if it raises. -/
def read (read : SourceRead) : Option (Option Nat × Option (ℤ × ℤ)) :=
  if work.snapped then some (work.data, work.bounds)
  else
    match work.rng, batch.source, read with
    | some _, .ring _, .raises => none
    | some _, .ring _, .gone bounds => bounds.map fun bounds => (none, some bounds)
    | some _, .ring _, .samples n => some (some n, work.bounds)
    | some _, .wholeCapture, _ => some (none, work.bounds)
    | none, .ring _, _ => some (none, work.bounds)
    | none, .wholeCapture, .raises => none
    | none, .wholeCapture, .gone _ => some (none, work.bounds)
    | none, .wholeCapture, .samples n => some (some n, work.bounds)

/-- `_expired`: why it is, on a ring; none if it raises. -/
def expired (bounds asked : Option (ℤ × ℤ)) : Option (Option ExpiryReason) :=
  match batch.source, work.rng with
  | .wholeCapture, _ => some none
  | .ring _, none => some (some .nopos)
  | .ring _, some rng =>
    match bounds.orElse fun _ => asked with
    | none => none
    | some (oldest, _) =>
      -- the age is in milliseconds of the sample rate
      if batch.sampleRateHz = 0 then none
      else some (some (if rng.start < oldest then .overwritten else .unwritten))

/-- The consumers that raised. -/
def fanOut (settings : IsolationSettings) (outcome : IsolationOutcome) : List IsolationCounter :=
  (if settings.archive && !outcome.refusesSaving && !outcome.archives then [.archiveError] else []) ++
  (if settings.moduleFeed && !outcome.feeds then [.moduleError] else []) ++
  (if settings.handoff && !outcome.handsOff then [.handoffError] else [])

/-- `_one` without samples: the state, and the counters it counts besides. -/
def gone (bounds asked : Option (ℤ × ℤ)) : BurstState × List IsolationCounter :=
  match work.expired batch bounds asked with
  | none => (.error, [])
  | some reason => (.iqExpired, reason.toList.map .expired)

/-- `_one` with samples. -/
def isolate (settings : IsolationSettings) (outcome : IsolationOutcome) : BurstState × List IsolationCounter :=
  if outcome.isolates then
    (if work.rng.any (·.truncated) then .tooLong else .isolated, fanOut settings outcome)
  else (.error, [])

def one (settings : IsolationSettings) (outcome : IsolationOutcome) : BurstState × List IsolationCounter :=
  if work.readFailed then (.error, [])
  else
    match work.read batch outcome.read with
    | none => (.error, [])
    | some (none, bounds) => work.gone batch bounds outcome.bounds
    | some (some n, bounds) =>
      if n = 0 then work.gone batch bounds outcome.bounds else work.isolate settings outcome

end IsolationWork

/-- A batch, or the `_STOP` sentinel. -/
inductive QueueItem
  | stop
  | batch (batch : IsolationBatch)
  deriving DecidableEq

/-- `_drain_remaining_as_queue_full`: an item is taken, its task done, its
capture slot released and its candidates counted. -/
inductive DrainPhase
  | taking
  | holding (item : QueueItem)
  | releasing (batch : IsolationBatch)
  | counting (batch : IsolationBatch)
  deriving DecidableEq

/-- `_loop`, with `process_batch` between `gating` and `isolating`. -/
inductive WorkerPhase
  | looping
  | waiting
  | stopping
  | gating (batch : IsolationBatch)
  | snapshotting (batch : IsolationBatch) (rest : List BurstCandidate) (used : ℤ) (lazy snapped : List IsolationWork)
  | isolating (batch : IsolationBatch) (works : List IsolationWork)
  | releasing (batch : IsolationBatch)
  | finishing
  | draining (drain : DrainPhase)
  | exiting
  | ended
  deriving DecidableEq

/-- The call of `stop` that is under way. -/
inductive StopPhase
  | idle
  | setting
  | draining (drain : DrainPhase)
  | putting
  | joining
  | drainingLast (drain : DrainPhase)
  deriving DecidableEq

/-- What became of a picked burst. -/
structure BurstFate where
  cand : BurstCandidate
  ring : Bool
  state : BurstState
  deriving DecidableEq

/-- The stage, its worker thread and the call of `stop`. `submitting` is the
batch of the `submit` that has the lock and has put it in the queue. `picks`
and `fates` only record what happened. -/
structure IsolationStage where
  settings : IsolationSettings
  queue : List QueueItem
  unfinishedTasks : ℤ
  stopEvent : Bool
  submitting : Option IsolationBatch
  wholePending : ℤ
  windowStart : ℚ
  windowCount : ℤ
  stats : IsolationStats
  thread : Option WorkerPhase
  control : StopPhase
  picks : List BurstCandidate
  fates : List BurstFate

namespace IsolationStage

def create (settings : IsolationSettings) : IsolationStage where
  settings := settings
  queue := []
  unfinishedTasks := 0
  stopEvent := false
  submitting := none
  wholePending := 0
  windowStart := -10 ^ 18
  windowCount := 0
  stats := fun _ => 0
  thread := none
  control := .idle
  picks := []
  fates := []

variable (s : IsolationStage)

def maxsize : Nat := (max 1 s.settings.queueMax).toNat

def count (name : IsolationCounter) (n : Nat) : IsolationStage := { s with stats := s.stats.count name n }

/-- `queue.put_nowait`, none if it is full. -/
def putNowait (item : QueueItem) : Option IsolationStage :=
  if s.queue.length < s.maxsize then
    some { s with queue := s.queue ++ [item], unfinishedTasks := s.unfinishedTasks + 1 }
  else none

def taskDone : IsolationStage := { s with unfinishedTasks := s.unfinishedTasks - 1 }

/-- `submit` up to its put. -/
def submit (batch : IsolationBatch) : IsolationStage :=
  let n := batch.candidates.length
  let s := s.count .received n
  if s.stopEvent then s.count .queueFull n
  else if batch.whole && maxWholeCaptureBatches ≤ s.wholePending then s.count .queueFull n
  else
    match s.putNowait (.batch batch) with
    | none => s.count .queueFull n
    | some s => { s with submitting := some batch }

/-- `_release`, under the lock. -/
def release (batch : IsolationBatch) : Option IsolationStage :=
  if batch.whole then
    if s.submitting.isNone then some { s with wholePending := s.wholePending - 1 } else none
  else some s

/-- `start`, unless the thread is alive. -/
def start : IsolationStage :=
  match s.thread with
  | none | some .ended => { s with stopEvent := false, thread := some .looping }
  | some _ => s

/-- `_gate` with what the monotonic clock shows: the picked candidates, and the
window. -/
def gate (cands : List BurstCandidate) (sampleRateHz clock : ℚ) : List BurstCandidate × ℚ × ℤ :=
  let passed := (cands.filter fun c => s.settings.snrDb ≤ c.snrDb).insertionSort fun a b => b.snrDb ≤ a.snrDb
  let stops : List ℤ := cands.filterMap fun c => c.burst.stopSample
  let now : ℚ :=
    match stops.max? with
    | some stop => if 0 < sampleRateHz then stop / sampleRateHz else clock
    | none => clock
  let fresh : Bool := decide (now < s.windowStart ∨ 1 ≤ now - s.windowStart)
  let windowStart := if fresh then now else s.windowStart
  let windowCount := if fresh then 0 else s.windowCount
  let room := max 0 (s.settings.maxPerSec - windowCount)
  let picked := passed.take room.toNat
  (picked, windowStart, windowCount + picked.length)

/-- The gate of a batch, and on to the snapshot. -/
def gated (batch : IsolationBatch) (clock : ℚ) : IsolationStage :=
  let (picked, windowStart, windowCount) := s.gate batch.candidates batch.sampleRateHz clock
  let s := { s with windowStart := windowStart, windowCount := windowCount, picks := s.picks ++ picked }
  let s := s.count .picked picked.length
  let s := s.count .gatedOut (batch.candidates.length - picked.length)
  { s with thread := some (.snapshotting batch picked 0 [] []) }

/-- One turn of the loop of `_snapshot`. -/
def snapshot (batch : IsolationBatch) (cand : BurstCandidate) (rest : List BurstCandidate) (used : ℤ)
    (lazy snapped : List IsolationWork) (read : SourceRead) : WorkerPhase :=
  let rng := burstReadRange cand.burst batch.sampleRateHz s.settings.maxBurstSec
  let work : IsolationWork := ⟨cand, rng, none, false, false, none⟩
  match rng, batch.source with
  | some rng, .ring itemsize =>
    let nbytes := rng.numSamples * itemsize
    if snapshotMaxBytes < used + nbytes then .snapshotting batch rest used (lazy ++ [work]) snapped
    else
      let work := { work with snapped := true }
      let work :=
        match read with
        | .raises | .gone none => { work with readFailed := true }
        | .gone (some bounds) => { work with bounds := some bounds }
        | .samples n => { work with data := some n }
      .snapshotting batch rest (used + nbytes) lazy (snapped ++ [work])
  | _, _ => .snapshotting batch rest used (lazy ++ [work]) snapped

/-- One work is isolated and its state counted. -/
def isolate (batch : IsolationBatch) (work : IsolationWork) (outcome : IsolationOutcome) : IsolationStage :=
  let (state, names) := work.one batch s.settings outcome
  { s with
    stats := (s.stats.countAll names).count (.state state) 1
    fates := s.fates ++ [⟨work.cand, batch.onRing, state⟩] }

/-- A step of a drain; with no phase to come it is over. -/
def drain : DrainPhase → Option (IsolationStage × Option DrainPhase)
  | .taking =>
    match s.queue with
    | [] => some (s, none)
    | item :: rest => some ({ s with queue := rest }, some (.holding item))
  | .holding .stop => some (s.taskDone, some .taking)
  | .holding (.batch batch) => some (s.taskDone, some (.releasing batch))
  | .releasing batch => (s.release batch).map fun s => (s, some (.counting batch))
  | .counting batch => some (s.count .queueFull batch.candidates.length, some .taking)

/-- The worker's next step, where nothing outside has a say. -/
def work : WorkerPhase → Option IsolationStage
  | .looping => some { s with thread := some (if s.stopEvent then .draining .taking else .waiting) }
  | .waiting =>
    match s.queue with
    | [] => none
    | .stop :: rest => some { s with queue := rest, thread := some .stopping }
    | .batch batch :: rest => some { s with queue := rest, thread := some (.gating batch) }
  | .stopping => some { s.taskDone with thread := some (.draining .taking) }
  | .snapshotting batch [] _ lazy snapped => some { s with thread := some (.isolating batch (lazy ++ snapped)) }
  | .isolating batch [] => some { s with thread := some (.releasing batch) }
  | .releasing batch => (s.release batch).map fun s => { s with thread := some .finishing }
  | .finishing => some { s.taskDone with thread := some .looping }
  | .draining drain =>
    (s.drain drain).map fun (s, next) => { s with thread := some (next.elim .exiting .draining) }
  | .exiting => some { s with thread := some .ended }
  | .gating _ | .snapshotting _ (_ :: _) _ _ _ | .isolating _ (_ :: _) | .ended => none

/-- The next step of the call of `stop`. In `joining` the thread has ended, or
the time is out. -/
def stopping : StopPhase → Option IsolationStage
  | .idle => none
  | .setting =>
    if s.submitting.isNone then some { s with stopEvent := true, control := .draining .taking } else none
  | .draining drain =>
    (s.drain drain).map fun (s, next) => { s with control := next.elim .putting .draining }
  | .putting => some { (s.putNowait .stop).getD s with control := .joining }
  | .joining =>
    some (if s.thread = some .ended then { s with thread := none, control := .drainingLast .taking }
      else { s with control := .idle })
  | .drainingLast drain =>
    (s.drain drain).map fun (s, next) => { s with control := next.elim .idle .drainingLast }

inductive Act
  | submits (batch : IsolationBatch)
  | counts
  | starts
  | stops
  | controls
  | works
  | gates (clock : ℚ)
  | reads (read : SourceRead)
  | isolates (outcome : IsolationOutcome)
  deriving DecidableEq

def step : Act → Option IsolationStage
  | .submits batch => if s.submitting.isNone then some (s.submit batch) else none
  | .counts =>
    s.submitting.map fun batch =>
      { s with submitting := none, wholePending := if batch.whole then s.wholePending + 1 else s.wholePending }
  | .starts => if s.control = .idle then some s.start else none
  | .stops =>
    if s.control = .idle then some (if s.thread.isNone then s else { s with control := .setting }) else none
  | .controls => s.stopping s.control
  | .works => s.thread.bind s.work
  | .gates clock =>
    match s.thread with
    | some (.gating batch) => some (s.gated batch clock)
    | _ => none
  | .reads read =>
    match s.thread with
    | some (.snapshotting batch (cand :: rest) used lazy snapped) =>
      some { s with thread := some (s.snapshot batch cand rest used lazy snapped read) }
    | _ => none
  | .isolates outcome =>
    match s.thread with
    | some (.isolating batch (work :: works)) =>
      some { s.isolate batch work outcome with thread := some (.isolating batch works) }
    | _ => none

end IsolationStage

end RFObserver
