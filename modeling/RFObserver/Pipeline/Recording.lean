import RFObserver.Capture.CircularBuffer
import RFObserver.Lib.LossyStream

namespace RFObserver
open LossyStream

variable {α : Type*}

def maxRecordedGaps : Nat := 1000
def streamGapLogLen : Nat := 4096

/-- Append to the stream's gap log, which keeps its newest entries. -/
def logGaps (log gaps : Gaps) : Gaps := (log ++ gaps).drop ((log ++ gaps).length - streamGapLogLen)

/-- The recording in progress: what the chunk writer and a start keep of it.
`file` is what stands in the RAM buffer, or went into the disk queue; `ram`
is the size of the RAM buffer, none in disk mode. -/
structure Recording (α : Type*) where
  ram : Option Nat
  file : List α
  bufPos : Nat
  bytes : Nat
  dropped : Nat
  gaps : Gaps
  lost : Nat
  overflows : Nat
  gapsTruncated : Bool
  ring : Nat
  nextPos : Option Nat
  startSample : Option Nat

namespace Recording

/-- The file position of the next sample. -/
def filePos (r : Recording α) : Nat := if r.ram.isSome then r.bufPos else r.bytes / 4

/-- Record samples missing right before file index `index`; gaps at the same
index merge. -/
def addRecordingGap (r : Recording α) (index lost : Nat) (overflow : Bool) : Recording α :=
  if index = 0 ∨ lost = 0 then r
  else
    let r := { r with
      lost := r.lost + lost
      overflows := if overflow then r.overflows + 1 else r.overflows }
    match r.gaps.getLast? with
    | some g =>
      if g.1 = index then { r with gaps := r.gaps.dropLast ++ [(index, g.2 + lost)] }
      else if r.gaps.length < maxRecordedGaps then { r with gaps := r.gaps ++ [(index, lost)] }
      else { r with gapsTruncated := true }
    | none => { r with gaps := [(index, lost)] }

/-- Stream `[nextPos, chunkStart)` never reached the file: one gap. The
overflows logged inside it count, their samples are in that gap. -/
def addMissingStretch (r : Recording α) (log : Gaps) (filePos nextPos chunkStart : Nat) : Recording α :=
  let logged := log.filter fun g => nextPos ≤ g.1 ∧ g.1 < chunkStart
  let r := if 0 < filePos then { r with overflows := r.overflows + logged.length } else r
  r.addRecordingGap filePos (chunkStart - nextPos + (logged.map Prod.snd).sum) false

/-- A chunk of `n` samples that never reached the file: one gap. -/
def dropRecordingChunk (r : Recording α) (filePos n : Nat) (gaps : Gaps) : Recording α :=
  let r := { r with
    dropped := r.dropped + 1
    overflows := if 0 < filePos then r.overflows + gaps.length else r.overflows }
  r.addRecordingGap filePos (n + (gaps.map Prod.snd).sum) false

/-- A chunk as it still has to be written. -/
structure Pending (α : Type*) where
  data : List α
  gaps : Gaps
  start : Nat

/-- Compare the chunk with the position right after the file's last sample:
samples the file already holds are trimmed, samples it never got become one
gap. None when the whole chunk is in the file. -/
def continuity (r : Recording α) (log : Gaps) (ring : Nat) (k : Pending α) : Option (Recording α × Pending α) :=
  if r.ring ≠ ring then some ({ r with ring := ring }, k)
  else match r.nextPos with
    | none => some (r, k)
    | some next =>
      if k.start < next then
        let skip := next - k.start
        if k.data.length ≤ skip then none
        else some (r, {
          data := k.data.drop skip
          gaps := (k.gaps.filter fun g => skip ≤ g.1).map fun g => (g.1 - skip, g.2)
          start := k.start + skip })
      else if next < k.start then some (r.addMissingStretch log r.filePos next k.start, k)
      else some (r, k)

/-- Put the chunk into the RAM buffer or the disk queue. `full` says whether
the disk queue refuses it. -/
def store (r : Recording α) (full : Bool) (k : Pending α) : Recording α × Bool :=
  match r.ram with
  | some size =>
    let stop := r.filePos + k.data.length
    if stop ≤ size then ({ r with file := r.file ++ k.data, bufPos := stop, bytes := stop * 4 }, true)
    else (r.dropRecordingChunk r.filePos k.data.length k.gaps, false)
  | none =>
    if full then (r.dropRecordingChunk r.filePos k.data.length k.gaps, false)
    else ({ r with file := r.file ++ k.data, bytes := r.bytes + k.data.length * 4 }, true)

/-- The receive gaps of a written chunk at their file positions. -/
def addChunkGaps (r : Recording α) (filePos : Nat) (gaps : Gaps) : Recording α :=
  gaps.foldl (fun r g => r.addRecordingGap (filePos + g.1) g.2 true) r

def writeRecordingChunk (r : Recording α) (log : Gaps) (ring : Nat) (full : Bool) (k : Pending α) : Recording α :=
  match r.continuity log ring k with
  | none => r
  | some (r, k) =>
    let filePos := r.filePos
    let (r, written) := r.store full k
    let r := { r with
      nextPos := some (k.start + k.data.length)
      startSample := r.startSample.or (some k.start) }
    if written then r.addChunkGaps filePos k.gaps else r

/-- The logged gaps strictly inside the `written` samples of a pre-roll that
covers stream `[start, stop)`, at their file indices. -/
def prerollGaps (log : Gaps) (start stop written : Nat) : Gaps :=
  (log.filter fun g => start < g.1 ∧ g.1 < stop ∧ g.1 - start < written).map fun g => (g.1 - start, g.2)

def addPrerollGaps (r : Recording α) (log : Gaps) (sameRing : Bool) (start stop written : Nat) : Recording α :=
  (prerollGaps (if sameRing then log else []) start stop written).foldl
    (fun r g => r.addRecordingGap g.1 g.2 true) r

/-- A recording before its pre-roll is placed. -/
def fresh (ram : Option Nat) (ring : Nat) : Recording α where
  ram := ram
  file := []
  bufPos := 0
  bytes := 0
  dropped := 0
  gaps := []
  lost := 0
  overflows := 0
  gapsTruncated := false
  ring := ring
  nextPos := none
  startSample := none

/-- How many of the pre-roll's `n` samples go into the file. -/
def prerollWritten (ram : Option Nat) (n : Nat) : Nat :=
  match ram with
  | some size => min n size
  | none => n

/-- Place the pre-roll `preData`, which ends at stream position `preEnd` of
ring `readRing`, and anchor the file in the stream. -/
def begin (ram : Option Nat) (log : Gaps) (readRing ring : Nat) (preData : List α) (preEnd : Nat) : Recording α :=
  let preStart := preEnd - preData.length
  let written := prerollWritten ram preData.length
  let r := fresh ram readRing
  let r := if preData.length = 0 then r
    else { r with
      file := preData.take written
      bufPos := if ram.isSome then written else 0
      bytes := written * 4 }.addPrerollGaps log (readRing == ring) preStart preEnd written
  { r with
    nextPos := if 0 < written then some (preStart + written) else none
    startSample := if 0 < written then some preStart else none }

end Recording

/-- A chunk from the receiver with its receive gaps `(offset, lost)`. -/
structure Received (α : Type*) where
  data : List α
  gaps : Gaps
  inside : ∀ g ∈ gaps, g.1 < data.length

/-- The receiver loop keeps the gaps it can place in the chunk. -/
def receive (data : List α) (lastGaps : Gaps) : Received α where
  data := data
  gaps := lastGaps.filter fun g => g.1 < data.length
  inside := fun g member => by simpa using (List.mem_filter.mp member).2

/-- The receiver thread between two chunks, after the chunk's gaps were
logged, or after the chunk was written to the ring as well. -/
inductive ReceiverPhase (α : Type*)
  | ready
  | logged (k : Received α) (chunkStart : Nat)
  | written (k : Received α) (chunkStart : Nat)

/-- A manual start on another thread: it reads the ring, places the pre-roll
with the gaps logged by then, and flips the state. -/
inductive StartPhase (α : Type*)
  | none
  | read (preData : List α) (preEnd : Nat)
  | placed (r : Recording α)

/-- The threads that feed a recording. `recording` is there exactly while the
state is "recording"; a start in progress holds the recording lock. -/
structure Capture (α : Type*) where
  ring : CircularBuffer α
  streamGaps : Gaps
  receiver : ReceiverPhase α
  starting : StartPhase α
  recording : Option (Recording α)

namespace Capture

def create (ring : CircularBuffer α) : Capture α := ⟨ring, [], .ready, .none, none⟩

/-- Every run of the threads over one ring, with the chunks that are in the
ring and the one whose gaps are logged only. -/
inductive Run (ring : CircularBuffer α) : List (Received α) → Option (Received α) → Capture α → Prop
  | start : Run ring [] none (create ring)
  /-- The gaps are logged at stream positions before the ring write. -/
  | log {ks c} (data : List α) (lastGaps : Gaps) : Run ring ks none c → c.receiver = .ready →
      Run ring ks (some (receive data lastGaps)) { c with
        streamGaps := logGaps c.streamGaps
          ((receive data lastGaps).gaps.map fun g => (c.ring.totalWritten + g.1, g.2))
        receiver := .logged (receive data lastGaps) c.ring.totalWritten }
  | ringWrite {ks k c chunkStart} : Run ring ks (some k) c → c.receiver = .logged k chunkStart →
      Run ring (ks ++ [k]) none { c with ring := c.ring.write k.data, receiver := .written k chunkStart }
  /-- The recording step of a chunk; `full` when the disk queue is. -/
  | record {ks k c chunkStart r} (full : Bool) : Run ring ks none c → c.receiver = .written k chunkStart →
      c.recording = some r →
      Run ring ks none { c with
        receiver := .ready
        recording := some (r.writeRecordingChunk c.streamGaps 0 full ⟨k.data, k.gaps, chunkStart⟩) }
  /-- Nothing is recording and the trigger does not fire. -/
  | pass {ks k c chunkStart} : Run ring ks none c → c.receiver = .written k chunkStart → c.recording = none →
      c.starting = .none → Run ring ks none { c with receiver := .ready }
  /-- The trigger fires: the whole start runs on the receiver thread. -/
  | fire {ks k c chunkStart} (pre : Nat) (ram : Option Nat) : Run ring ks none c →
      c.receiver = .written k chunkStart → c.recording = none → c.starting = .none →
      Run ring ks none { c with
        receiver := .ready
        recording := some (.begin ram c.streamGaps 0 0 (c.ring.readTailWithPosition pre).1
          (c.ring.readTailWithPosition pre).2) }
  | manualRead {ks p c} (pre : Nat) : Run ring ks p c → c.recording = none → c.starting = .none →
      Run ring ks p { c with
        starting := .read (c.ring.readTailWithPosition pre).1 (c.ring.readTailWithPosition pre).2 }
  | manualPlace {ks p c preData preEnd} (ram : Option Nat) : Run ring ks p c →
      c.starting = .read preData preEnd →
      Run ring ks p { c with starting := .placed (.begin ram c.streamGaps 0 0 preData preEnd) }
  | manualFlip {ks p c r} : Run ring ks p c → c.starting = .placed r →
      Run ring ks p { c with starting := .none, recording := some r }
  | stop {ks p c r} : Run ring ks p c → c.recording = some r → Run ring ks p { c with recording := none }

end Capture
end RFObserver
