import RFObserver.Capture.GridPreBuffer
import RFObserver.Lib.Runs

namespace RFObserver

variable {α β : Type*}

/-- How the stream is cut into PSD rows: `sliceSamples` samples a row,
`chunkSlices` rows a chunk buffer. -/
structure GridLayout where
  sliceSamples : Nat
  chunkSlices : Nat
  rate : ℚ
  positive : 0 < sliceSamples

namespace GridLayout

def chunkSamples (layout : GridLayout) : Nat := layout.chunkSlices * layout.sliceSamples

/-- The distance of the first two rows' times, 0 when there is one row. -/
def timeRes (layout : GridLayout) : ℚ := if 1 < layout.chunkSlices then layout.sliceSamples / layout.rate else 0

end GridLayout

/-- A chunk on its way to its grid: the receive buffer, whole, and how much
of it was received. -/
structure GridChunk (α : Type*) where
  buf : List α
  received : Nat
  chunkStart : Nat
  deriving DecidableEq

/-- A recording's PSD rows and what they are placed by. `rows` are those in
the RAM list or the writer's queue. `lastChunk`, the start of the chunk the
last of them came from, is read by nothing. -/
structure GridRecorder (α β : Type*) where
  stream : List α
  newest : Nat
  pending : List (GridChunk α)
  prebuf : GridPreBuffer β
  reading : Option (Nat × Nat)
  beginning : Bool
  accepting : Bool
  disk : Bool
  startSample : Option Nat
  endSample : Option Nat
  gridFirst : Option Nat
  gridLast : Nat
  rows : List β
  gridDropped : Nat
  lastChunk : Option Nat
  deriving DecidableEq

namespace GridRecorder

def create (maxSeconds : ℚ) : GridRecorder α β where
  stream := []
  newest := 0
  pending := []
  prebuf := ⟨max 0 maxSeconds, []⟩
  reading := none
  beginning := false
  accepting := false
  disk := false
  startSample := none
  endSample := none
  gridFirst := none
  gridLast := 0
  rows := []
  gridDropped := 0
  lastChunk := none

/-- The grid of a chunk: one row for each slice of the whole buffer. -/
def grid (psd : List α → β) (layout : GridLayout) (k : GridChunk α) : List β :=
  (List.range (k.buf.length / layout.sliceSamples)).map fun i =>
    psd ((k.buf.drop (i * layout.sliceSamples)).take layout.sliceSamples)

/-- The rows a live grid brings to the recording, and the first one's position. -/
def liveRows (psd : List α → β) (layout : GridLayout) (c : GridRecorder α β) (startSample : Nat) (k : GridChunk α) :
    Option (List β × Nat) :=
  let g := grid psd layout k
  let stop := c.endSample.getD (k.chunkStart + g.length * layout.sliceSamples)
  trimGridRows g k.chunkStart layout.sliceSamples startSample stop

/-- The grid part of `_handle_chunk_result`; `full` when the writer's queue is. -/
def handleChunkResult (psd : List α → β) (layout : GridLayout) (full : Bool) (c : GridRecorder α β)
    (k : GridChunk α) : GridRecorder α β :=
  match c.accepting, c.startSample with
  | true, some startSample =>
    match c.liveRows psd layout startSample k with
    | none => c
    | some (rows, first) =>
      if c.disk ∧ full then { c with gridDropped := c.gridDropped + rows.length }
      else { c with
        rows := c.rows ++ rows
        gridFirst := c.gridFirst.or (some first)
        gridLast := first + rows.length * layout.sliceSamples
        lastChunk := some k.chunkStart }
  | _, _ => { c with prebuf := c.prebuf.write {
      grid := grid psd layout k
      timeRes := layout.timeRes
      chunkStart := k.chunkStart
      sliceSamples := layout.sliceSamples
      received := k.received } }

/-- How many pre-roll grids the new recording takes: in disk mode they queue
behind the pre-roll's samples in a fresh queue of 64. -/
def seedRoom (disk : Bool) (written grids : Nat) : Nat :=
  if disk then (if 0 < written then 63 else 64) else grids

/-- The grids whose rows a begin takes over. -/
def seeds (disk : Bool) (preStart written : Nat) (c : GridRecorder α β) : List (BufferedGrid β) :=
  let kept := GridPreBuffer.reaching preStart c.prebuf.grids
  kept.take (seedRoom disk written kept.length)

/-- `_begin_recording` from the drain on, up to the anchor; the pre-roll is
stream `[preStart, preStart + written)`. -/
def beginRecording (layout : GridLayout) (disk : Bool) (preStart written : Nat) (c : GridRecorder α β) :
    GridRecorder α β :=
  let (preRoll, prebuf) := c.prebuf.drain preStart
  let room := seedRoom disk written ((preRoll.map fun r => r.grids.length).getD 0)
  { c with
    prebuf := prebuf
    reading := none
    beginning := true
    disk := disk
    startSample := if 0 < written then some preStart else none
    endSample := none
    gridFirst := preRoll.map (·.startSample)
    gridLast := (preRoll.map fun r => r.startSample + r.rows * layout.sliceSamples).getD 0
    rows := (preRoll.map fun r => (r.grids.take room).flatten).getD []
    gridDropped := (preRoll.map fun r => ((r.grids.drop room).map List.length).sum).getD 0
    lastChunk := (c.seeds disk preStart written).getLast?.map (·.chunkStart) }

/-- The steps of the threads: a chunk arrives, a chunk on its way is dropped
(queue full, too many in flight, a failed worker), the oldest chunk's grid is
handled; a start reads the pre-roll, drains the grids, and accepts; the first
chunk of a file without a pre-roll anchors it; a stop fixes the end; the
finalize job closes the rows. -/
inductive Act (α : Type*)
  | receive (buf : List α) (n : Nat)
  | lose (i : Nat)
  | handle (full : Bool)
  | read (n : Nat)
  | begin (disk : Bool)
  | accept
  | firstChunk
  | stop (nextPos : Option Nat)
  | finalize

def step (psd : List α → β) (layout : GridLayout) (c : GridRecorder α β) : Act α → Option (GridRecorder α β)
  | .receive buf n =>
    if buf.length = layout.chunkSamples ∧ n ≤ buf.length then
      some { c with
        stream := c.stream ++ buf.take n
        newest := c.stream.length
        pending := c.pending ++ [⟨buf, n, c.stream.length⟩] }
    else none
  | .lose i => some { c with pending := c.pending.eraseIdx i }
  | .handle full =>
    match c.pending with
    | [] => none
    | k :: rest => some ({ c with pending := rest }.handleChunkResult psd layout full k)
  | .read n =>
    if c.beginning ∨ c.accepting ∨ c.reading.isSome then none
    else
      let preLen := min n c.stream.length
      some { c with reading := some (c.stream.length - preLen, preLen) }
  | .begin disk => c.reading.map fun r => c.beginRecording layout disk r.1 r.2
  | .accept => if c.beginning then some { c with beginning := false, accepting := true } else none
  | .firstChunk =>
    if c.accepting ∧ c.startSample = none ∧ c.endSample = none then some { c with startSample := some c.newest }
    else none
  | .stop nextPos =>
    if c.accepting ∧ c.endSample = none then some { c with endSample := nextPos } else none
  | .finalize => if c.accepting then some { c with accepting := false } else none

/-- What the sidecar says. -/
def startSampleOffset (c : GridRecorder α β) : ℤ :=
  match c.gridFirst, c.startSample with
  | some first, some start => first - start
  | _, _ => 0

/-- Row `k` is the PSD of the samples the sidecar says, counted from the
file's first sample. -/
def Placed (psd : List α → β) (layout : GridLayout) (c : GridRecorder α β) : Prop :=
  ∀ start, c.startSample = some start → ∀ (k : Nat) row, c.rows[k]? = some row →
    ∃ p : Nat, (p : ℤ) = start + c.startSampleOffset + k * layout.sliceSamples ∧
      p + layout.sliceSamples ≤ c.stream.length ∧ row = psd ((c.stream.drop p).take layout.sliceSamples)

/-- The chunk whose grid's rows the next handled grid adds to the recording,
with those rows and the first one's position. -/
def takes (psd : List α → β) (layout : GridLayout) (full : Bool) (c : GridRecorder α β) :
    Option (GridChunk α × List β × Nat) :=
  match c.pending, c.accepting, c.startSample with
  | k :: _, true, some start => if c.disk ∧ full then none else (c.liveRows psd layout start k).map fun r => (k, r)
  | _, _, _ => none

/-- No grid is missing between two whose rows the recording takes, and the
rows it takes are of received samples: a live grid's chunk starts where the
last one taken ends, and so does each pre-roll grid's. -/
def Continues (psd : List α → β) (layout : GridLayout) (c : GridRecorder α β) : Act α → Prop
  | .handle full => ∀ t ∈ c.takes psd layout full,
      (∀ last ∈ c.lastChunk, t.1.chunkStart = last + layout.chunkSamples) ∧
        t.2.2 + t.2.1.length * layout.sliceSamples ≤ t.1.chunkStart + t.1.received
  | .begin disk => ∀ r ∈ c.reading,
      (c.seeds disk r.1 r.2).IsChain (fun g h => h.chunkStart = g.chunkStart + layout.chunkSamples) ∧
        ∀ g ∈ c.seeds disk r.1 r.2, layout.chunkSamples ≤ g.received
  | _ => True

instance (psd : List α → β) (layout : GridLayout) (c : GridRecorder α β) :
    ∀ a, Decidable (Continues psd layout c a)
  | .handle full => inferInstanceAs (Decidable (∀ t ∈ c.takes psd layout full, _ ∧ _))
  | .begin _ => inferInstanceAs (Decidable (∀ r ∈ c.reading, _ ∧ _))
  | .receive _ _ | .lose _ | .read _ | .accept | .firstChunk | .stop _ | .finalize => isTrue trivial

/-- The states a run reaches by steps that meet `allowed`. -/
abbrev Reach (psd : List α → β) (layout : GridLayout) (maxSeconds : ℚ)
    (allowed : GridRecorder α β → Act α → Prop) : GridRecorder α β → Prop :=
  Runs.Reach (step psd layout) (create maxSeconds) allowed

end GridRecorder
end RFObserver
