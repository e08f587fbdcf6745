import RFObserver.Capture.GridPreBuffer
import RFObserver.Lib.ReorderQueue
import RFObserver.Schedules.CutterBooksRuns

namespace RFObserver

variable {α : Type*}

abbrev PsdRow := List ℚ

/-- The PSD rows of one chunk. -/
structure PsdGrid where
  grid : List PsdRow
  freqAxis : List ℚ
  timeAxis : List ℚ

/-- What the writer is told of the rows it gets. -/
structure GridMeta where
  freqAxis : List ℚ
  timeRes : ℚ
  sliceSamples : Nat
  calOffsetDb : Option ℚ

structure GridPut where
  rows : List PsdRow
  layout : GridMeta
  offsetSamples : ℤ

/-- The seconds from one row to the next, 0 when the grid does not tell. -/
def PsdGrid.timeRes (g : PsdGrid) : ℚ :=
  match g.timeAxis with
  | t0 :: t1 :: _ => t1 - t0
  | _ => 0

/-- A run in progress with its PSD rows. `queue` has the rows that came ahead
of earlier ones by row number, and what was handed to the writer. -/
structure RunRows where
  cutter : RunCutter
  firstChunk : Option Nat
  gridOffset : Option ℤ
  gridSeen : Nat
  gridMeta : Option GridMeta
  queue : ReorderQueue PsdRow
  filler : Option ℚ
  gridDropped : Nat
  puts : List GridPut
  closed : Bool

/-- The row that begins at file index `index`. -/
def rowNumber (index offset : ℤ) (slice : Nat) : ℤ := roundHalfEven ((index - offset : ℤ) / (slice : ℚ))

/-- The numbers between those of two rows that follow each other. -/
def holesBetween (prev r : ℤ) : List ℤ := (List.range (r - (prev + 1)).toNat).map fun i : Nat => prev + 1 + i

namespace RunRows

def create (spec : RunSpec) : RunRows where
  cutter := RunCutter.create spec
  firstChunk := none
  gridOffset := none
  gridSeen := 0
  gridMeta := none
  queue := ReorderQueue.empty
  filler := none
  gridDropped := 0
  puts := []
  closed := false

/-- The rows that fit the file. -/
def lastRow (a : RunRows) (offset : ℤ) (slice : Nat) : ℤ := (a.cutter.spec.nSamples - offset) / slice

def reserveHole (last : ℤ) (fill : PsdRow) (q : ReorderQueue PsdRow) (hole : ℤ) : ReorderQueue PsdRow :=
  if 0 ≤ hole ∧ hole < last then q.reserve fill hole.toNat else q

def queueRow (last r : ℤ) (row : PsdRow) (q : ReorderQueue PsdRow) : ReorderQueue PsdRow :=
  if 0 ≤ r ∧ r < last then q.put r.toNat row else q

/-- Queue the row at stream position `pos`. The rows between it and the one
before it in the stream cover zero fill: no chunk will ever bring them. -/
def placeRow (cut : RunCutter) (offset last : ℤ) (slice start : Nat) (fill : PsdRow) (pos : Nat) (row : PsdRow)
    (q : ReorderQueue PsdRow) : ReorderQueue PsdRow :=
  match cut.fileIndex pos with
  | none => q
  | some index =>
    let r := rowNumber index offset slice
    let q :=
      if start + slice ≤ pos then
        match cut.fileIndex (pos - slice) with
        | some prev => (holesBetween (rowNumber prev offset slice) r).foldl (reserveHole last fill) q
        | none => q
      else q
    queueRow last r row q

def placeLoop (cut : RunCutter) (offset last : ℤ) (slice start : Nat) (fill : PsdRow) :
    Nat → List PsdRow → ReorderQueue PsdRow → ReorderQueue PsdRow
  | _, [], q => q
  | pos, row :: rows, q =>
    placeLoop cut offset last slice start fill (pos + slice) rows (placeRow cut offset last slice start fill pos row q)

/-- The run's first row boundary: chunks share row boundaries. -/
def firstBoundary (firstChunk start slice : Nat) : Nat :=
  (firstChunk + -(((firstChunk : ℤ) - start) / slice) * slice).toNat

/-- The file index of the run's first row. -/
def offsetFor (a : RunRows) (firstChunk start slice : Nat) : ℤ :=
  a.gridOffset.getD ((a.cutter.fileIndex (firstBoundary firstChunk start slice)).getD 0)

/-- Queue this chunk's PSD rows by row number in the file. -/
def placeRows (a : RunRows) (grid : List PsdRow) (chunkStart slice : Nat) : RunRows :=
  match a.cutter.streamStart, a.firstChunk with
  | some start, some firstChunk =>
    if slice = 0 then a
    else
      match if a.cutter.done then a.cutter.streamEnd else some (start + a.cutter.spec.nSamples) with
      | none => a
      | some stop =>
        let offset := a.offsetFor firstChunk start slice
        let a := { a with gridOffset := some offset }
        match trimGridRows grid chunkStart slice start stop with
        | none => a
        | some (rows, first) =>
          match rows.flatten.min? with
          | none => a
          | some low => { a with
              filler := some (match a.filler with
                | some filler => min filler low
                | none => low)
              queue := placeLoop a.cutter offset (a.lastRow offset slice) slice start
                (List.replicate (rows.headD []).length low) first rows a.queue }
  | _, _ => a

/-- The filler row: as wide as the rows held. -/
def fillRow (a : RunRows) : PsdRow :=
  List.replicate ((a.queue.pending.entries.map Prod.snd).headD []).length (a.filler.getD 0)

/-- The queue after the rows next in order have left; at the end those that
never came are filled up to the last one held. -/
def flushed (a : RunRows) (final : Bool) : ReorderQueue PsdRow :=
  let q := if final then a.queue.finish a.fillRow else a.queue
  q.drain q.pending.entries.length

/-- Hand the writer the rows that left. -/
def flushRows (a : RunRows) (final accepts : Bool) : RunRows :=
  let q := a.flushed final
  let rows := (q.out.drop a.queue.out.length).map Prod.snd
  match a.gridMeta with
  | some layout =>
    if rows = [] then { a with queue := q }
    else { a with
      queue := q
      puts := a.puts ++ [⟨rows, layout, a.gridOffset.getD 0⟩]
      gridDropped := if accepts then a.gridDropped else a.gridDropped + rows.length }
  | none => { a with queue := q }

/-- The chunks of the receiver thread, and the end of the run. -/
def onCall (a : RunRows) (k : CutterCall α) : RunRows :=
  if a.closed then a
  else
    let cutter := (a.cutter.call k).1
    match k with
    | .feed k => { a with
        cutter := cutter
        firstChunk := if a.firstChunk = none ∧ cutter.started then some k.chunkStart else a.firstChunk }
    | .endRun _ => { a with cutter := cutter }

/-- A chunk's PSD rows from the dispatch thread. `accepts` is the writer's answer. -/
def onGrid (a : RunRows) (g : PsdGrid) (chunkStart slice : Nat) (calOffsetDb : Option ℚ) (accepts : Bool) : RunRows :=
  if a.closed then a
  else
    let seen := { a with
      gridSeen := max a.gridSeen (chunkStart + g.grid.length * slice)
      gridMeta := some (a.gridMeta.getD ⟨g.freqAxis, g.timeRes, slice, calOffsetDb⟩) }
    (seen.placeRows g.grid chunkStart slice).flushRows false accepts

/-- The run leaves the active ones: the rows held are handed over. -/
def close (a : RunRows) (accepts : Bool) : RunRows :=
  if a.closed then a else { a.flushRows true accepts with closed := true }

end RunRows
end RFObserver
