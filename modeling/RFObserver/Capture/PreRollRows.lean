import Mathlib.Order.Interval.Set.Basic
import Mathlib.Tactic
import RFObserver.Lib.Runs

/-! The rolling buffer of PSD grids with its running totals, and the rows that
a recording takes. Stream positions and lengths are in samples. -/

namespace RFObserver.PreRoll

/-- The first row of a chunk that does not begin before `sample`. -/
def firstRow (sample chunkStart sliceSamples : ℤ) : ℤ :=
  if chunkStart < sample then (sample - chunkStart + sliceSamples - 1) / sliceSamples else 0

/-- The rows of `grid` lying wholly inside `[startSample, endSample)` and the
position of the first of them, or -1 when no row qualifies. -/
def trimGridRows {β : Type*} (grid : List β) (chunkStart sliceSamples startSample endSample : ℤ) : List β × ℤ :=
  if grid.length = 0 ∨ sliceSamples ≤ 0 ∨ endSample ≤ startSample then ([], -1)
  else
    let first := firstRow startSample chunkStart sliceSamples
    let last := min ((endSample - chunkStart) / sliceSamples) grid.length
    if last ≤ first then ([], -1)
    else ((grid.take last.toNat).drop first.toNat, chunkStart + first * sliceSamples)

/-- One chunk's grid in the buffer: `rows` of bins, from the chunk's first sample on. -/
structure Chunk (V : Type*) where
  rows : List (List V)
  timeRes : ℚ
  chunkStart : ℕ
  sliceSamples : ℤ

/-- Drained pre-trigger grids plus the metadata to persist them. -/
structure GridPreRoll (V A : Type*) where
  grids : List (List (List V))
  freqAxis : List A
  timeRes : ℚ
  rows : ℕ
  gridMin : Option V
  gridMax : Option V
  startSample : ℤ

/-- The most recent grids whose combined time span is at most `maxSeconds`. -/
structure GridPreBuffer (V A : Type*) where
  maxSeconds : ℚ
  grids : List (Chunk V)
  freqAxis : Option (List A)
  rows : ℤ
  span : ℚ

/-- Empty grids and those without a span or a position are ignored. -/
def Chunk.Usable {V : Type*} (g : Chunk V) : Prop :=
  (g.rows.map List.length).sum ≠ 0 ∧ g.rows.length ≠ 0 ∧ 0 < g.timeRes ∧ 0 < g.sliceSamples

instance Chunk.decidableUsable {V : Type*} (g : Chunk V) : Decidable g.Usable :=
  inferInstanceAs (Decidable (_ ∧ _ ∧ _ ∧ _))

namespace GridPreBuffer

variable {V A : Type*}

def create (maxSeconds : ℚ) : GridPreBuffer V A := ⟨max 0 maxSeconds, [], none, 0, 0⟩

variable (b : GridPreBuffer V A)

def reset : GridPreBuffer V A := { b with grids := [], freqAxis := none, rows := 0, span := 0 }

/-- Trim oldest while over budget, but always keep the last grid. -/
def trimOldest (maxSeconds : ℚ) : List (Chunk V) → ℤ → ℚ → List (Chunk V) × ℤ × ℚ
  | g :: h :: grids, rows, span =>
    if maxSeconds < span then
      trimOldest maxSeconds (h :: grids) (rows - g.rows.length) (span - g.rows.length * g.timeRes)
    else (g :: h :: grids, rows, span)
  | [g], rows, span => ([g], rows, span)
  | [], rows, span => ([], rows, span)

def write (g : Chunk V) (freqAxis : List A) : GridPreBuffer V A :=
  if g.Usable then
    let trimmed := trimOldest b.maxSeconds (b.grids ++ [g]) (b.rows + g.rows.length)
      (b.span + g.rows.length * g.timeRes)
    { b with grids := trimmed.1, freqAxis := some freqAxis, rows := trimmed.2.1, span := trimmed.2.2 }
  else b

/-- A grid of `drain`'s loop, after the grids `kept` and the position of their first row. -/
def drainChunk (fromSample : Option ℤ) (acc : List (List (List V)) × ℤ) (g : Chunk V) : List (List (List V)) × ℤ :=
  let first := fromSample.elim 0 fun sample => firstRow sample g.chunkStart g.sliceSamples
  if (g.rows.length : ℤ) ≤ first then acc
  else (acc.1 ++ [g.rows.drop first.toNat], if acc.2 < 0 then g.chunkStart + first * g.sliceSamples else acc.2)

/-- The buffered pre-roll, none when no row qualifies; the buffer is cleared. -/
def drain [Min V] [Max V] (fromSample : Option ℤ) : Option (GridPreRoll V A) × GridPreBuffer V A :=
  (b.grids.getLast?.bind fun last => b.freqAxis.bind fun freqAxis =>
    let kept := b.grids.foldl (drainChunk fromSample) ([], -1)
    if kept.1 = [] then none
    else some {
      grids := kept.1
      freqAxis
      timeRes := last.timeRes
      rows := (kept.1.map List.length).sum
      gridMin := (kept.1.filterMap fun g => g.flatten.min?).min?
      gridMax := (kept.1.filterMap fun g => g.flatten.max?).max?
      startSample := kept.2 }, b.reset)

end GridPreBuffer
end RFObserver.PreRoll
