import Mathlib.Tactic

namespace RFObserver

variable {β : Type*}

/-- The first row of a chunk's grid that does not begin before `sample`. -/
def firstRowFrom (sample chunkStart sliceSamples : Nat) : Nat :=
  if chunkStart < sample then (sample - chunkStart + sliceSamples - 1) / sliceSamples else 0

/-- The rows of `grid` lying wholly inside `[startSample, endSample)` and the
position of the first of them, none when no row qualifies. -/
def trimGridRows (grid : List β) (chunkStart sliceSamples startSample endSample : Nat) : Option (List β × Nat) :=
  if grid.length = 0 ∨ sliceSamples = 0 ∨ endSample ≤ startSample then none
  else
    let first := firstRowFrom startSample chunkStart sliceSamples
    let last := min ((endSample - chunkStart) / sliceSamples) grid.length
    if last ≤ first then none
    else some ((grid.take last).drop first, chunkStart + first * sliceSamples)

/-- One chunk's grid in the buffer. `received`, how many samples of the chunk
were received, is read by nothing. -/
structure BufferedGrid (β : Type*) where
  grid : List β
  timeRes : ℚ
  chunkStart : Nat
  sliceSamples : Nat
  received : Nat
  deriving DecidableEq

/-- The pre-roll's grids with the position of their first row. -/
structure GridPreRoll (β : Type*) where
  grids : List (List β)
  startSample : Nat

def GridPreRoll.rows (roll : GridPreRoll β) : Nat := (roll.grids.map List.length).sum

/-- Rolling buffer of the recent grids, at most `maxSeconds` of them. -/
structure GridPreBuffer (β : Type*) where
  maxSeconds : ℚ
  grids : List (BufferedGrid β)
  deriving DecidableEq

namespace GridPreBuffer

def span (grids : List (BufferedGrid β)) : ℚ := (grids.map fun g => (g.grid.length : ℚ) * g.timeRes).sum

/-- Drop the oldest grids while over budget, but keep the last one. -/
def trim (maxSeconds : ℚ) : List (BufferedGrid β) → List (BufferedGrid β)
  | g :: h :: grids =>
    if maxSeconds < span (g :: h :: grids) then trim maxSeconds (h :: grids) else g :: h :: grids
  | grids => grids

def write (buffer : GridPreBuffer β) (g : BufferedGrid β) : GridPreBuffer β :=
  if g.grid.length = 0 ∨ g.timeRes ≤ 0 ∨ g.sliceSamples = 0 then buffer
  else { buffer with grids := trim buffer.maxSeconds (buffer.grids ++ [g]) }

/-- The first row of `g` at or after `fromSample`. -/
def firstRow (fromSample : Nat) (g : BufferedGrid β) : Nat := firstRowFrom fromSample g.chunkStart g.sliceSamples

/-- The grids with a row at or after `fromSample`. -/
def reaching (fromSample : Nat) (grids : List (BufferedGrid β)) : List (BufferedGrid β) :=
  grids.filter fun g => firstRow fromSample g < g.grid.length

/-- The rows of a grid at or after `fromSample`. -/
def rowsFrom (fromSample : Nat) (g : BufferedGrid β) : List β := g.grid.drop (firstRow fromSample g)

/-- The pre-roll from `fromSample` on; the buffer is empty afterwards. -/
def drain (buffer : GridPreBuffer β) (fromSample : Nat) : Option (GridPreRoll β) × GridPreBuffer β :=
  let kept := reaching fromSample buffer.grids
  let roll := kept.head?.map fun g => {
    grids := kept.map (rowsFrom fromSample)
    startSample := g.chunkStart + firstRow fromSample g * g.sliceSamples }
  (roll, { buffer with grids := [] })

end GridPreBuffer
end RFObserver
