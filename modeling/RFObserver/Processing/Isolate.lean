import Mathlib.Data.Rat.Floor
import Mathlib.Tactic

namespace RFObserver

/-- What isolation reads of a `BurstFingerprint`. -/
structure IsolationBurst where
  burstId : Nat
  startSample : Option ℤ
  stopSample : Option ℤ
  deriving DecidableEq

/-- The stream samples [start, stop) to read for one burst. -/
structure BurstRange where
  start : ℤ
  stop : ℤ
  truncated : Bool
  deriving DecidableEq

namespace BurstRange

def numSamples (range : BurstRange) : ℤ := range.stop - range.start

/-- `GUARD_SEC` on each side of the burst, in samples. -/
def guard (sampleRateHz : ℚ) : ℤ := ⌊(1 / 500 : ℚ) * sampleRateHz⌋

def maxSamples (sampleRateHz maxBurstSec : ℚ) : ℤ := ⌊maxBurstSec * sampleRateHz⌋

end BurstRange

/-- `burst_read_range`. -/
def burstReadRange (burst : IsolationBurst) (sampleRateHz maxBurstSec : ℚ) : Option BurstRange :=
  match burst.startSample, burst.stopSample with
  | some start, some stop =>
    let guard := BurstRange.guard sampleRateHz
    let maxN := BurstRange.maxSamples sampleRateHz maxBurstSec
    let truncated : Bool := maxN < stop - start
    some ⟨max 0 (start - guard), (if truncated then start + maxN else stop) + guard, truncated⟩
  | _, _ => none

theorem burstReadRange_of_le {burst : IsolationBurst} {sampleRateHz maxBurstSec : ℚ} {start stop : ℤ}
    (isStart : burst.startSample = some start) (isStop : burst.stopSample = some stop)
    (short : stop - start ≤ BurstRange.maxSamples sampleRateHz maxBurstSec) :
    burstReadRange burst sampleRateHz maxBurstSec =
      some ⟨max 0 (start - BurstRange.guard sampleRateHz), stop + BurstRange.guard sampleRateHz, false⟩ := by
  rw [burstReadRange, isStart, isStop]
  simp [not_lt.mpr short]

end RFObserver
