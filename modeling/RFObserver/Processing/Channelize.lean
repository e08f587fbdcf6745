import Mathlib.Algebra.Order.Floor.Div
import RFObserver.Lib.Dft
import RFObserver.Lib.PaddedBlocks
import RFObserver.Lib.RoundHalfEven

/-! The channelizer: a burst shifted to its own offset and resampled in the
frequency domain, block by block, in exact arithmetic. -/

namespace RFObserver

namespace Channelize
open PaddedBlocks SliceAssign

def taperFraction : ℚ := 1 / 20

def blockIn : ℕ := 32768

def blockOutMin : ℕ := 1024

def edgeOut : ℕ := 64

def blocksPerCall : ℕ := 16

def blockInMax : ℕ := 1048576

/-- `next_fast_len` of `scipy.fft`. -/
structure FastLength where
  next : ℕ → ℕ
  le_next : ∀ n, n ≤ next n

/-- The rate of the receiver and the rate of a decoder. -/
structure Rates where
  sampleRate : ℚ
  target : ℕ
  sampled : 1 ≤ sampleRate
  positive : 0 < target

/-- `resample_ratio` -/
def resampleRatio (sampleRate target : ℕ) : ℕ × ℕ :=
  (target / Nat.gcd sampleRate target, sampleRate / Nat.gcd sampleRate target)

/-- The ratio of the rates and the sizes of the blocks: `k * down` samples in,
`k * up` out, of which `j * up` at each edge are discarded. -/
structure Plan where
  up : ℕ
  down : ℕ
  k : ℕ
  j : ℕ
  up_pos : 0 < up
  down_pos : 0 < down
  edges : edgeOut ≤ j * up
  wide : 4 * j ≤ k

namespace Plan

variable (p : Plan)

def lIn : ℕ := p.k * p.down
def lOut : ℕ := p.k * p.up
def oIn : ℕ := p.j * p.down
def oOut : ℕ := p.j * p.up
def hIn : ℕ := p.lIn - 2 * p.oIn
def hOut : ℕ := p.lOut - 2 * p.oOut

end Plan

theorem rate_pos (r : Rates) : 0 < ⌊r.sampleRate⌋₊ := Nat.floor_pos.mpr r.sampled

theorem up_pos (r : Rates) : 0 < (resampleRatio ⌊r.sampleRate⌋₊ r.target).1 :=
  Nat.div_pos (Nat.gcd_le_right _ r.positive) (Nat.gcd_pos_of_pos_right _ r.positive)

theorem down_pos (r : Rates) : 0 < (resampleRatio ⌊r.sampleRate⌋₊ r.target).2 :=
  Nat.div_pos (Nat.gcd_le_left _ (rate_pos r)) (Nat.gcd_pos_of_pos_right _ r.positive)

/-- `j` -/
def edgePeriods (r : Rates) : ℕ := edgeOut ⌈/⌉ (resampleRatio ⌊r.sampleRate⌋₊ r.target).1

/-- `k` before it is made a fast length. -/
def blockPeriods (r : Rates) : ℕ :=
  max (max (blockIn ⌈/⌉ (resampleRatio ⌊r.sampleRate⌋₊ r.target).2)
    (blockOutMin ⌈/⌉ (resampleRatio ⌊r.sampleRate⌋₊ r.target).1)) (4 * edgePeriods r)

theorem le_edgePeriods (r : Rates) : edgeOut ≤ edgePeriods r * (resampleRatio ⌊r.sampleRate⌋₊ r.target).1 := by
  rw [mul_comm]
  exact le_smul_ceilDiv (up_pos r)

theorem le_blockPeriods (fast : FastLength) (r : Rates) : 4 * edgePeriods r ≤ fast.next (blockPeriods r) :=
  (le_max_right _ _).trans (fast.le_next _)

def plan (fast : FastLength) (r : Rates) : Plan where
  up := (resampleRatio ⌊r.sampleRate⌋₊ r.target).1
  down := (resampleRatio ⌊r.sampleRate⌋₊ r.target).2
  k := fast.next (blockPeriods r)
  j := edgePeriods r
  up_pos := up_pos r
  down_pos := down_pos r
  edges := le_edgePeriods r
  wide := le_blockPeriods fast r

section Samples

variable {K : Type*} [Field K] (T : Turns K)

/-- `_taper`, the weight of one bin. -/
def taper (n k : ℕ) : K :=
  let half : ℚ := n / 2
  let edge : ℚ := max 1 (taperFraction * n)
  let x := max 0 (min 1 (((|Turns.fftfreq n k| : ℤ) - (half - edge)) / edge))
  (1 + T.halfCos x) / ((2 : ℕ) : K)

/-- `_select` -/
def select (spec : List K) (k0 : ℤ) (nOut : ℕ) : List K :=
  (List.range nOut).map fun k =>
    let m := Turns.fftfreq nOut k
    let w := if spec.length < nOut ∧ (spec.length : ℤ) ≤ 2 * |m| then 0 else taper T nOut k
    spec.getD ((k0 + m) % spec.length).toNat 0 * w

/-- The samples of the blocks of one call. -/
def segment (x : List K) (lo hi : ℤ) : List K :=
  if 0 ≤ lo ∧ hi ≤ x.length then (x.drop lo.toNat).take (hi - lo).toNat
  else
    let a := max lo 0
    let b := min hi x.length
    if a < b then setSlice (List.replicate (hi - lo).toNat 0) (a - lo).toNat ((x.drop a.toNat).take (b - a).toNat)
    else List.replicate (hi - lo).toNat 0

/-- The blocks' inverse transforms, a few blocks at a time. -/
def blockRows (p : Plan) (x : List K) (k0 : ℤ) (nb : ℕ) : List (List K) :=
  (List.range (nb ⌈/⌉ blocksPerCall)).flatMap fun q =>
    let c := blocksPerCall * q
    let c1 := min nb (c + blocksPerCall)
    let lo : ℤ := (c * p.hIn : ℕ) - p.oIn
    let hi : ℤ := (c1 - 1 : ℤ) * p.hIn - p.oIn + p.lIn
    (Chunked.frames p.lIn p.hIn (segment x lo hi)).map fun block => T.ifft (select T (T.fft block) k0 p.lOut)

/-- Each row with the phase of one continuous mix, and scaled. -/
def mixRows (p : Plan) (fs offset : ℚ) (k0 : ℤ) (rows : List (List K)) : List (List K) :=
  let binHz := fs / p.lIn
  let rate := fs * p.up / p.down
  rows.mapIdx fun b row =>
    let cyc := Int.fract (((b * p.hIn : ℕ) - (p.oIn : ℚ)) * (offset / fs))
    row.mapIdx fun i y => y * T.turn (-(cyc + (offset - k0 * binHz) / rate * i)) * ((p.lOut : K) / p.lIn)

/-- `_channelize_blocks` -/
def channelizeBlocks (p : Plan) (iq : List K) (fs offset : ℚ) (nKeep : ℕ) : List K :=
  let nb := nKeep ⌈/⌉ p.hOut
  let k0 := roundHalfEven (offset / (fs / p.lIn))
  (((mixRows T p fs offset k0 (blockRows T p iq k0 nb)).map fun row =>
    (row.drop p.oOut).take (p.lOut - 2 * p.oOut)).flatten).take nKeep

/-- `_channelize_whole` -/
def channelizeWhole (fast : FastLength) (up down : ℕ) (iq : List K) (fs offset : ℚ) (nKeep : ℕ) : List K :=
  let nIn := fast.next iq.length
  let nOut := (nIn * up) ⌈/⌉ down
  let binHz := fs / nIn
  let k0 := roundHalfEven (offset / binHz)
  let out := (T.ifft (select T (T.fft (padded iq 0 nIn)) k0 nOut)).take nKeep
  let rate := fs * nOut / nIn
  out.mapIdx fun i y => y * T.turn (-((offset - k0 * binHz) / rate) * i) * ((nOut : K) / nIn)

def channelize (fast : FastLength) (r : Rates) (offset : ℚ) (iq : List K) : List K :=
  let p := plan fast r
  let nKeep := (iq.length * p.up) ⌈/⌉ p.down
  if nKeep = 0 then []
  else if blockInMax < p.lIn then channelizeWhole T fast p.up p.down iq r.sampleRate offset nKeep
  else channelizeBlocks T p iq r.sampleRate offset nKeep

end Samples

end Channelize

end RFObserver
