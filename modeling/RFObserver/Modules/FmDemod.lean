import RFObserver.Lib.Chunked
import Mathlib.Algebra.BigOperators.Ring.Finset
import Mathlib.Data.Nat.Size
import Mathlib.Data.Rat.Floor

/-! The FM demodulator: from wideband SC16 samples to audio, chunk after chunk, in exact arithmetic. -/

namespace RFObserver

open Chunked

/-- The complex samples `K` over the real ones `R`. Phases and angles are in turns. -/
structure Phasors (R K : Type*) [Field R] [Field K] where
  ofReal : R → K
  unitI : K
  conj : K → K
  /-- `arctan2(imag, real)`. -/
  angle : K → R
  /-- `exp(1j * phase)`. -/
  turn : ℚ → K
  turn_add : ∀ a b, turn (a + b) = turn a * turn b
  turn_one : turn 1 = 1

/-- The filter design of `scipy.signal`. `firwin` takes the taps, the cut-off, the Kaiser window's beta where it is
not the default window, and the rate; it raises for a cut-off that is not between zero and half the rate. -/
structure FilterDesign (R : Type*) where
  kaiserord : ℚ → ℚ → ℕ × ℚ
  firwin : ℕ → ℚ → Option ℚ → ℚ → Option (List R)
  firwin_length : ∀ {n cutoff beta rate taps}, firwin n cutoff beta rate = some taps → taps.length = n
  firwin_cutoff : ∀ {n cutoff beta rate taps}, firwin n cutoff beta rate = some taps → 0 < cutoff ∧ cutoff < rate / 2

/-- The parameters that the demodulation reads. -/
structure FmParams where
  channelFreqHz : ℚ := 101900000
  channelBwHz : ℚ := 200000
  audioRate : ℤ := 48000
  deemphasisTau : ℚ := 75 / 1000000

/-- What the state was built for. -/
structure DspKey where
  sampleRate : ℤ
  centerFreq : ℤ
  n : ℕ
  channelFreq : ℚ
  channelBw : ℚ
  deemphasisTau : ℚ
deriving DecidableEq

/-- The rates and filters of a tuning. -/
structure DspPlan (R K : Type*) where
  decimBox : ℕ
  decimFir : ℕ
  intermediateRate : ℚ
  firTaps : List K
  audioTaps : List R
  rsStep : ℚ

/-- The exceptions of one chunk. -/
inductive FmFailure
  | valueError
  | zeroDivisionError

/-- The error that `status` shows. -/
inductive FmError
  | outOfBand (channelMHz lo hi : ℚ)
  | failed (failure : FmFailure)

structure FMDemod (R K : Type*) where
  params : FmParams
  dspKey : Option DspKey
  plan : DspPlan R K
  /-- The transforms of the taps, by length. -/
  firSpectra : List (ℕ × List K)
  firHist : List K
  firPhase : ℕ
  nco : List K
  ncoStep : ℚ
  ncoPhase : ℚ
  prevSample : Option K
  tail : Option (List K)
  deemphZi : List R
  audioZi : List R
  rsPos : ℚ
  rsLast : Option R
  error : Option FmError

variable {R K : Type*} [Field R] [Field K]

/-- `__init__`. -/
def FMDemod.new (params : FmParams) : FMDemod R K where
  params := params
  dspKey := none
  plan :=
    { decimBox := 1, decimFir := 1, intermediateRate := 0, firTaps := [], audioTaps := [1], rsStep := 1 }
  firSpectra := []
  firHist := []
  firPhase := 0
  nco := []
  ncoStep := 0
  ncoPhase := 0
  prevSample := none
  tail := none
  deemphZi := [0]
  audioZi := []
  rsPos := 0
  rsLast := none
  error := none

section Plan

/-- The largest factor of the total that the FIR can take. -/
def firFactor (total : ℕ) : ℕ := ((List.range' 1 16).filter fun f => total % f == 0).max?.getD 1

/-- The better of two (FIR factor, total, box factor). -/
def betterPlan (best : Option (ℕ × ℕ × ℕ)) (total : ℕ) : Option (ℕ × ℕ × ℕ) :=
  let fir := firFactor total
  match best with
  | none => some (fir, total, total / fir)
  | some (bestFir, bestTotal, bestBox) =>
    if bestFir < fir ∨ (bestFir = fir ∧ bestTotal < total) then some (fir, total, total / fir)
    else some (bestFir, bestTotal, bestBox)

/-- (box-car factor, FIR factor) from the sample rate to an intermediate rate of about 250 kHz. -/
def planDecimation (sampleRate : ℤ) (channelBw : ℚ) : ℕ × ℕ :=
  let target := max 250000 (5 / 4 * channelBw)
  let dMax := max 1 ⌊(sampleRate : ℚ) / target⌋.toNat
  if dMax ≤ 16 then (1, dMax)
  else
    let lo := dMax * 4 / 5
    match (List.range' lo (dMax + 1 - lo)).foldl betterPlan none with
    | some (fir, _, box) => (box, fir)
    | none => (1, dMax) -- the range holds `dMax`

/-- The channel filter: flat to half the channel, 60 dB down by the first frequency that would fold into it. -/
def channelTaps (design : FilterDesign R) (p : FmParams) (decimBox decimFir : ℕ) (rateBox : ℚ) : Option (List R) :=
  if 1 < decimFir ∨ 1 < decimBox then
    let passband := p.channelBwHz / 2
    let stopband := max (rateBox / decimFir - passband) (passband * (6 / 5))
    let (nTaps, beta) := design.kaiserord 60 ((stopband - passband) / (rateBox / 2))
    design.firwin (min 1023 (nTaps ||| 1)) ((passband + stopband) / 2) (some beta) rateBox
  else some [1]

/-- The part of `_init_dsp` that the length of a chunk has no say in. -/
def planDsp (phasors : Phasors R K) (design : FilterDesign R) (p : FmParams) (sampleRate : ℤ) :
    Option (DspPlan R K) :=
  let (decimBox, decimFir) := planDecimation sampleRate p.channelBwHz
  let rateBox : ℚ := sampleRate / decimBox
  let intermediateRate := rateBox / decimFir
  let cutoff := min 15000 (9 / 20 * (p.audioRate : ℚ))
  (channelTaps design p decimBox decimFir rateBox).bind fun taps =>
    (design.firwin 97 cutoff none intermediateRate).map fun audioTaps =>
      { decimBox := decimBox, decimFir := decimFir, intermediateRate := intermediateRate,
        firTaps := taps.map phasors.ofReal, audioTaps := audioTaps,
        rsStep := intermediateRate / p.audioRate }

/-- The state of a plan: every filter starts empty, and the tone is cut for chunks of `n` samples. -/
def FMDemod.rebuild (phasors : Phasors R K) (s : FMDemod R K) (plan : DspPlan R K) (sampleRate : ℤ) (deltaF : ℚ) (n : ℕ) :
    FMDemod R K :=
  { s with
    plan := plan
    firSpectra := []
    firHist := List.replicate (plan.firTaps.length - 1) 0
    firPhase := 0
    nco := (List.range n).map fun k : ℕ => phasors.turn (-(deltaF / sampleRate) * k)
    ncoStep := Int.fract (deltaF * n / sampleRate)
    ncoPhase := 0
    prevSample := none
    tail := none
    deemphZi := [0]
    audioZi := List.replicate (plan.audioTaps.length - 1) 0
    rsPos := 0
    rsLast := none }

/-- `_init_dsp`. -/
def FMDemod.initDsp (phasors : Phasors R K) (design : FilterDesign R) (s : FMDemod R K) (sampleRate : ℤ) (deltaF : ℚ)
    (n : ℕ) : Option (FMDemod R K) :=
  (planDsp phasors design s.params sampleRate).map fun plan => s.rebuild phasors plan sampleRate deltaF n

end Plan

section Stages

/-- One complex sample of the buffer. -/
def Phasors.sample (phasors : Phasors R K) (x : ℤ × ℤ) : K := phasors.ofReal x.1 + phasors.unitI * phasors.ofReal x.2

/-- Steps 1 and 2: the tone of one chunk, times the phase at which this one starts. -/
def FMDemod.shift (phasors : Phasors R K) (s : FMDemod R K) (buf : List (ℤ × ℤ)) : FMDemod R K × List K :=
  let start := phasors.turn (-s.ncoPhase) / ((32768 : ℕ) : K)
  ({ s with ncoPhase := Int.fract (s.ncoPhase + s.ncoStep) },
    (List.zipWith (· * ·) (buf.map phasors.sample) s.nco).map (· * start))

/-- The mean of samples. -/
def mean (d : ℕ) (xs : List K) : K := xs.sum / (d : K)

/-- Mean of each run of `d` samples. -/
def boxcar (d : ℕ) (xs : List K) : List K := (List.range (xs.length / d)).map fun i => mean d ((xs.drop (i * d)).take d)

/-- Step 3, the box-car: the remainder carries over. -/
def FMDemod.boxDecimate (s : FMDemod R K) (iq : List K) : FMDemod R K × List K :=
  let d := s.plan.decimBox
  if 1 < d then
    let iq := s.tail.getD [] ++ iq
    let used := iq.length / d * d
    ({ s with tail := some (iq.drop used) }, boxcar d (iq.take used))
  else (s, iq)

/-- `fft(xs, n)`: a transform stands here for the sequence it is the transform of, `xs` cut or padded to `n`. -/
def fft (xs : List K) (n : ℕ) : List K := (List.range n).map fun i => xs.getD i 0

/-- `ifft` of the product of two transforms: the circular convolution. -/
def ifftMul (xs ys : List K) : List K := (List.range xs.length).map fun i =>
  ∑ j ∈ Finset.range xs.length, xs.getD j 0 * ys.getD ((i + xs.length - j) % xs.length) 0

/-- `int.bit_length`. -/
def bitLength (x : ℤ) : ℕ := x.natAbs.size

/-- `_channel_filter`: FIR low-pass and decimation; the last inputs and the decimation phase carry over. -/
def FMDemod.channelFilter (s : FMDemod R K) (x : List K) : FMDemod R K × List K :=
  let taps := s.plan.firTaps
  let nTaps := taps.length
  let xe := if 1 < nTaps then s.firHist ++ x else x
  let nfft := 2 ^ bitLength ((xe.length : ℤ) - 1)
  let cached := s.firSpectra.lookup nfft
  let spectrum := cached.getD (fft taps nfft)
  let y := ((ifftMul (fft xe nfft) spectrum).take xe.length).drop (nTaps - 1)
  let d := s.plan.decimFir
  let out := everyNth d s.firPhase y
  ({ s with
      firSpectra := if cached.isNone then (nfft, spectrum) :: s.firSpectra else s.firSpectra
      firHist := if 1 < nTaps then xe.drop (xe.length - (nTaps - 1)) else s.firHist
      firPhase := s.firPhase + d * out.length - y.length }, out)

/-- The angle from one sample to the next, +-1 at 75 kHz deviation. -/
def deviation (phasors : Phasors R K) (rate : ℚ) (x prev : K) : R :=
  phasors.angle (x * phasors.conj prev) * ((rate / 75000 : ℚ) : R)

/-- Step 4, of a chunk that is not empty. -/
def FMDemod.discriminate (phasors : Phasors R K) (s : FMDemod R K) (iqDec : List K) : FMDemod R K × List R :=
  let prev := (s.prevSample <|> iqDec.head?).toList ++ iqDec.dropLast
  ({ s with prevSample := iqDec.getLast? },
    List.zipWith (deviation phasors s.plan.intermediateRate) iqDec prev)

/-- One sample of `lfilter`, in the transposed direct form II with `a[0] = 1`. -/
def lfilterStep (b a zi : List R) (x : R) : List R × R :=
  let y := b.getD 0 0 * x + zi.getD 0 0
  ((List.range zi.length).map fun i => b.getD (i + 1) 0 * x + zi.getD (i + 1) 0 - a.getD (i + 1) 0 * y, y)

/-- `lfilter(b, a, x, zi=zi)`. -/
def lfilter (b a : List R) : Stage (List R) R R := each (lfilterStep b a)

/-- `np.interp(t, arange(len(x)), x)`. -/
def interp (x : List R) (t : ℚ) : R :=
  if t ≤ 0 then x.headD 0
  else if (x.length : ℚ) - 1 ≤ t then x.getLastD 0
  else
    let j := ⌊t⌋.toNat
    x.getD j 0 + ((t - j : ℚ) : R) * (x.getD (j + 1) 0 - x.getD j 0)

/-- `_resample`: interpolates at a position that runs on from chunk to chunk. -/
def FMDemod.resample (s : FMDemod R K) (x : List R) : FMDemod R K × List R :=
  let pos := if s.rsLast.isSome then s.rsPos + 1 else s.rsPos
  let x := s.rsLast.toList ++ x
  let last : ℚ := x.length - 1
  if last < pos then ({ s with rsPos := pos - x.length, rsLast := x.getLast? }, [])
  else
    let count := ⌊(last - pos) / s.plan.rsStep⌋.toNat + 1
    ({ s with rsPos := pos + s.plan.rsStep * (count - 1 : ℕ) + s.plan.rsStep - x.length, rsLast := x.getLast? },
      (List.range count).map fun k : ℕ => interp x (pos + s.plan.rsStep * k))

end Stages

/-- Steps 1 to 3: from the buffer to the intermediate rate. -/
def FMDemod.toIntermediate (phasors : Phasors R K) (s : FMDemod R K) (buf : List (ℤ × ℤ)) : FMDemod R K × List K :=
  let (s, iq) := s.shift phasors buf
  let (s, iq) := s.boxDecimate iq
  s.channelFilter iq

/-- Steps 4 to 7: from the intermediate rate to the audio. -/
def FMDemod.toAudio (phasors : Phasors R K) (s : FMDemod R K) (iqDec : List K) :
    FMDemod R K × Except FmFailure (Option (List R)) :=
  let (s, x) := s.discriminate phasors iqDec
  let lag := 1 + s.params.deemphasisTau * s.plan.intermediateRate
  if lag = 0 then (s, .error .zeroDivisionError)
  else
    let alpha : R := ((1 / lag : ℚ) : R)
    let (deemphZi, x) := lfilter [alpha] [1, alpha - 1] s.deemphZi x
    let (audioZi, x) := lfilter s.plan.audioTaps [1] s.audioZi x
    let (s, out) := FMDemod.resample { s with deemphZi := deemphZi, audioZi := audioZi } x
    (s, .ok (some out))

/-- `_demod_chunk` from step 1 on. -/
def FMDemod.demodulate (phasors : Phasors R K) (s : FMDemod R K) (buf : List (ℤ × ℤ)) :
    FMDemod R K × Except FmFailure (Option (List R)) :=
  let (s, iqDec) := s.toIntermediate phasors buf
  if iqDec.isEmpty then (s, .ok (some [])) else s.toAudio phasors iqDec

/-- The key of a tuning and a chunk length. -/
def keyOf (p : FmParams) (centerFreq sampleRate : ℤ) (n : ℕ) : DspKey :=
  { sampleRate := sampleRate, centerFreq := centerFreq, n := n, channelFreq := p.channelFreqHz,
    channelBw := p.channelBwHz, deemphasisTau := p.deemphasisTau }

/-- The state for a chunk of `n` samples: as it is, or rebuilt when the tuning or the chunk size changed. -/
def FMDemod.prepare (phasors : Phasors R K) (design : FilterDesign R) (s : FMDemod R K) (centerFreq sampleRate : ℤ)
    (deltaF : ℚ) (n : ℕ) : Option (FMDemod R K) :=
  let key := keyOf s.params centerFreq sampleRate n
  if s.dspKey = some key then some s
  else (s.initDsp phasors design sampleRate deltaF n).map fun s => { s with dspKey := some key }

/-- `_demod_chunk`: none when the channel is outside the captured band. -/
def FMDemod.demodChunk (phasors : Phasors R K) (design : FilterDesign R) (s : FMDemod R K) (buf : List (ℤ × ℤ))
    (centerFreq sampleRate : ℤ) : FMDemod R K × Except FmFailure (Option (List R)) :=
  let deltaF := s.params.channelFreqHz - centerFreq
  if (sampleRate : ℚ) / 2 < |deltaF| + s.params.channelBwHz / 2 then
    ({ s with
        error := some (.outOfBand (s.params.channelFreqHz / 1000000) ((centerFreq - sampleRate / 2) / 1000000)
          ((centerFreq + sampleRate / 2) / 1000000)) }, .ok none)
  else
    let s := { s with error := none }
    match s.prepare phasors design centerFreq sampleRate deltaF buf.length with
    -- the fields written before the exception are all written again before they are read
    | none => (s, .error .valueError)
    | some s => s.demodulate phasors buf

/-- One round of `_process_loop`: a chunk that raises puts out nothing. -/
def FMDemod.process (phasors : Phasors R K) (design : FilterDesign R) (centerFreq sampleRate : ℤ) :
    Stage (FMDemod R K) (ℤ × ℤ) R := fun s buf =>
  match s.demodChunk phasors design buf centerFreq sampleRate with
  | (s, .ok audio) => (s, audio.getD [])
  | (s, .error failure) => ({ s with error := some (.failed failure) }, [])

end RFObserver
