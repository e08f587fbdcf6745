import RFObserver.Lib.ParallelWrites
import RFObserver.Lib.RoundHalfEven

/-! The PSD grid of a chunk on the CPU and on the GPU, and its plain definition. -/

namespace RFObserver

structure PsdGridConfig where
  numBins : ℕ
  timeResolutionMs : ℚ
  overlap : ℚ

structure GridGeometry where
  nperseg : ℕ
  hop : ℕ
  fftsPerSlice : ℕ
  actualSliceSamples : ℕ
  nSlices : ℕ
  shortInput : Bool

namespace GridGeometry

def usableSamples (g : GridGeometry) : ℕ := g.nSlices * g.actualSliceSamples

/-- Where a segment of a slice starts. -/
def start (g : GridGeometry) (s f : ℕ) : ℕ := s * g.actualSliceSamples + f * g.hop

end GridGeometry

def PsdGridConfig.hop (config : PsdGridConfig) : ℤ := truncate (config.numBins * (1 - config.overlap))

/-- How many segments fit. -/
def fftsIn (samples nperseg hop : ℤ) : ℕ := (max 1 ((samples - nperseg) / hop + 1)).toNat

/-- `grid_geometry` -/
def gridGeometry (nSamples samplingRate : ℕ) (config : PsdGridConfig) : GridGeometry :=
  let nperseg := config.numBins
  let hop := config.hop.toNat
  let sliceSamples := max (truncate (samplingRate * config.timeResolutionMs / 1000)) nperseg
  let fftsPerSlice := fftsIn sliceSamples nperseg hop
  let actualSliceSamples := nperseg + (fftsPerSlice - 1) * hop
  let nSlices := nSamples / actualSliceSamples
  if nSlices = 0 then ⟨nperseg, hop, fftsIn nSamples nperseg hop, nSamples, 1, true⟩
  else ⟨nperseg, hop, fftsPerSlice, actualSliceSamples, nSlices, false⟩

/-- The arithmetic of the grid: the window, the transform of a segment bin by
bin, the power of a bin and its decibels. -/
structure SpectralMath (C F : Type*) where
  hanning : ℕ → ℕ → F
  scale : C → F → C
  fft : List C → ℕ → C
  power : C → F
  decibel : F → F

namespace SpectralMath

variable {C F : Type*} [Field F] [LinearOrder F] (m : SpectralMath C F)

/-- The normalization of `hann_window`. -/
def windowNorm (nperseg samplingRate : ℕ) : F :=
  1 / (samplingRate * ((List.range nperseg).map fun k => m.hanning nperseg k * m.hanning nperseg k).sum)

/-- Decibels with the floor for no power. -/
def floored (v : F) : F := if 0 < v then m.decibel v else ((-200 : ℤ) : F)

/-- `np.fft.fftshift` of a row -/
def fftshift (n : ℕ) (row : ℕ → F) (j : ℕ) : F := row ((j + (n - n / 2)) % n)

section Cpu

/-- The samples that a strided view reads from an offset on, windowed. -/
def strided (g : GridGeometry) (memory : ℕ → C) (offset : ℕ) : List C :=
  (List.range g.nperseg).map fun k => m.scale (memory (offset + k)) (m.hanning g.nperseg k)

def chunkSz : ℕ := 50

/-- The rows of a chunk of slices. -/
def cpuRows (g : GridGeometry) (memory : ℕ → C) (ci : ℕ) : List (ℕ × (ℕ → F)) :=
  let ce := min (ci + chunkSz) g.nSlices
  (List.range (ce - ci)).map fun s =>
    (ci + s, fun k => ((List.range g.fftsPerSlice).map fun f =>
      m.power (m.fft (m.strided g memory (ci * g.actualSliceSamples + (s * g.actualSliceSamples + f * g.hop))) k)).sum /
        g.fftsPerSlice)

/-- The assignments of all chunks. -/
def cpuWrites (g : GridGeometry) (memory : ℕ → C) : List (ℕ × (ℕ → F)) :=
  (List.range' 0 ((g.nSlices + (chunkSz - 1)) / chunkSz) chunkSz).flatMap (m.cpuRows g memory)

/-- `_compute_psd_grid_cpu`, on an array that is not initialized. -/
def computePsdGridCpu (g : GridGeometry) (samplingRate : ℕ) (memory : ℕ → C) (empty : ℕ → ℕ → F) (s : ℕ) : ℕ → F :=
  let gridF64 := ParallelWrites.apply (m.cpuWrites g memory) empty
  fftshift g.nperseg fun k => m.floored (gridF64 s k * m.windowNorm g.nperseg samplingRate)

end Cpu

section Gpu

def maxThreads : ℕ := 256

/-- `tpb` -/
def blockThreads (g : GridGeometry) : ℕ := if g.nperseg < maxThreads then g.nperseg else maxThreads

/-- `k_extract` -/
def kExtract (g : GridGeometry) (src : ℕ → C) : List (ℕ × C) :=
  ParallelWrites.kernel (g.nSlices * g.fftsPerSlice) (blockThreads g) g.nperseg id fun b k =>
    let s := b / g.fftsPerSlice
    let f := b - s * g.fftsPerSlice
    m.scale (src (s * g.actualSliceSamples + f * g.hop + k)) (m.hanning g.nperseg k)

/-- The transform of all segments in place. -/
def cufft (g : GridGeometry) (win : ℕ → C) (i : ℕ) : C :=
  m.fft ((List.range g.nperseg).map fun k => win (i / g.nperseg * g.nperseg + k)) (i % g.nperseg)

/-- Where `k_power_db` puts a bin. -/
def shifted (n k : ℕ) : ℕ := if n ≤ k + n / 2 then k + n / 2 - n else k + n / 2

/-- `k_power_db` -/
def kPowerDb (g : GridGeometry) (scale : F) (win : ℕ → C) : List (ℕ × F) :=
  ParallelWrites.kernel g.nSlices (blockThreads g) g.nperseg (shifted g.nperseg) fun s k =>
    m.floored (((List.range g.fftsPerSlice).map fun f =>
      m.power (win (s * g.fftsPerSlice * g.nperseg + (f * g.nperseg + k)))).sum * scale)

/-- `psd_run`: both kernels, their writes in any order, over device memory that holds anything. -/
inductive PsdRun (g : GridGeometry) (samplingRate : ℕ) (src : ℕ → C) : (ℕ → F) → Prop
  | mk {extract : List (ℕ × C)} {power : List (ℕ × F)} (dWin : ℕ → C) (dOut : ℕ → F)
    (extracts : extract.Perm (m.kExtract g src))
    (powers : power.Perm (m.kPowerDb g (m.windowNorm g.nperseg samplingRate / g.fftsPerSlice)
      (m.cufft g (ParallelWrites.apply extract dWin)))) :
    PsdRun g samplingRate src (ParallelWrites.apply power dOut)

end Gpu

section Plain

/-- A segment of the input. -/
def segment (g : GridGeometry) (data : List C) (s f : ℕ) : List C := (data.drop (g.start s f)).take g.nperseg

/-- The mean over the segments of a slice of the power of their transforms. -/
def meanPower (g : GridGeometry) (data : List C) (s k : ℕ) : F :=
  ((List.range g.fftsPerSlice).map fun f =>
    m.power (m.fft ((segment g data s f).zipWith m.scale ((List.range g.nperseg).map (m.hanning g.nperseg))) k)).sum /
      g.fftsPerSlice

/-- A row of the grid by its definition. -/
def plainRow (g : GridGeometry) (samplingRate : ℕ) (data : List C) (s : ℕ) : ℕ → F :=
  fftshift g.nperseg fun k => m.floored (m.meanPower g data s k * m.windowNorm g.nperseg samplingRate)

end Plain

/-- Memory that holds the input from its start on, and beyond it anything. -/
def Holds (data : List C) (n : ℕ) (memory : ℕ → C) : Prop := ∀ i < n, data[i]? = some (memory i)

/-- The grid reads inside its input, cuts it without overlap and is the plain
one on both paths; the engine of the GPU counts in C ints. -/
structure PlainGrid (samplingRate : ℕ) (data : List C) (g : GridGeometry) : Prop where
  reads : ∀ s < g.nSlices, ∀ f < g.fftsPerSlice, ∀ k < g.nperseg, g.start s f + k < data.length
  usable : g.usableSamples ≤ data.length
  tiles : ∀ i < g.usableSamples, ∃! s, s < g.nSlices ∧ s * g.actualSliceSamples ≤ i ∧ i < (s + 1) * g.actualSliceSamples
  within : ∀ s < g.nSlices, ∀ f < g.fftsPerSlice, g.start s f + g.nperseg ≤ (s + 1) * g.actualSliceSamples
  cpu : ∀ memory empty, Holds data data.length memory → ∀ s < g.nSlices, ∀ j < g.nperseg,
    m.computePsdGridCpu g samplingRate memory empty s j = m.plainRow g samplingRate data s j
  gpu : g.shortInput = false → g.usableSamples < 2 ^ 31 → ∀ src out, Holds data g.usableSamples src →
    m.PsdRun g samplingRate src out → ∀ s < g.nSlices, ∀ j < g.nperseg,
      out (s * g.nperseg + j) = m.plainRow g samplingRate data s j

end SpectralMath

end RFObserver
