import RFObserver.Processing.PsdGrid
import Mathlib.Data.PNat.Basic

/-! Both paths of the PSD grid against its definition, and where the segments lie. -/

namespace RFObserver

section Geometry

theorem fftsIn_pos (samples nperseg hop : ℤ) : 0 < fftsIn samples nperseg hop := by
  unfold fftsIn
  omega

/-- The segments end by the end of the samples, when one of them fits. -/
theorem fftsIn_fits {samples nperseg hop : ℕ} (positive : 0 < hop) (fits : nperseg ≤ samples) :
    (fftsIn samples nperseg hop - 1) * hop + nperseg ≤ samples := by
  have nonneg : (0 : ℤ) ≤ ((samples : ℤ) - nperseg) / hop := Int.ediv_nonneg (by omega) (by omega)
  have count : ((fftsIn samples nperseg hop - 1 : ℕ) : ℤ) = ((samples : ℤ) - nperseg) / hop := by
    unfold fftsIn
    omega
  have room := Int.ediv_mul_le ((samples : ℤ) - nperseg) (b := hop) (by omega)
  rw [← count] at room
  have room' : (((fftsIn samples nperseg hop - 1) * hop : ℕ) : ℤ) ≤ (samples : ℤ) - nperseg := by
    rw [Nat.cast_mul]
    exact room
  omega

/-- What the cut of an input keeps. -/
structure Cuts (n numBins : ℕ) (g : GridGeometry) : Prop where
  nperseg : g.nperseg = numBins
  bins : 0 < g.nperseg
  ffts : 0 < g.fftsPerSlice
  slices : 0 < g.nSlices
  slice : 0 < g.actualSliceSamples
  usable : g.usableSamples ≤ n
  within : numBins ≤ n → ∀ f < g.fftsPerSlice, f * g.hop + g.nperseg ≤ g.actualSliceSamples

theorem numBins_pos {config : PsdGridConfig} (hop : 1 ≤ config.hop) : 0 < config.numBins := by
  rcases Nat.eq_zero_or_pos config.numBins with zero | positive
  · rw [PsdGridConfig.hop, zero] at hop
    simp [truncate] at hop
  · exact positive

theorem mul_hop_le {f ffts hop : ℕ} (less : f < ffts) : f * hop ≤ (ffts - 1) * hop :=
  Nat.mul_le_mul_right hop (by omega)

theorem gridGeometry_cuts {n samplingRate : ℕ} {config : PsdGridConfig} (some_ : 0 < n) (hop : 1 ≤ config.hop) :
    Cuts n config.numBins (gridGeometry n samplingRate config) := by
  have bins := numBins_pos hop
  have step : 0 < config.hop.toNat := by omega
  unfold gridGeometry
  dsimp only
  split_ifs with short
  · refine ⟨rfl, bins, fftsIn_pos .., Nat.one_pos, some_, (Nat.one_mul n).le, fun fits f less => ?_⟩
    exact (Nat.add_le_add_right (mul_hop_le less) _).trans (fftsIn_fits step fits)
  · refine ⟨rfl, bins, fftsIn_pos .., Nat.pos_of_ne_zero short, Nat.add_pos_left bins _, Nat.div_mul_le_self .., ?_⟩
    intro _ f less
    have upTo : f * config.hop.toNat ≤ _ := mul_hop_le less
    simp only at upTo ⊢
    omega

namespace Cuts

variable {n numBins s f : ℕ} {g : GridGeometry}

theorem slice_le (isSlice : s < g.nSlices) : (s + 1) * g.actualSliceSamples ≤ g.usableSamples :=
  Nat.mul_le_mul_right _ isSlice

theorem segment_within (cuts : Cuts n numBins g) (fits : numBins ≤ n) (isFft : f < g.fftsPerSlice) :
    g.start s f + g.nperseg ≤ (s + 1) * g.actualSliceSamples := by
  have := cuts.within fits f isFft
  rw [GridGeometry.start, Nat.succ_mul]
  omega

theorem segment_inside (cuts : Cuts n numBins g) (fits : numBins ≤ n) (isSlice : s < g.nSlices)
    (isFft : f < g.fftsPerSlice) : g.start s f + g.nperseg ≤ g.usableSamples :=
  (cuts.segment_within fits isFft).trans (slice_le isSlice)

theorem tiles (cuts : Cuts n numBins g) {i : ℕ} (isSample : i < g.usableSamples) :
    ∃! s, s < g.nSlices ∧ s * g.actualSliceSamples ≤ i ∧ i < (s + 1) * g.actualSliceSamples := by
  refine ⟨i / g.actualSliceSamples, ⟨?_, Nat.div_mul_le_self .., ?_⟩, ?_⟩
  · exact (Nat.div_lt_iff_lt_mul cuts.slice).mpr isSample
  · rw [Nat.mul_comm]
    exact Nat.lt_mul_div_succ i cuts.slice
  · rintro s ⟨-, low, high⟩
    exact (Nat.div_eq_of_lt_le low high).symm

end Cuts

end Geometry

namespace SpectralMath

variable {C F : Type*} {m : SpectralMath C F} {g : GridGeometry} {data : List C} {n numBins samplingRate s f : ℕ}

/-- A segment inside what the memory holds is the input's. -/
theorem strided_eq {memory : ℕ → C} {size : ℕ} (holds : Holds data size memory) {s f : ℕ}
    (inside : g.start s f + g.nperseg ≤ size) :
    m.strided g memory (g.start s f) =
      (segment g data s f).zipWith m.scale ((List.range g.nperseg).map (m.hanning g.nperseg)) := by
  have read : segment g data s f = (List.range g.nperseg).map fun k => memory (g.start s f + k) := by
    refine List.ext_getElem? fun k => ?_
    rw [segment, List.getElem?_take, List.getElem?_drop, List.getElem?_map]
    split
    case isTrue less => rw [holds _ (by omega), List.getElem?_range less, Option.map_some]
    case isFalse beyond => rw [List.getElem?_eq_none (by rw [List.length_range]; omega), Option.map_none]
  rw [read, List.zipWith_map, List.zipWith_self]
  rfl

section Kernels

theorem blockThreads_pos (bins : 0 < g.nperseg) : 0 < blockThreads g := by
  unfold blockThreads
  split
  · exact bins
  · decide

theorem shifted_lt {n k : ℕ} (less : k < n) : shifted n k < n := by
  unfold shifted
  split <;> omega

theorem shifted_apart {n k k' : ℕ} (less : k < n) (less' : k' < n) (same : shifted n k = shifted n k') : k = k' := by
  unfold shifted at same
  split at same <;> split at same <;> omega

theorem shifted_back {n j : ℕ} (less : j < n) : shifted n ((j + (n - n / 2)) % n) = j := by
  unfold shifted
  rcases Nat.lt_or_ge (j + (n - n / 2)) n with below | above
  · rw [Nat.mod_eq_of_lt below]
    split <;> omega
  · rw [Nat.mod_eq_sub_mod above, Nat.mod_eq_of_lt (by omega)]
    split <;> omega

variable {src : ℕ → C}

/-- The transform of a block's segment stands in the block's cells. -/
theorem cufft_extract (bins : 0 < g.nperseg) {extract : List (ℕ × C)} (extracts : extract.Perm (m.kExtract g src))
    (dWin : ℕ → C) (isSlice : s < g.nSlices) (isFft : f < g.fftsPerSlice) {k : ℕ} (isBin : k < g.nperseg) :
    m.cufft g (ParallelWrites.apply extract dWin) (s * g.fftsPerSlice * g.nperseg + (f * g.nperseg + k)) =
      m.fft (m.strided g src (g.start s f)) k := by
  have block : s * g.fftsPerSlice + f < g.nSlices * g.fftsPerSlice := by
    have := Nat.mul_le_mul_right g.fftsPerSlice (Nat.succ_le_of_lt isSlice)
    rw [Nat.succ_mul] at this
    omega
  have cell : s * g.fftsPerSlice * g.nperseg + (f * g.nperseg + k) = (s * g.fftsPerSlice + f) * g.nperseg + k := by ring
  have slice : (s * g.fftsPerSlice + f) / g.fftsPerSlice = s := by
    rw [Nat.mul_comm s, Nat.mul_add_div (by omega), Nat.div_eq_of_lt isFft, Nat.add_zero]
  have ownBlock : ((s * g.fftsPerSlice + f) * g.nperseg + k) / g.nperseg = s * g.fftsPerSlice + f := by
    rw [Nat.mul_comm _ g.nperseg, Nat.mul_add_div bins, Nat.div_eq_of_lt isBin, Nat.add_zero]
  have ownBin : ((s * g.fftsPerSlice + f) * g.nperseg + k) % g.nperseg = k := by
    rw [Nat.mul_comm _ g.nperseg, Nat.mul_add_mod, Nat.mod_eq_of_lt isBin]
  rw [cufft, cell, ownBlock, ownBin]
  refine congrArg (fun l => m.fft l k) (List.map_congr_left fun i isCell => ?_)
  have written := ParallelWrites.kernel_result (blockThreads_pos bins) (fun _ less => less)
    (fun _ _ _ _ same => same) extracts dWin block (List.mem_range.mp isCell)
  dsimp only [id] at written
  rw [written, slice, Nat.add_sub_cancel_left]
  rfl

end Kernels

variable [Field F]

theorem meanPower_eq {memory : ℕ → C} {size : ℕ} (holds : Holds data size memory)
    (inside : ∀ f < g.fftsPerSlice, g.start s f + g.nperseg ≤ size) (k : ℕ) :
    ((List.range g.fftsPerSlice).map fun f => m.power (m.fft (m.strided g memory (g.start s f)) k)).sum /
      g.fftsPerSlice = m.meanPower g data s k := by
  refine congrArg (fun l : List F => l.sum / g.fftsPerSlice) (List.map_congr_left fun f isFft => ?_)
  rw [strided_eq holds (inside f (List.mem_range.mp isFft))]

section Cpu

variable (memory : ℕ → C)

theorem cpuRows_fst (ci : ℕ) :
    (m.cpuRows g memory ci).map Prod.fst = (List.range (min (ci + chunkSz) g.nSlices - ci)).map (ci + ·) := by
  rw [cpuRows, List.map_map]
  rfl

theorem mem_chunks {ci : ℕ} : ci ∈ List.range' 0 ((g.nSlices + (chunkSz - 1)) / chunkSz) chunkSz ↔
    ci < g.nSlices ∧ ∃ i, ci = 0 + chunkSz * i :=
  @ParallelWrites.mem_strided chunkSz g.nSlices 0 ci (by decide)

/-- The chunks write each row once. -/
theorem cpuWrites_nodup : ((m.cpuWrites g memory).map Prod.fst).Nodup := by
  rw [cpuWrites, List.map_flatMap]
  refine List.nodup_flatMap.mpr ⟨fun ci _ => ?_, ?_⟩
  · rw [cpuRows_fst]
    exact List.nodup_range.map fun a b same => Nat.add_left_cancel same
  · refine (List.nodup_range' chunkSz (by decide)).imp_of_mem ?_
    intro ci ci' isChunk isChunk' different row first second
    obtain ⟨-, i, rfl⟩ := mem_chunks.mp isChunk
    obtain ⟨-, i', rfl⟩ := mem_chunks.mp isChunk'
    dsimp only at first second
    rw [cpuRows_fst, List.mem_map] at first second
    obtain ⟨a, inChunk, rfl⟩ := first
    obtain ⟨b, inChunk', same⟩ := second
    have less := List.mem_range.mp inChunk
    have less' := List.mem_range.mp inChunk'
    have cell : i * chunkSz + a = i' * chunkSz + b := by
      rw [Nat.mul_comm i, Nat.mul_comm i']
      omega
    have rows := ParallelWrites.block_eq (by omega) (by omega) cell
    exact different (by rw [rows.1])

/-- Each row is the mean power of its slice, read from where the slice is. -/
theorem cpu_row (empty : ℕ → ℕ → F) (isSlice : s < g.nSlices) (k : ℕ) :
    ParallelWrites.apply (m.cpuWrites g memory) empty s k =
      ((List.range g.fftsPerSlice).map fun f => m.power (m.fft (m.strided g memory (g.start s f)) k)).sum /
        g.fftsPerSlice := by
  have split := Nat.div_add_mod s chunkSz
  have rest : s % chunkSz < chunkSz := Nat.mod_lt _ (by decide)
  have start (f : ℕ) : chunkSz * (s / chunkSz) * g.actualSliceSamples +
      (s % chunkSz * g.actualSliceSamples + f * g.hop) = g.start s f := by
    rw [GridGeometry.start, ← Nat.add_assoc, ← Nat.add_mul, split]
  have isRow : (s, fun k => ((List.range g.fftsPerSlice).map fun f =>
      m.power (m.fft (m.strided g memory (g.start s f)) k)).sum / (g.fftsPerSlice : F)) ∈ m.cpuWrites g memory := by
    have inside : chunkSz * (s / chunkSz) < g.nSlices := by omega
    have isChunk := mem_chunks.mpr ⟨inside, s / chunkSz, (Nat.zero_add _).symm⟩
    refine List.mem_flatMap.mpr ⟨_, isChunk, ?_⟩
    refine List.mem_map.mpr ⟨s % chunkSz, List.mem_range.mpr (by omega), ?_⟩
    simp only [start, split]
  rw [ParallelWrites.apply_of_mem (cpuWrites_nodup memory) isRow]

variable [LinearOrder F]

theorem cpu_plain (cuts : Cuts n numBins g) (fits : numBins ≤ n) {memory : ℕ → C} (holds : Holds data n memory)
    (empty : ℕ → ℕ → F) (isSlice : s < g.nSlices) (j : ℕ) :
    m.computePsdGridCpu g samplingRate memory empty s j = m.plainRow g samplingRate data s j := by
  unfold computePsdGridCpu plainRow fftshift
  dsimp only
  rw [cpu_row memory empty isSlice, meanPower_eq holds]
  exact fun f isFft => (cuts.segment_inside fits isSlice isFft).trans cuts.usable

end Cpu

variable [LinearOrder F]

theorem gpu_plain (cuts : Cuts n numBins g) (fits : numBins ≤ n) {src : ℕ → C}
    (holds : Holds data g.usableSamples src) {out : ℕ → F} (run : m.PsdRun g samplingRate src out)
    (isSlice : s < g.nSlices) {j : ℕ} (isBin : j < g.nperseg) :
    out (s * g.nperseg + j) = m.plainRow g samplingRate data s j := by
  obtain @⟨extract, power, dWin, dOut, extracts, powers⟩ := run
  obtain ⟨k, isK⟩ : ∃ k, (j + (g.nperseg - g.nperseg / 2)) % g.nperseg = k := ⟨_, rfl⟩
  have less : k < g.nperseg := isK ▸ Nat.mod_lt _ cuts.bins
  have place : shifted g.nperseg k = j := isK ▸ shifted_back isBin
  have written := ParallelWrites.kernel_result (blockThreads_pos cuts.bins) (fun _ => shifted_lt)
    (fun _ inside _ inside' => shifted_apart inside inside') powers dOut isSlice less
  have sums : ((List.range g.fftsPerSlice).map fun f =>
      m.power (m.cufft g (ParallelWrites.apply extract dWin)
        (s * g.fftsPerSlice * g.nperseg + (f * g.nperseg + k)))).sum =
        ((List.range g.fftsPerSlice).map fun f => m.power (m.fft (m.strided g src (g.start s f)) k)).sum := by
    refine congrArg List.sum (List.map_congr_left fun f isFft => ?_)
    rw [cufft_extract cuts.bins extracts dWin isSlice (List.mem_range.mp isFft) less]
  have mean := meanPower_eq holds (m := m) (fun f isFft => cuts.segment_inside fits isSlice isFft) k
  rw [place, sums] at written
  rw [written, plainRow, fftshift, isK, ← mean]
  refine congrArg m.floored ?_
  ring

/-- The first segment of a grid that reads inside its input is inside it. -/
theorem PlainGrid.bins_le {config : PsdGridConfig} (some_ : data ≠ []) (hop : 1 ≤ config.hop)
    (plain : m.PlainGrid samplingRate data (gridGeometry data.length samplingRate config)) :
    config.numBins ≤ data.length := by
  have cuts : Cuts data.length config.numBins (gridGeometry data.length samplingRate config) :=
    gridGeometry_cuts (List.length_pos_iff.mpr some_) hop
  have bins := numBins_pos hop
  have isBin : config.numBins - 1 < (gridGeometry data.length samplingRate config).nperseg := by
    rw [cuts.nperseg]
    omega
  have last := plain.reads 0 cuts.slices 0 cuts.ffts (config.numBins - 1) isBin
  rw [GridGeometry.start, Nat.zero_mul, Nat.zero_mul] at last
  omega

/-- The grid is the plain one exactly for inputs of at least one segment. -/
theorem psdGrid_plain_iff (m : SpectralMath C F) {samplingRate : ℕ+} {config : PsdGridConfig} {data : List C}
    (some_ : data ≠ []) (hop : 1 ≤ config.hop) :
    m.PlainGrid samplingRate data (gridGeometry data.length samplingRate config) ↔ config.numBins ≤ data.length := by
  refine ⟨fun plain => plain.bins_le some_ hop, fun fits => ?_⟩
  have cuts : Cuts data.length config.numBins (gridGeometry data.length samplingRate config) :=
    gridGeometry_cuts (List.length_pos_iff.mpr some_) hop
  refine ⟨fun s isSlice f isFft k less => ?_, cuts.usable, fun i => cuts.tiles, fun s _ f => cuts.segment_within fits,
    fun memory empty holds s isSlice j _ => cpu_plain cuts fits holds empty isSlice j,
    fun _ _ src out holds run s isSlice j isBin => gpu_plain cuts fits holds run isSlice isBin⟩
  have inside := (cuts.segment_inside fits isSlice isFft).trans cuts.usable
  omega

/-- A transform that leaves its input, with a flat window. -/
def flatMath : SpectralMath ℚ ℚ := ⟨fun _ _ => 1, fun x w => x * w, fun l k => l.getD k 0, fun x => x * x, id⟩

theorem psdGrid_plain_three :
    flatMath.PlainGrid (10 : ℕ+) [1, 2, 3] (gridGeometry 3 (10 : ℕ+) ⟨2, 1, 1 / 2⟩) :=
  (psdGrid_plain_iff flatMath (List.cons_ne_nil _ _) (by decide +kernel)).mpr (by decide)

/-- One sample is no segment of two bins. -/
theorem psdGrid_plain_overrun :
    ¬∀ (m : SpectralMath ℚ ℚ) (samplingRate : ℕ+) (config : PsdGridConfig) (data : List ℚ), data ≠ [] →
      0 ≤ config.overlap → config.overlap < 1 → 1 ≤ config.hop →
        m.PlainGrid samplingRate data (gridGeometry data.length samplingRate config) := by
  intro always
  have hop : 1 ≤ PsdGridConfig.hop ⟨2, 1, 0⟩ := by decide +kernel
  have plain := always flatMath 10 ⟨2, 1, 0⟩ [1] (List.cons_ne_nil _ _) le_rfl (by decide) hop
  exact absurd (plain.bins_le (List.cons_ne_nil _ _) hop) (by decide)

end SpectralMath

end RFObserver
