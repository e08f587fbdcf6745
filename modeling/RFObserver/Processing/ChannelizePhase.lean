import RFObserver.Modules.FmChunks
import RFObserver.Processing.Channelize

/-! The blocks of a channelized burst join to one mix with a continuous phase. -/

namespace RFObserver

namespace Channelize
open PaddedBlocks SliceAssign

namespace Plan

variable (p : Plan)

theorem hIn_eq : p.hIn = (p.k - 2 * p.j) * p.down := by
  rw [hIn, lIn, oIn, Nat.sub_mul, Nat.mul_assoc]

theorem hOut_eq : p.hOut = (p.k - 2 * p.j) * p.up := by
  rw [hOut, lOut, oOut, Nat.sub_mul, Nat.mul_assoc]

theorem j_pos : 0 < p.j := by
  refine Nat.pos_of_ne_zero fun none => ?_
  have edges := p.edges
  rw [none, Nat.zero_mul] at edges
  exact absurd edges (by decide)

theorem kept_pos : 0 < p.k - 2 * p.j := by
  have wide := p.wide
  have edge := p.j_pos
  omega

theorem hIn_pos : 0 < p.hIn := by
  rw [hIn_eq]
  exact Nat.mul_pos p.kept_pos p.down_pos

theorem hOut_pos : 0 < p.hOut := by
  rw [hOut_eq]
  exact Nat.mul_pos p.kept_pos p.up_pos

theorem hIn_mul_up : p.hIn * p.up = p.hOut * p.down := by
  rw [hIn_eq, hOut_eq, Nat.mul_right_comm]

theorem lOut_eq : p.lOut = p.hOut + 2 * p.oOut := by
  have kept := p.hOut_pos
  rw [hOut] at kept ⊢
  omega

theorem lIn_pos : 0 < p.lIn := by
  have kept := p.hIn_pos
  rw [hIn] at kept
  omega

/-- Where block `b` starts in the burst. -/
def blockStart (b : ℕ) : ℤ := (b * p.hIn : ℕ) - p.oIn

end Plan

section Samples

variable {K : Type*} [Field K] (T : Turns K) (p : Plan) (x : List K) (k0 : ℤ)

theorem segment_eq {lo hi : ℤ} (ordered : lo ≤ hi) : segment x lo hi = padded x lo (hi - lo).toNat := by
  unfold segment
  dsimp only
  split_ifs with inside some_
  · exact slice_eq_padded inside.1 (by omega)
  · exact setSlice_eq_padded ordered rfl rfl some_
  · exact replicate_eq_padded (not_lt.mp some_)

/-- The kept bins of block `b`. -/
def blockBins (b : ℕ) : List K := select T (T.fft (padded x (p.blockStart b) p.lIn)) k0 p.lOut

theorem length_blockBins (b : ℕ) : (blockBins T p x k0 b).length = p.lOut := by
  rw [blockBins, select, List.length_map, List.length_range]

/-- The blocks of the call that starts at block `c`. -/
theorem frames_segment {c c1 : ℕ} (some_ : c < c1) :
    Chunked.frames p.lIn p.hIn
        (segment x ((c * p.hIn : ℕ) - p.oIn) ((c1 - 1 : ℤ) * p.hIn - p.oIn + p.lIn)) =
      (List.range (c1 - c)).map fun r => padded x (p.blockStart (c + r)) p.lIn := by
  obtain ⟨more, rfl⟩ := Nat.exists_eq_add_of_lt some_
  have size : (((c + more + 1 : ℕ) - 1 : ℤ) * p.hIn - p.oIn + p.lIn) - ((c * p.hIn : ℕ) - p.oIn) =
      (more * p.hIn + p.lIn : ℕ) := by
    push_cast
    ring
  have ordered : ((c * p.hIn : ℕ) - p.oIn : ℤ) ≤ ((c + more + 1 : ℕ) - 1 : ℤ) * p.hIn - p.oIn + p.lIn := by
    rw [← sub_nonneg, size]
    exact Int.natCast_nonneg _
  have count : c + more + 1 - c = more + 1 := by omega
  rw [segment_eq x ordered, size, Int.toNat_natCast, frames_padded p.hIn_pos, count]
  refine List.map_congr_left fun r _ => ?_
  have start : ((c * p.hIn : ℕ) - p.oIn : ℤ) + (r * p.hIn : ℕ) = p.blockStart (c + r) := by
    rw [Plan.blockStart]
    push_cast
    ring
  rw [start]

/-- The blocks do not depend on how many are done per call. -/
theorem blockRows_eq (nb : ℕ) :
    blockRows T p x k0 nb = (List.range nb).map fun b => T.ifft (blockBins T p x k0 b) := by
  have calls : nb ≤ blocksPerCall * (nb ⌈/⌉ blocksPerCall) :=
    le_smul_ceilDiv (by decide : 0 < blocksPerCall)
  have done := flatMap_range blocksPerCall (fun b => T.ifft (blockBins T p x k0 b)) nb (nb ⌈/⌉ blocksPerCall)
  rw [Nat.min_eq_left calls] at done
  rw [← done, blockRows]
  refine List.flatMap_congr fun q member => ?_
  have started : blocksPerCall * q < nb := by
    by_contra beyond
    have few : nb ⌈/⌉ blocksPerCall ≤ q :=
      (ceilDiv_le_iff_le_smul (by decide : 0 < blocksPerCall)).mpr (not_lt.mp beyond)
    exact absurd (List.mem_range.mp member) (not_lt.mpr few)
  have some_ : blocksPerCall * q < min nb (blocksPerCall * q + blocksPerCall) :=
    lt_min started (Nat.lt_add_of_pos_right (by decide))
  dsimp only
  rw [frames_segment p x some_, List.map_map]
  rfl

variable {T p x k0} {fs offset : ℚ}

/-- The phase that is left after the shift by whole bins makes one mix of all blocks. -/
theorem turn_mix (sampled : fs ≠ 0) (b i : ℕ) :
    T.turn (-(k0 * ((i : ℚ) / p.lOut))) *
        T.turn (-(Int.fract (((b * p.hIn : ℕ) - (p.oIn : ℚ)) * (offset / fs)) +
          (offset - k0 * (fs / p.lIn)) / (fs * p.up / p.down) * i)) =
      T.turn (-(offset * (p.blockStart b + i * p.down / p.up) / fs)) := by
  have up : (p.up : ℚ) ≠ 0 := Nat.cast_ne_zero.mpr p.up_pos.ne'
  have down : (p.down : ℚ) ≠ 0 := Nat.cast_ne_zero.mpr p.down_pos.ne'
  have k : (p.k : ℚ) ≠ 0 := by
    have kept := p.kept_pos
    exact Nat.cast_ne_zero.mpr (by omega)
  rw [← T.turn_add]
  refine T.turn_eq_of_sub_int (n := ⌊((b * p.hIn : ℕ) - (p.oIn : ℚ)) * (offset / fs)⌋) ?_
  rw [Int.fract, Plan.blockStart, Plan.lOut, Plan.lIn]
  push_cast
  field_simp
  ring

/-- A sample of a mixed block, at its time in the block. -/
theorem mixed_sample [CharZero K] (sampled : fs ≠ 0) {b i : ℕ} (inside : i < p.lOut) :
    (T.ifft (blockBins T p x k0 b)).getD i 0 *
        T.turn (-(Int.fract (((b * p.hIn : ℕ) - (p.oIn : ℚ)) * (offset / fs)) +
          (offset - k0 * (fs / p.lIn)) / (fs * p.up / p.down) * i)) * ((p.lOut : K) / p.lIn) =
      T.turn (-(offset * (p.blockStart b + i * p.down / p.up) / fs)) *
        T.band k0 p.lIn (blockBins T p x k0 b) (i * p.down / p.up) := by
  have size := length_blockBins T p x k0 b
  have up : (p.up : ℚ) ≠ 0 := Nat.cast_ne_zero.mpr p.up_pos.ne'
  have k : (p.k : ℚ) ≠ 0 := by
    have kept := p.kept_pos
    exact Nat.cast_ne_zero.mpr (by omega)
  have time : (i : ℚ) * p.lIn / p.lOut = i * p.down / p.up := by
    rw [Plan.lIn, Plan.lOut]
    push_cast
    field_simp
  have shifted := T.ifft_band k0 (blockBins T p x k0 b) (by rw [size]; exact inside) p.lIn_pos
  rw [size, time] at shifted
  rw [mul_right_comm, shifted, mul_right_comm, turn_mix sampled]

/-- Sample `i` of the mixed block `b`. -/
theorem mixRows_getElem? [CharZero K] (sampled : fs ≠ 0) {nb b i : ℕ} (block : b < nb) (inside : i < p.lOut) :
    ((mixRows T p fs offset k0 (blockRows T p x k0 nb))[b]?.bind fun row => row[i]?) =
      some (T.turn (-(offset * (p.blockStart b + i * p.down / p.up) / fs)) *
        T.band k0 p.lIn (blockBins T p x k0 b) (i * p.down / p.up)) := by
  have size : i < (T.ifft (blockBins T p x k0 b)).length := by rwa [T.length_ifft, length_blockBins]
  have row : (blockRows T p x k0 nb)[b]? = some (T.ifft (blockBins T p x k0 b)) := by
    rw [blockRows_eq, List.getElem?_map, List.getElem?_range block, Option.map_some]
  have entry := List.getElem?_eq_getElem size
  rw [← List.getD_eq_getElem _ 0 size] at entry
  rw [mixRows, List.getElem?_mapIdx, row, Option.map_some, Option.bind_some, List.getElem?_mapIdx, entry,
    Option.map_some]
  exact congrArg some (mixed_sample sampled inside)

theorem length_of_mem_mixRows {nb : ℕ} {row : List K}
    (member : row ∈ mixRows T p fs offset k0 (blockRows T p x k0 nb)) : row.length = p.lOut := by
  rw [mixRows, blockRows_eq] at member
  obtain ⟨b, inside, rfl⟩ := List.mem_mapIdx.mp member
  rw [List.length_mapIdx, List.getElem_map, T.length_ifft, length_blockBins]

theorem length_mixRows (nb : ℕ) : (mixRows T p fs offset k0 (blockRows T p x k0 nb)).length = nb := by
  rw [mixRows, List.length_mapIdx, blockRows_eq, List.length_map, List.length_range]

/-- The rows of the result, without their edges. -/
def keptRows {β : Type*} (p : Plan) (rows : List (List β)) : List (List β) :=
  rows.map fun row => (row.drop p.oOut).take (p.lOut - 2 * p.oOut)

theorem length_of_mem_keptRows {nb : ℕ} {row : List K}
    (member : row ∈ keptRows p (mixRows T p fs offset k0 (blockRows T p x k0 nb))) : row.length = p.hOut := by
  obtain ⟨whole, listed, rfl⟩ := List.mem_map.mp member
  rw [List.length_take, List.length_drop, length_of_mem_mixRows listed, ← Plan.hOut]
  have size := p.lOut_eq
  omega

theorem keptRows_getElem? {β : Type*} (rows : List (List β)) {m : ℕ} (positive : 0 < p.hOut)
    (wide : ∀ row ∈ keptRows p rows, row.length = p.hOut) :
    (keptRows p rows).flatten[m]? = rows[m / p.hOut]?.bind fun row => row[p.oOut + m % p.hOut]? := by
  have within := Nat.mod_lt m positive
  rw [getElem?_flatten positive wide, keptRows, List.getElem?_map]
  cases rows[m / p.hOut]? with
  | none => rfl
  | some row =>
    rw [Option.map_some, Option.bind_some, Option.bind_some, ← Plan.hOut, List.getElem?_take_of_lt within,
      List.getElem?_drop]

/-- Output samples and input samples keep one time. -/
theorem time_eq (m : ℕ) :
    (p.blockStart (m / p.hOut) + (p.oOut + m % p.hOut : ℕ) * p.down / p.up : ℚ) = m * p.down / p.up := by
  have up : (p.up : ℚ) ≠ 0 := Nat.cast_ne_zero.mpr p.up_pos.ne'
  have ratio : (p.hIn * p.up : ℚ) = p.hOut * p.down := by exact_mod_cast p.hIn_mul_up
  have parts : ((m / p.hOut : ℕ) * p.hOut + (m % p.hOut : ℕ) : ℚ) = m := by exact_mod_cast Nat.div_add_mod' m p.hOut
  have edges : (p.oIn * p.up : ℚ) = p.oOut * p.down := by
    rw [Plan.oIn, Plan.oOut]
    push_cast
    ring
  generalize m / p.hOut = b at parts ⊢
  generalize m % p.hOut = r at parts ⊢
  rw [Plan.blockStart, eq_div_iff up]
  push_cast
  rw [add_mul, sub_mul, div_mul_cancel₀ _ up, mul_assoc, ratio, edges, ← parts]
  ring

theorem channelizeBlocks_eq (nKeep : ℕ) : channelizeBlocks T p x fs offset nKeep =
    (keptRows p (mixRows T p fs offset (roundHalfEven (offset / (fs / p.lIn)))
      (blockRows T p x (roundHalfEven (offset / (fs / p.lIn))) (nKeep ⌈/⌉ p.hOut)))).flatten.take nKeep := rfl

theorem length_channelizeBlocks (nKeep : ℕ) : (channelizeBlocks T p x fs offset nKeep).length = nKeep := by
  have enough : nKeep ≤ p.hOut * (nKeep ⌈/⌉ p.hOut) := le_smul_ceilDiv p.hOut_pos
  rw [channelizeBlocks_eq, List.length_take, length_flatten fun row => length_of_mem_keptRows, keptRows,
    List.length_map, length_mixRows, Nat.mul_comm, Nat.min_eq_left enough]

/-- The row and the place of a sample of the result. -/
theorem channelizeBlocks_getElem? {nKeep m : ℕ} (inside : m < nKeep) :
    (channelizeBlocks T p x fs offset nKeep)[m]? =
      (mixRows T p fs offset (roundHalfEven (offset / (fs / p.lIn)))
        (blockRows T p x (roundHalfEven (offset / (fs / p.lIn))) (nKeep ⌈/⌉ p.hOut)))[m / p.hOut]?.bind
          fun row => row[p.oOut + m % p.hOut]? := by
  rw [channelizeBlocks_eq, List.getElem?_take_of_lt inside,
    keptRows_getElem? _ p.hOut_pos fun _ => length_of_mem_keptRows]

theorem block_lt {nKeep m : ℕ} (inside : m < nKeep) : m / p.hOut < nKeep ⌈/⌉ p.hOut := by
  by_contra beyond
  have few : nKeep ≤ p.hOut * (m / p.hOut) := (ceilDiv_le_iff_le_smul p.hOut_pos).mp (not_lt.mp beyond)
  have start := Nat.mul_div_le m p.hOut
  omega

/-- A sample of the result is at least the discarded edge away from both ends of its block. -/
theorem place_inside (m : ℕ) : edgeOut ≤ p.oOut + m % p.hOut ∧ p.oOut + m % p.hOut + edgeOut < p.lOut := by
  have edges : edgeOut ≤ p.oOut := p.edges
  have within := Nat.mod_lt m p.hOut_pos
  have size := p.lOut_eq
  omega

end Samples

noncomputable def complexTurns : Turns ℂ := ⟨complexTurn, complexTurn_add, complexTurn_one⟩

theorem channelize_blocks (fast : FastLength) (r : Rates) (offset : ℚ) (iq : List ℂ)
    (blockPath : (plan fast r).lIn ≤ blockInMax) : channelize complexTurns fast r offset iq =
      channelizeBlocks complexTurns (plan fast r) iq r.sampleRate offset
        ((iq.length * (plan fast r).up) ⌈/⌉ (plan fast r).down) := by
  rw [channelize]
  split_ifs with none whole
  · have empty : (channelizeBlocks complexTurns (plan fast r) iq r.sampleRate offset
        ((iq.length * (plan fast r).up) ⌈/⌉ (plan fast r).down)).length = 0 := by
      rw [length_channelizeBlocks, none]
    exact (List.length_eq_zero_iff.mp empty).symm
  · exact absurd blockPath (not_le.mpr whole)
  · rfl

/-- On the block path the kept parts of the blocks cover the burst once, at
steps of `down / up` input samples, and every sample is that of its block's kept
band at its time, mixed down by the offset from the burst's first sample on. -/
theorem blocks_continuous (fast : FastLength) (r : Rates) (offset : ℚ) (iq : List ℂ)
    (blockPath : (plan fast r).lIn ≤ blockInMax) :
    let p := plan fast r
    let k0 := roundHalfEven (offset / (r.sampleRate / p.lIn))
    let out := channelize complexTurns fast r offset iq
    (0 < p.hIn ∧ 0 < p.hOut ∧ p.hIn * p.up = p.hOut * p.down) ∧
      out.length = (iq.length * p.up) ⌈/⌉ p.down ∧
      ∀ m < out.length,
        out[m]? = ((mixRows complexTurns p r.sampleRate offset k0
            (blockRows complexTurns p iq k0 (out.length ⌈/⌉ p.hOut)))[m / p.hOut]?.bind
              fun row => row[p.oOut + m % p.hOut]?) ∧
          (edgeOut ≤ p.oOut + m % p.hOut ∧ p.oOut + m % p.hOut + edgeOut < p.lOut) ∧
          (p.blockStart (m / p.hOut) + (p.oOut + m % p.hOut : ℕ) * p.down / p.up : ℚ) = m * p.down / p.up ∧
          out[m]? = some (Complex.exp (((-(offset * m * p.down / (p.up * r.sampleRate)) : ℚ) : ℂ) *
                ((Real.pi + Real.pi : ℝ) * Complex.I)) *
              complexTurns.band k0 p.lIn (blockBins complexTurns p iq k0 (m / p.hOut))
                ((p.oOut + m % p.hOut : ℕ) * p.down / p.up)) := by
  intro p k0 out
  have blocks := channelize_blocks fast r offset iq blockPath
  have count : out.length = (iq.length * p.up) ⌈/⌉ p.down := by
    rw [show out.length = (channelize complexTurns fast r offset iq).length from rfl, blocks, length_channelizeBlocks]
  refine ⟨⟨p.hIn_pos, p.hOut_pos, p.hIn_mul_up⟩, count, fun m inside => ?_⟩
  have inside' : m < (iq.length * p.up) ⌈/⌉ p.down := by rwa [← count]
  have sampled : r.sampleRate ≠ 0 := (lt_of_lt_of_le one_pos r.sampled).ne'
  have placed := place_inside (p := p) m
  have within : p.oOut + m % p.hOut < p.lOut := by omega
  have place : out[m]? = ((mixRows complexTurns p r.sampleRate offset k0
      (blockRows complexTurns p iq k0 (out.length ⌈/⌉ p.hOut)))[m / p.hOut]?.bind
        fun row => row[p.oOut + m % p.hOut]?) := by
    rw [count, show out = _ from blocks, channelizeBlocks_getElem? inside']
  have phase : -(offset * (m * p.down / p.up) / r.sampleRate) = -(offset * m * p.down / (p.up * r.sampleRate)) := by
    ring
  refine ⟨place, placed, time_eq m, ?_⟩
  rw [place, count, mixRows_getElem? sampled (block_lt inside') within, time_eq m, phase]
  rfl

theorem le_ssnFast (n : ℕ) : n ≤ if n = 505 then 512 else n := by
  split_ifs
  · omega
  · exact le_rfl

/-- The SSN tier of a 26 MS/s receiver. -/
def ssnFast : FastLength := ⟨fun n => if n = 505 then 512 else n, le_ssnFast⟩

theorem ssn_sampled : (1 : ℚ) ≤ (26000000 : ℕ) := by exact_mod_cast Nat.one_le_ofNat

theorem ssn_positive : 0 < 1600000 := by decide

def ssnRates : Rates := ⟨(26000000 : ℕ), 1600000, ssn_sampled, ssn_positive⟩

/-- 512 periods of 65 samples in and 4 out. -/
theorem plan_ssn :
    (plan ssnFast ssnRates).up = 4 ∧ (plan ssnFast ssnRates).down = 65 ∧ (plan ssnFast ssnRates).k = 512 := by
  have rate : ⌊ssnRates.sampleRate⌋₊ = 26000000 := Nat.floor_natCast _
  have ratio : resampleRatio ⌊ssnRates.sampleRate⌋₊ ssnRates.target = (4, 65) := by
    rw [rate]
    decide
  have edges : edgePeriods ssnRates = 16 := by
    rw [edgePeriods, ratio]
    decide
  have periods : blockPeriods ssnRates = 505 := by
    rw [blockPeriods, edges, ratio]
    decide
  refine ⟨congrArg Prod.fst ratio, congrArg Prod.snd ratio, ?_⟩
  rw [show (plan ssnFast ssnRates).k = ssnFast.next (blockPeriods ssnRates) from rfl, periods]
  rfl

theorem blocks_continuous_ssn : 0 < (plan ssnFast ssnRates).hOut ∧
    (channelize complexTurns ssnFast ssnRates 300000 (List.replicate 130 1)).length = 8 := by
  obtain ⟨up, down, k⟩ := plan_ssn
  have short : (plan ssnFast ssnRates).lIn ≤ blockInMax := by
    rw [Plan.lIn, k, down]
    decide
  have whole := blocks_continuous ssnFast ssnRates 300000 (List.replicate 130 1) short
  refine ⟨whole.1.2.1, whole.2.1.trans ?_⟩
  rw [up, down, List.length_replicate]
  rfl

end Channelize

end RFObserver
