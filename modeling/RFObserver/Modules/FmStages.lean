import RFObserver.Modules.FmDemod

/-! Each stage of the demodulator is a seamless one. -/

namespace RFObserver

open Chunked

variable {R K : Type*}

section Tone

variable [Field R] [Field K] (phasors : Phasors R K)

theorem Phasors.turn_zero : phasors.turn 0 = 1 := by
  have same := phasors.turn_add 0 1
  rw [zero_add, phasors.turn_one, mul_one] at same
  exact same.symm

theorem Phasors.turn_mul_succ (phase : ℚ) (k : ℕ) : phasors.turn (phase * (k + 1 : ℕ)) =
    phasors.turn phase * phasors.turn (phase * k) := by
  rw [← phasors.turn_add]
  congr 1
  push_cast
  ring

theorem Phasors.turn_add_one (phase : ℚ) : phasors.turn (phase + 1) = phasors.turn phase := by
  rw [phasors.turn_add, phasors.turn_one, mul_one]

/-- A whole number of turns changes nothing. -/
theorem Phasors.turn_add_intCast (phase : ℚ) (m : ℤ) : phasors.turn (phase + m) = phasors.turn phase := by
  induction m with
  | zero => rw [Int.cast_zero, add_zero]
  | succ m ih => rw [Int.cast_add, Int.cast_one, ← add_assoc, phasors.turn_add_one, ih]
  | pred m ih =>
    rw [← phasors.turn_add_one, ← ih]
    congr 1
    push_cast
    ring

theorem Phasors.turn_neg_fract (phase : ℚ) : phasors.turn (-Int.fract phase) = phasors.turn (-phase) := by
  rw [← phasors.turn_add_intCast (-phase) ⌊phase⌋]
  congr 1
  rw [Int.fract]
  ring

/-- The mixing tone, sample by sample: the state is the phasor of the next sample. -/
def tone (offset : ℚ) : Stage K (ℤ × ℤ) K := each fun z x =>
  (z * phasors.turn (-offset), phasors.sample x * (z / ((32768 : ℕ) : K)))

theorem tone_eq (offset : ℚ) (z : K) (buf : List (ℤ × ℤ)) :
    tone phasors offset z buf = (z * phasors.turn (-offset * buf.length),
      (List.zipWith (· * ·) (buf.map phasors.sample)
        ((List.range buf.length).map fun k : ℕ => phasors.turn (-offset * k))).map (· * (z / ((32768 : ℕ) : K)))) := by
  induction buf generalizing z with
  | nil => simp [tone, each, scan, phasors.turn_zero]
  | cons x buf ih =>
    rw [tone] at ih ⊢
    rw [each_cons, ih, List.length_cons, phasors.turn_mul_succ, ← mul_assoc, List.range_succ_eq_map]
    simp only [List.map_cons, List.map_map, List.zipWith_cons_cons, Nat.cast_zero, mul_zero, phasors.turn_zero, mul_one]
    congr 2
    rw [List.map_zipWith, List.map_zipWith, List.zipWith_map_right, List.zipWith_map_right]
    congr 1
    funext y k
    rw [Function.comp_apply, Nat.succ_eq_add_one, phasors.turn_mul_succ]
    ring

/-- One chunk through the tone cut for its length. -/
theorem FMDemod.shift_eq {s : FMDemod R K} {buf : List (ℤ × ℤ)} {offset : ℚ}
    (cut : s.nco = (List.range buf.length).map fun k : ℕ => phasors.turn (-offset * k))
    (advance : s.ncoStep = Int.fract (offset * buf.length)) :
    tone phasors offset (phasors.turn (-s.ncoPhase)) buf =
      (phasors.turn (-(s.shift phasors buf).1.ncoPhase), (s.shift phasors buf).2) := by
  have phase : phasors.turn (-Int.fract (s.ncoPhase + s.ncoStep)) =
      phasors.turn (-s.ncoPhase) * phasors.turn (-offset * buf.length) := by
    rw [phasors.turn_neg_fract, neg_add, phasors.turn_add, advance, phasors.turn_neg_fract, neg_mul]
  rw [tone_eq, FMDemod.shift, cut, phase]

end Tone

section Box

variable [Field K]

theorem mean_one (x : K) : mean 1 [x] = x := by
  rw [mean, List.sum_singleton, Nat.cast_one, div_one]

theorem boxcar_take {d : ℕ} (positive : 0 < d) (xs : List K) :
    boxcar d (xs.take (xs.length / d * d)) = (frames d d xs).map (mean d) := by
  rw [boxcar, frames, frameCount_self positive, List.map_map, List.length_take_of_le (Nat.div_mul_le_self _ _),
    Nat.mul_div_cancel _ positive]
  refine List.map_congr_left fun i member => ?_
  have fits := Nat.mul_le_mul_right d (Nat.succ_le_of_lt (List.mem_range.mp member))
  rw [Nat.succ_mul] at fits
  rw [Function.comp_apply, List.drop_take, List.take_take, Nat.min_eq_left (by omega)]

theorem frames_one (xs : List K) : (frames 1 1 xs).map (mean 1) = xs := by
  rw [frames, frameCount_self Nat.one_pos, Nat.div_one, List.map_map]
  refine List.ext_getElem (by rw [List.length_map, List.length_range]) fun i less _ => ?_
  rw [List.length_map, List.length_range] at less
  rw [List.getElem_map, List.getElem_range, Function.comp_apply, Nat.mul_one, List.drop_eq_getElem_cons less,
    List.take_succ_cons, List.take_zero, mean_one]

/-- The box-car with its remainder, whether or not the plan has one. -/
theorem FMDemod.boxDecimate_eq {s : FMDemod R K} (positive : 0 < s.plan.decimBox)
    (short : frameCount s.plan.decimBox s.plan.decimBox (s.tail.getD []).length = 0) (iq : List K) :
    framed s.plan.decimBox s.plan.decimBox (mean s.plan.decimBox) (s.tail.getD []) iq =
      ((s.boxDecimate iq).1.tail.getD [], (s.boxDecimate iq).2) := by
  by_cases box : 1 < s.plan.decimBox
  · rw [framed, FMDemod.boxDecimate]
    simp only [if_pos box, boxcar_take positive, frameCount_self positive, Option.getD_some]
  · have one : s.plan.decimBox = 1 := by omega
    rw [one, frameCount_self Nat.one_pos, Nat.div_one] at short
    have none := List.eq_nil_of_length_eq_zero short
    rw [framed, FMDemod.boxDecimate, one, frames_one, frameCount_self Nat.one_pos, Nat.div_one, Nat.mul_one,
      List.drop_length, none, List.nil_append, if_neg (lt_irrefl 1), none]

/-- The box-car leaves everything but its remainder as it was. -/
theorem FMDemod.boxDecimate_frame (s : FMDemod R K) (iq : List K) :
    ∃ tail, (s.boxDecimate iq).1 = { s with tail := tail } := by
  by_cases box : 1 < s.plan.decimBox
  · exact ⟨_, congrArg Prod.fst (if_pos box)⟩
  · exact ⟨s.tail, congrArg Prod.fst (if_neg box)⟩

end Box

section Fir

variable [Field K]

/-- The newest sample of a frame meets the first tap. -/
def dot (taps frame : List K) : K := ∑ m ∈ Finset.range taps.length, taps.getD m 0 * frame.getD (taps.length - 1 - m) 0

theorem getD_fft (xs : List K) (n j : ℕ) : (fft xs n).getD j 0 = if j < n then xs.getD j 0 else 0 := by
  rw [fft, List.getD_eq_getElem?_getD, List.getElem?_map]
  by_cases less : j < n
  · rw [List.getElem?_range less, if_pos less]
    rfl
  · rw [List.getElem?_eq_none (by rw [List.length_range]; omega), if_neg less]
    rfl

/-- Past the first outputs, where the taps wrap around, the circular convolution is the plain one. -/
theorem circular_eq_dot {taps xe : List K} {n i : ℕ} (some : 0 < taps.length) (fits : xe.length ≤ n)
    (filled : i + taps.length ≤ xe.length) :
    ∑ j ∈ Finset.range n, (fft xe n).getD j 0 * (fft taps n).getD ((taps.length - 1 + i + n - j) % n) 0 =
      dot taps ((xe.drop i).take taps.length) := by
  have inside : Finset.Ico i (i + taps.length) ⊆ Finset.range n := fun j member => by
    rw [Finset.mem_Ico] at member
    rw [Finset.mem_range]
    omega
  have outside : ∀ j ∈ Finset.range n, j ∉ Finset.Ico i (i + taps.length) →
      (fft xe n).getD j 0 * (fft taps n).getD ((taps.length - 1 + i + n - j) % n) 0 = 0 := by
    intro j member far
    rw [Finset.mem_range] at member
    rw [Finset.mem_Ico, not_and, not_lt] at far
    by_cases padding : xe.length ≤ j
    · rw [getD_fft, if_pos member, List.getD_eq_default _ _ padding, zero_mul]
    · have beyond : taps.length ≤ (taps.length - 1 + i + n - j) % n := by
        by_cases before : j < i
        · rw [show taps.length - 1 + i + n - j = taps.length - 1 + i - j + n by omega, Nat.add_mod_right,
            Nat.mod_eq_of_lt (by omega)]
          omega
        · have := far (not_lt.mp before)
          rw [Nat.mod_eq_of_lt (by omega)]
          omega
      rw [getD_fft taps, List.getD_eq_default _ _ beyond, ite_self, mul_zero]
  rw [← Finset.sum_subset inside outside, Finset.sum_Ico_eq_sum_range, Nat.add_sub_cancel_left, dot,
    ← Finset.sum_range_reflect]
  refine Finset.sum_congr rfl fun m member => ?_
  rw [Finset.mem_range] at member
  have index : (taps.length - 1 + i + n - (i + (taps.length - 1 - m))) % n = m := by
    rw [show taps.length - 1 + i + n - (i + (taps.length - 1 - m)) = m + n by omega, Nat.add_mod_right,
      Nat.mod_eq_of_lt (by omega)]
  rw [index, getD_fft, getD_fft, if_pos (by omega), if_pos (by omega), mul_comm]
  congr 1
  rw [List.getD_eq_getElem?_getD, List.getD_eq_getElem?_getD, List.getElem?_take_of_lt (by omega), List.getElem?_drop]

/-- The outputs of the overlap-save that are kept are those of the taps on every frame. -/
theorem kept_eq {taps xe : List K} {n : ℕ} (some : 0 < taps.length) (fits : xe.length ≤ n) :
    ((ifftMul (fft xe n) (fft taps n)).take xe.length).drop (taps.length - 1) =
      (frames taps.length 1 xe).map (dot taps) := by
  have size : (fft xe n).length = n := by rw [fft, List.length_map, List.length_range]
  have outputs : (ifftMul (fft xe n) (fft taps n)).length = n := by
    rw [ifftMul, List.length_map, List.length_range, size]
  rw [frames, frameCount_one some, List.map_map]
  refine List.ext_getElem ?_ fun i less _ => ?_
  · rw [List.length_drop, List.length_take, outputs, List.length_map, List.length_range, Nat.min_eq_left fits]
  · rw [List.length_drop, List.length_take, outputs, Nat.min_eq_left fits] at less
    simp only [List.getElem_drop, List.getElem_take, ifftMul, List.getElem_map, List.getElem_range, size, Nat.mul_one,
      Function.comp_apply]
    exact circular_eq_dot some fits (by omega)

/-- What the cache holds is what it would be filled with. -/
def SpectraOf (taps : List K) (spectra : List (ℕ × List K)) : Prop :=
  ∀ n spectrum, spectra.lookup n = some spectrum → spectrum = fft taps n

theorem le_two_pow_bitLength (length : ℕ) : length ≤ 2 ^ bitLength ((length : ℤ) - 1) := by
  cases length with
  | zero => exact Nat.zero_le _
  | succ length =>
    rw [bitLength, Nat.cast_succ, add_sub_cancel_right, Int.natAbs_natCast]
    exact Nat.lt_size_self length

section Filter

variable {s : FMDemod R K}

/-- The spectrum that the filter takes, from the cache or not. -/
theorem spectrum_eq (known : SpectraOf s.plan.firTaps s.firSpectra) (n : ℕ) :
    (s.firSpectra.lookup n).getD (fft s.plan.firTaps n) = fft s.plan.firTaps n := by
  cases found : s.firSpectra.lookup n with
  | none => rfl
  | some spectrum => exact known n spectrum found

theorem SpectraOf.nil (taps : List K) : SpectraOf taps [] := fun _ _ found => by cases found

theorem SpectraOf.insert {taps : List K} {spectra : List (ℕ × List K)} (known : SpectraOf taps spectra) (missing : Bool)
    (n : ℕ) : SpectraOf taps (if missing then (n, fft taps n) :: spectra else spectra) := by
  cases missing with
  | false => exact known
  | true =>
    intro k spectrum found
    rw [if_pos rfl, List.lookup_cons] at found
    split at found
    · case h_1 same => rw [eq_of_beq same, ← Option.some.inj found]
    · exact known k spectrum found

theorem FMDemod.channelFilter_spectra (known : SpectraOf s.plan.firTaps s.firSpectra) (x : List K) :
    SpectraOf s.plan.firTaps (s.channelFilter x).1.firSpectra := by
  simp only [FMDemod.channelFilter, spectrum_eq known]
  exact known.insert _ _

/-- The channel filter is the FIR on every frame, then one output of `decimFir`. -/
theorem FMDemod.channelFilter_eq (some : 0 < s.plan.firTaps.length) (positive : 0 < s.plan.decimFir)
    (known : SpectraOf s.plan.firTaps s.firSpectra) (filled : s.firHist.length = s.plan.firTaps.length - 1) (x : List K) :
    andThen (framed s.plan.firTaps.length 1 (dot s.plan.firTaps)) (decimate s.plan.decimFir) (s.firHist, s.firPhase) x =
      (((s.channelFilter x).1.firHist, (s.channelFilter x).1.firPhase), (s.channelFilter x).2) := by
  have joined : (if 1 < s.plan.firTaps.length then s.firHist ++ x else x) = s.firHist ++ x := by
    by_cases several : 1 < s.plan.firTaps.length
    · exact if_pos several
    · rw [if_neg several, List.eq_nil_of_length_eq_zero (by omega : s.firHist.length = 0), List.nil_append]
  have count : frameCount s.plan.firTaps.length 1 (s.firHist ++ x).length =
      (s.firHist ++ x).length - (s.plan.firTaps.length - 1) := frameCount_one some _
  have carried : (if 1 < s.plan.firTaps.length then
      (s.firHist ++ x).drop ((s.firHist ++ x).length - (s.plan.firTaps.length - 1)) else s.firHist) =
      (s.firHist ++ x).drop ((s.firHist ++ x).length - (s.plan.firTaps.length - 1)) := by
    by_cases several : 1 < s.plan.firTaps.length
    · exact if_pos several
    · have none : s.firHist = [] := List.eq_nil_of_length_eq_zero (by omega)
      rw [if_neg several, (by omega : s.plan.firTaps.length - 1 = 0), Nat.sub_zero, List.drop_length, none]
  simp only [andThen, framed, count, Nat.mul_one, (decimate_eq positive _ _).2, FMDemod.channelFilter, joined, carried,
    spectrum_eq known, kept_eq some (le_two_pow_bitLength _)]

theorem FMDemod.channelFilter_hist (filled : s.firHist.length = s.plan.firTaps.length - 1) (x : List K) :
    (s.channelFilter x).1.firHist.length = s.plan.firTaps.length - 1 := by
  rw [FMDemod.channelFilter]
  by_cases several : 1 < s.plan.firTaps.length
  · simp only [if_pos several]
    rw [List.length_drop, List.length_append]
    omega
  · simp only [if_neg several]
    exact filled

end Filter

end Fir

section Audio

variable [Field R]

theorem FMDemod.discriminate_eq [Field K] (phasors : Phasors R K) (s : FMDemod R K) (x : K) (xs : List K) :
    withPrevious (deviation phasors s.plan.intermediateRate) s.prevSample (x :: xs) =
      ((s.discriminate phasors (x :: xs)).1.prevSample, (s.discriminate phasors (x :: xs)).2) := by
  rw [withPrevious_eq, FMDemod.discriminate]
  cases s.prevSample <;> rfl

theorem interp_eq {xs : List R} {t : ℚ} (start : 0 ≤ t) (within : t ≤ (xs.length : ℚ) - 1) :
    interp xs t = lineAt xs t := by
  by_cases first : t ≤ 0
  · obtain rfl := le_antisymm first start
    rw [interp, if_pos le_rfl, lineAt, Int.fract_zero, Rat.cast_zero, zero_mul, add_zero]
    cases xs <;> rfl
  · by_cases last : (xs.length : ℚ) - 1 ≤ t
    · obtain ⟨n, size⟩ : ∃ n, xs.length = n + 1 := Nat.exists_eq_add_of_lt (by
        have : (0 : ℚ) < xs.length := by linarith
        exact_mod_cast this) |>.imp fun n size => by omega
      have whole : t = (n : ℚ) := by
        rw [size, Nat.cast_succ] at within last
        linarith
      rw [interp, if_neg first, if_pos last, lineAt, whole, Int.fract_natCast, Int.floor_natCast, Int.toNat_natCast,
        Rat.cast_zero, zero_mul, add_zero, List.getLastD_eq_getLast?, List.getLast?_eq_getElem?, size,
        Nat.add_sub_cancel, List.getD_eq_getElem?_getD]
    · have floor : ((⌊t⌋.toNat : ℕ) : ℚ) = ⌊t⌋ := by
        exact_mod_cast Int.toNat_of_nonneg (Int.floor_nonneg.mpr start)
      rw [interp, if_neg first, if_neg last, lineAt, Int.fract]
      simp only [floor]

/-- The resampler reads the line through the samples. -/
theorem FMDemod.resample_eq {s : FMDemod R K} (forward : 0 < s.plan.rsStep) (ahead : Ahead (s.rsPos, s.rsLast))
    (x : List R) : readLine s.plan.rsStep (s.rsPos, s.rsLast) x =
      (((s.resample x).1.rsPos, (s.resample x).1.rsLast), (s.resample x).2) := by
  have start : (if s.rsLast.isSome then s.rsPos + 1 else s.rsPos) = s.rsPos + (s.rsLast.toList.length : ℚ) := by
    cases s.rsLast with
    | none => simp
    | some v => simp
  have first := ahead.start
  rw [readLine, FMDemod.resample, start]
  simp only at first ⊢
  generalize s.rsPos + (s.rsLast.toList.length : ℚ) = pos at *
  generalize s.rsLast.toList ++ x = all at *
  by_cases short : (all.length : ℚ) - 1 < pos
  · rw [if_pos short, gridCount, if_pos short, Nat.cast_zero, mul_zero, add_zero]
    rfl
  · have reach := lt_gridCount_iff forward pos all.length
    have count : gridCount s.plan.rsStep pos all.length = ⌊((all.length : ℚ) - 1 - pos) / s.plan.rsStep⌋.toNat + 1 :=
      if_neg short
    rw [if_neg short]
    simp only
    rw [← count]
    refine Prod.ext (Prod.ext ?_ rfl) (List.map_congr_left fun k member => ?_)
    · rw [count, Nat.add_sub_cancel]
      push_cast
      ring
    · have within := (reach k).mp (List.mem_range.mp member)
      exact (interp_eq (add_nonneg first (mul_nonneg forward.le (Nat.cast_nonneg k))) within).symm

/-- The resampler leaves everything but its own state as it was. -/
theorem FMDemod.resample_frame (s : FMDemod R K) (x : List R) : ∃ pos last, (s.resample x).1 =
    { s with rsPos := pos, rsLast := last } := by
  rw [FMDemod.resample]
  simp only
  generalize (if s.rsLast.isSome then s.rsPos + 1 else s.rsPos) = pos
  split
  · exact ⟨_, _, rfl⟩
  · exact ⟨_, _, rfl⟩

end Audio

end RFObserver
