import Mathlib.Analysis.SpecialFunctions.Complex.Arg
import Mathlib.Analysis.SpecialFunctions.Trigonometric.Sinc
import RFObserver.Modules.FmStages

/-! FM demodulation does not depend on where the chunks are cut. -/

namespace RFObserver

open Chunked

variable {R K : Type*} [Field R] [Field K]

section Chain

variable (phasors : Phasors R K) (plan : DspPlan R K)

/-- The stages up to the intermediate rate. -/
def DspPlan.frontChain (offset : ℚ) : Stage (K × List K × List K × ℕ) (ℤ × ℤ) K :=
  andThen (tone phasors offset) (andThen (framed plan.decimBox plan.decimBox (mean plan.decimBox))
    (andThen (framed plan.firTaps.length 1 (dot plan.firTaps)) (decimate plan.decimFir)))

/-- The stages from the intermediate rate on, with the de-emphasis at `alpha`. -/
def DspPlan.backChain (alpha : R) : Stage (Option K × List R × List R × ℚ × Option R) K R :=
  andThen (withPrevious (deviation phasors plan.intermediateRate)) (andThen (lfilter [alpha] [1, alpha - 1])
    (andThen (lfilter plan.audioTaps [1]) (readLine plan.rsStep)))

/-- A plan that the stages can work with. -/
structure DspPlan.Sound : Prop where
  box : 0 < plan.decimBox
  fir : 0 < plan.decimFir
  taps : 0 < plan.firTaps.length
  forward : 0 < plan.rsStep

/-- What a chain carries never holds a whole frame. -/
def DspPlan.FrontOk (c : K × List K × List K × ℕ) : Prop :=
  True ∧ frameCount plan.decimBox plan.decimBox c.2.1.length = 0 ∧
    frameCount plan.firTaps.length 1 c.2.2.1.length = 0 ∧ True

def BackOk (c : Option K × List R × List R × ℚ × Option R) : Prop := True ∧ True ∧ True ∧ Ahead c.2.2.2

variable {plan}

theorem DspPlan.Sound.front (sound : plan.Sound) (offset : ℚ) :
    Seamless plan.FrontOk (plan.frontChain phasors offset) :=
  (each_seamless _).andThen ((framed_seamless sound.box le_rfl _).andThen
    ((framed_seamless Nat.one_pos sound.taps _).andThen (scan_seamless _)))

theorem DspPlan.Sound.back (sound : plan.Sound) (alpha : R) : Seamless BackOk (plan.backChain phasors alpha) :=
  (each_seamless _).andThen ((each_seamless _).andThen ((each_seamless _).andThen (readLine_seamless sound.forward)))

/-- The whole demodulator. -/
def DspPlan.chain (phasors : Phasors R K) (plan : DspPlan R K) (offset : ℚ) (alpha : R) :
    Stage ((K × List K × List K × ℕ) × Option K × List R × List R × ℚ × Option R) (ℤ × ℤ) R :=
  andThen (plan.frontChain phasors offset) (plan.backChain phasors alpha)

/-- The chain before its first sample. -/
def DspPlan.start (phasors : Phasors R K) (plan : DspPlan R K) :
    (K × List K × List K × ℕ) × Option K × List R × List R × ℚ × Option R :=
  ((phasors.turn (-0), [], List.replicate (plan.firTaps.length - 1) 0, 0),
    (none, [0], List.replicate (plan.audioTaps.length - 1) 0, 0, none))

theorem DspPlan.Sound.chain (sound : plan.Sound) (offset : ℚ) (alpha : R) :
    Seamless (fun c => plan.FrontOk c.1 ∧ BackOk c.2) (plan.chain phasors offset alpha) :=
  (sound.front phasors offset).andThen (sound.back phasors alpha)

theorem DspPlan.Sound.start (sound : plan.Sound) : plan.FrontOk (plan.start phasors).1 ∧ BackOk (plan.start phasors).2 := by
  have wide : (List.replicate (plan.firTaps.length - 1) (0 : K)).length < plan.firTaps.length := by
    have := sound.taps
    rw [List.length_replicate]
    omega
  refine ⟨⟨trivial, if_pos sound.box, if_pos wide, trivial⟩, trivial, trivial, trivial, ?_⟩
  constructor <;> norm_num [DspPlan.start]

end Chain

section Simulation

/-- The state of the stages up to the intermediate rate; the cache of spectra is no part of it. -/
def FMDemod.front (phasors : Phasors R K) (s : FMDemod R K) : K × List K × List K × ℕ :=
  (phasors.turn (-s.ncoPhase), s.tail.getD [], s.firHist, s.firPhase)

/-- The state of the stages from the intermediate rate on. -/
def FMDemod.back (s : FMDemod R K) : Option K × List R × List R × ℚ × Option R :=
  (s.prevSample, s.deemphZi, s.audioZi, s.rsPos, s.rsLast)

/-- The state is one built for chunks of `n` samples of the tuning. -/
structure FMDemod.Tuned (phasors : Phasors R K) (plan : DspPlan R K) (offset : ℚ) (n : ℕ) (s : FMDemod R K) : Prop where
  built : s.plan = plan
  cut : s.nco = (List.range n).map fun k : ℕ => phasors.turn (-offset * k)
  advance : s.ncoStep = Int.fract (offset * n)
  spectra : SpectraOf plan.firTaps s.firSpectra
  hist : s.firHist.length = plan.firTaps.length - 1

variable {phasors : Phasors R K} {plan : DspPlan R K} {offset : ℚ} {n : ℕ} {s : FMDemod R K} {buf : List (ℤ × ℤ)}

/-- One chunk up to the intermediate rate. -/
theorem FMDemod.toIntermediate_eq (phasors : Phasors R K) (s : FMDemod R K) (buf : List (ℤ × ℤ)) : ∃ tail,
    (s.shift phasors buf).1.boxDecimate (s.shift phasors buf).2 =
      ({ s with ncoPhase := Int.fract (s.ncoPhase + s.ncoStep), tail := tail },
        ((s.shift phasors buf).1.boxDecimate (s.shift phasors buf).2).2) ∧
    s.toIntermediate phasors buf =
      FMDemod.channelFilter { s with ncoPhase := Int.fract (s.ncoPhase + s.ncoStep), tail := tail }
        ((s.shift phasors buf).1.boxDecimate (s.shift phasors buf).2).2 := by
  obtain ⟨tail, box⟩ := (s.shift phasors buf).1.boxDecimate_frame (s.shift phasors buf).2
  refine ⟨tail, Prod.ext box rfl, ?_⟩
  rw [FMDemod.toIntermediate]
  simp only
  rw [box]
  rfl

/-- A chunk of the length that the tone was cut for moves the front as its stages do. -/
theorem FMDemod.Tuned.front_step (tuned : s.Tuned phasors plan offset n) (sound : plan.Sound)
    (ok : plan.FrontOk (s.front phasors)) (whole : buf.length = n) :
    plan.frontChain phasors offset (s.front phasors) buf =
      ((s.toIntermediate phasors buf).1.front phasors, (s.toIntermediate phasors buf).2) := by
  obtain rfl := tuned.built
  obtain rfl := whole
  obtain ⟨-, boxOk, -, -⟩ := ok
  obtain ⟨tail, box, rest⟩ := s.toIntermediate_eq phasors buf
  have mixed := FMDemod.shift_eq phasors tuned.cut tuned.advance
  have averaged := (s.shift phasors buf).1.boxDecimate_eq sound.box boxOk (s.shift phasors buf).2
  rw [box] at averaged
  rw [rest]
  exact andThen_eq mixed (andThen_eq averaged
    (FMDemod.channelFilter_eq sound.taps sound.fir tuned.spectra tuned.hist _))

/-- The rest of the state stays as the tuning built it. -/
theorem FMDemod.Tuned.toIntermediate (tuned : s.Tuned phasors plan offset n) (sound : plan.Sound) (buf : List (ℤ × ℤ)) :
    (s.toIntermediate phasors buf).1.Tuned phasors plan offset n ∧ (s.toIntermediate phasors buf).1.back = s.back ∧
      (s.toIntermediate phasors buf).1.params = s.params ∧ (s.toIntermediate phasors buf).1.dspKey = s.dspKey := by
  obtain rfl := tuned.built
  obtain ⟨tail, -, rest⟩ := s.toIntermediate_eq phasors buf
  rw [rest]
  refine ⟨⟨rfl, tuned.cut, tuned.advance, FMDemod.channelFilter_spectra tuned.spectra _,
    FMDemod.channelFilter_hist tuned.hist _⟩, rfl, rfl, rfl⟩

/-- The de-emphasis coefficient. -/
def FMDemod.alpha (s : FMDemod R K) : R := ((1 / (1 + s.params.deemphasisTau * s.plan.intermediateRate) : ℚ) : R)

/-- A chunk that brings intermediate samples moves the back as its stages do. -/
theorem FMDemod.toAudio_eq (phasors : Phasors R K) (sound : s.plan.Sound) (ok : BackOk s.back)
    (finite : 1 + s.params.deemphasisTau * s.plan.intermediateRate ≠ 0) (x : K) (xs : List K) :
    ∃ prev deemphZi audioZi pos last audio, s.toAudio phasors (x :: xs) = ({ s with
        prevSample := prev, deemphZi := deemphZi, audioZi := audioZi, rsPos := pos, rsLast := last }, .ok (some audio)) ∧
      s.plan.backChain phasors s.alpha s.back (x :: xs) = ((prev, deemphZi, audioZi, pos, last), audio) := by
  obtain ⟨-, -, -, ahead⟩ := ok
  have paired := s.discriminate_eq phasors x xs
  let flat := lfilter [s.alpha] [1, s.alpha - 1] s.deemphZi (s.discriminate phasors (x :: xs)).2
  let low := lfilter s.plan.audioTaps [1] s.audioZi flat.2
  let filtered : FMDemod R K :=
    { s with prevSample := (x :: xs).getLast?, deemphZi := flat.1, audioZi := low.1 }
  obtain ⟨pos, last, frame⟩ := filtered.resample_frame low.2
  have read := FMDemod.resample_eq (s := filtered) sound.forward ahead low.2
  rw [frame] at read
  refine ⟨(x :: xs).getLast?, flat.1, low.1, pos, last, (filtered.resample low.2).2, ?_,
    andThen_eq paired (andThen_eq rfl (andThen_eq rfl read))⟩
  have run : s.toAudio phasors (x :: xs) = ((filtered.resample low.2).1, .ok (some (filtered.resample low.2).2)) :=
    if_neg finite
  rw [run, frame]

/-- One chunk of the length that the state was built for. -/
theorem FMDemod.Tuned.demodulate (tuned : s.Tuned phasors plan offset n) (sound : plan.Sound)
    (front : plan.FrontOk (s.front phasors)) (back : BackOk s.back)
    (finite : 1 + s.params.deemphasisTau * s.plan.intermediateRate ≠ 0) (whole : buf.length = n) :
    ∃ s' audio, s.demodulate phasors buf = (s', .ok (some audio)) ∧ s'.Tuned phasors plan offset n ∧
      s'.params = s.params ∧ s'.dspKey = s.dspKey ∧
      plan.chain phasors offset s.alpha (s.front phasors, s.back) buf = ((s'.front phasors, s'.back), audio) := by
  have moved := tuned.front_step sound front whole
  obtain ⟨kept, same, params, key⟩ := tuned.toIntermediate sound buf
  obtain ⟨m, iqDec, taken⟩ : ∃ m iqDec, s.toIntermediate phasors buf = (m, iqDec) := ⟨_, _, rfl⟩
  rw [taken] at moved kept same params key
  simp only at moved kept same params key
  have run : s.demodulate phasors buf = if iqDec.isEmpty then (m, .ok (some [])) else m.toAudio phasors iqDec := by
    rw [FMDemod.demodulate, taken]
  cases iqDec with
  | nil =>
    refine ⟨m, [], run, kept, params, key, andThen_eq moved ?_⟩
    rw [same]
    exact (sound.back phasors s.alpha).nil back
  | cons x xs =>
    have alpha : m.alpha = s.alpha := by rw [FMDemod.alpha, FMDemod.alpha, params, kept.built, tuned.built]
    obtain ⟨prev, deemphZi, audioZi, pos, last, audio, audible, ran⟩ :=
      FMDemod.toAudio_eq (s := m) phasors (kept.built ▸ sound) (same ▸ back)
        (by rw [params, kept.built, ← tuned.built]; exact finite) x xs
    rw [kept.built, alpha, same] at ran
    exact ⟨_, audio, run.trans audible, ⟨kept.built, kept.cut, kept.advance, kept.spectra, kept.hist⟩, params, key,
      andThen_eq moved ran⟩

end Simulation

section Plan

theorem firFactor_spec (total : ℕ) : 0 < firFactor total ∧ firFactor total ∣ total := by
  rw [firFactor]
  cases best : ((List.range' 1 16).filter fun f => total % f == 0).max? with
  | none => exact ⟨Nat.one_pos, one_dvd total⟩
  | some f =>
    obtain ⟨listed, divides⟩ := List.mem_filter.mp (List.max?_mem best)
    rw [List.mem_range'] at listed
    obtain ⟨i, -, rfl⟩ := listed
    exact ⟨by rw [Option.getD_some]; omega, Nat.dvd_of_mod_eq_zero (eq_of_beq divides)⟩

/-- Both factors of a plan found so far are positive. -/
def PositivePlan (best : Option (ℕ × ℕ × ℕ)) : Prop := ∀ fir total box, best = some (fir, total, box) → 0 < fir ∧ 0 < box

theorem betterPlan_positive {best : Option (ℕ × ℕ × ℕ)} (found : PositivePlan best) {total : ℕ} (positive : 0 < total) :
    PositivePlan (betterPlan best total) := by
  obtain ⟨fir, divides⟩ := firFactor_spec total
  have fresh : PositivePlan (some (firFactor total, total, total / firFactor total)) := by
    rintro _ _ _ same
    cases same
    exact ⟨fir, Nat.div_pos (Nat.le_of_dvd positive divides) fir⟩
  cases best with
  | none => exact fresh
  | some best =>
    rw [betterPlan]
    split
    · exact fresh
    · exact found

theorem foldl_betterPlan_positive {totals : List ℕ} (positive : ∀ total ∈ totals, 0 < total)
    {best : Option (ℕ × ℕ × ℕ)} (found : PositivePlan best) : PositivePlan (totals.foldl betterPlan best) := by
  induction totals generalizing best with
  | nil => exact found
  | cons total totals ih =>
    rw [List.forall_mem_cons] at positive
    exact ih positive.2 (betterPlan_positive found positive.1)

/-- The decimation divides by something in both stages. -/
theorem planDecimation_pos (sampleRate : ℤ) (channelBw : ℚ) :
    0 < (planDecimation sampleRate channelBw).1 ∧ 0 < (planDecimation sampleRate channelBw).2 := by
  rw [planDecimation]
  simp only
  generalize known : max 1 ⌊(sampleRate : ℚ) / max 250000 (5 / 4 * channelBw)⌋.toNat = dMax
  have least : 1 ≤ dMax := known ▸ le_max_left ..
  by_cases small : dMax ≤ 16
  · rw [if_pos small]
    exact ⟨Nat.one_pos, least⟩
  · rw [if_neg small]
    have positive : PositivePlan ((List.range' (dMax * 4 / 5) (dMax + 1 - dMax * 4 / 5)).foldl betterPlan none) := by
      refine foldl_betterPlan_positive (fun total listed => ?_) fun _ _ _ impossible => by cases impossible
      obtain ⟨i, -, rfl⟩ := List.mem_range'.mp listed
      omega
    split
    · case h_1 fir total box best => exact ⟨(positive _ _ _ best).2, (positive _ _ _ best).1⟩
    · exact ⟨Nat.one_pos, least⟩

theorem channelTaps_pos {design : FilterDesign R} {p : FmParams} {decimBox decimFir : ℕ} {rateBox : ℚ} {taps : List R}
    (designed : channelTaps design p decimBox decimFir rateBox = some taps) : 0 < taps.length := by
  rw [channelTaps] at designed
  split at designed
  · rw [design.firwin_length designed]
    exact lt_min (by decide) (lt_of_lt_of_le Nat.one_pos Nat.right_le_or)
  · cases designed
    exact Nat.one_pos

/-- A plan that the filter design accepts can be worked with. -/
theorem planDsp_sound {phasors : Phasors R K} {design : FilterDesign R} {p : FmParams} {sampleRate : ℤ}
    {plan : DspPlan R K} (planned : planDsp phasors design p sampleRate = some plan) : plan.Sound := by
  have factors := planDecimation_pos sampleRate p.channelBwHz
  simp only [planDsp, Option.bind_eq_some_iff, Option.map_eq_some_iff] at planned
  obtain ⟨taps, designed, audioTaps, accepted, rfl⟩ := planned
  obtain ⟨audible, below⟩ := design.firwin_cutoff accepted
  have audio : (0 : ℚ) < p.audioRate := by
    have := (lt_min_iff.mp audible).2
    linarith
  refine ⟨factors.1, factors.2, ?_, div_pos (by linarith) audio⟩
  rw [List.length_map]
  exact channelTaps_pos designed

end Plan

section Cuts

variable (phasors : Phasors R K) (design : FilterDesign R) (centerFreq sampleRate : ℤ)

/-- The audio of the stream cut into chunks of `n` samples; what is left at its end is no chunk of that length. -/
def FMDemod.audioOf (s : FMDemod R K) (n : ℕ) (iq : List (ℤ × ℤ)) : List R :=
  (run (FMDemod.process phasors design centerFreq sampleRate) s (frames n n iq)).2

/-- The audio of one chunk. -/
def FMDemod.oneChunk (s : FMDemod R K) (iq : List (ℤ × ℤ)) : List R :=
  (FMDemod.process phasors design centerFreq sampleRate s iq).2

variable {phasors design centerFreq sampleRate} {p : FmParams} {n : ℕ} {s : FMDemod R K} {buf : List (ℤ × ℤ)}

/-- The offset of the channel, in turns per sample. -/
def FmParams.offset (p : FmParams) (centerFreq sampleRate : ℤ) : ℚ := (p.channelFreqHz - centerFreq) / sampleRate

/-- The channel is outside the captured band. -/
def FmParams.OutOfBand (p : FmParams) (centerFreq sampleRate : ℤ) : Prop :=
  (sampleRate : ℚ) / 2 < |p.channelFreqHz - centerFreq| + p.channelBwHz / 2

/-- The demodulator has done what the chain did. -/
def FMDemod.Simulates (phasors : Phasors R K) (centerFreq sampleRate : ℤ) (p : FmParams) (plan : DspPlan R K) (n : ℕ)
    (s : FMDemod R K) (c : (K × List K × List K × ℕ) × Option K × List R × List R × ℚ × Option R) : Prop :=
  s.params = p ∧
    ((s.dspKey = some (keyOf p centerFreq sampleRate n) ∧ s.Tuned phasors plan (p.offset centerFreq sampleRate) n ∧
        c = (s.front phasors, s.back)) ∨
      (s.dspKey ≠ some (keyOf p centerFreq sampleRate n) ∧ c = plan.start phasors))

variable {plan : DspPlan R K} {c : (K × List K × List K × ℕ) × Option K × List R × List R × ℚ × Option R}

/-- What the chunk is demodulated with stands where the chain stands. -/
theorem FMDemod.Simulates.prepare (planned : planDsp phasors design p sampleRate = some plan)
    (same : s.Simulates phasors centerFreq sampleRate p plan n c) :
    ∃ t, s.prepare phasors design centerFreq sampleRate (p.channelFreqHz - centerFreq) n = some t ∧ t.params = p ∧
      t.dspKey = some (keyOf p centerFreq sampleRate n) ∧ t.Tuned phasors plan (p.offset centerFreq sampleRate) n ∧
      c = (t.front phasors, t.back) := by
  obtain ⟨rfl, ⟨key, tuned, carried⟩ | ⟨key, fresh⟩⟩ := same
  · exact ⟨s, if_pos key, rfl, key, tuned, carried⟩
  · have advance : Int.fract ((s.params.channelFreqHz - centerFreq) * n / sampleRate) =
        Int.fract (s.params.offset centerFreq sampleRate * n) := by
      rw [FmParams.offset, div_mul_eq_mul_div]
    have built : s.prepare phasors design centerFreq sampleRate (s.params.channelFreqHz - centerFreq) n =
        some { s.rebuild phasors plan sampleRate (s.params.channelFreqHz - centerFreq) n with
          dspKey := some (keyOf s.params centerFreq sampleRate n) } := by
      rw [FMDemod.prepare, if_neg key, FMDemod.initDsp, planned, Option.map_some, Option.map_some]
    exact ⟨_, built, rfl, rfl, ⟨rfl, rfl, advance, SpectraOf.nil _, List.length_replicate⟩, fresh⟩

theorem FMDemod.Simulates.withError (same : s.Simulates phasors centerFreq sampleRate p plan n c) (error : Option FmError) :
    ({ s with error := error } : FMDemod R K).Simulates phasors centerFreq sampleRate p plan n c := by
  obtain ⟨params, ⟨key, tuned, carried⟩ | fresh⟩ := same
  · exact ⟨params, Or.inl ⟨key, ⟨tuned.built, tuned.cut, tuned.advance, tuned.spectra, tuned.hist⟩, carried⟩⟩
  · exact ⟨params, Or.inr fresh⟩

/-- Inside the band a chunk is demodulated by the state it is prepared with. -/
theorem FMDemod.demodChunk_inBand (phasors : Phasors R K) (design : FilterDesign R) (buf : List (ℤ × ℤ))
    (inBand : ¬ s.params.OutOfBand centerFreq sampleRate) : s.demodChunk phasors design buf centerFreq sampleRate =
      ((FMDemod.prepare phasors design { s with error := none } centerFreq sampleRate
        (s.params.channelFreqHz - centerFreq) buf.length).map fun t => t.demodulate phasors buf).getD
          ({ s with error := none }, .error .valueError) := by
  rw [FMDemod.demodChunk]
  simp only
  rw [if_neg (show ¬ (sampleRate : ℚ) / 2 < |s.params.channelFreqHz - centerFreq| + s.params.channelBwHz / 2 from inBand)]
  split
  · case h_1 refused => rw [refused]; rfl
  · case h_2 t ready => rw [ready]; rfl

/-- One chunk. -/
theorem FMDemod.Simulates.step (planned : planDsp phasors design p sampleRate = some plan)
    (inBand : ¬ p.OutOfBand centerFreq sampleRate) (finite : 1 + p.deemphasisTau * plan.intermediateRate ≠ 0)
    (ok : plan.FrontOk c.1 ∧ BackOk c.2) (same : s.Simulates phasors centerFreq sampleRate p plan n c)
    (whole : buf.length = n) :
    (FMDemod.process phasors design centerFreq sampleRate s buf).1.Simulates phasors centerFreq sampleRate p plan n
        (plan.chain phasors (p.offset centerFreq sampleRate)
          ((1 / (1 + p.deemphasisTau * plan.intermediateRate) : ℚ) : R) c buf).1 ∧
      (FMDemod.process phasors design centerFreq sampleRate s buf).2 =
        (plan.chain phasors (p.offset centerFreq sampleRate)
          ((1 / (1 + p.deemphasisTau * plan.intermediateRate) : ℚ) : R) c buf).2 := by
  obtain ⟨t, ready, params, key, tuned, rfl⟩ := (same.withError none).prepare planned
  obtain ⟨t', audio, audible, tuned', params', key', ran⟩ :=
    tuned.demodulate (planDsp_sound planned) ok.1 ok.2 (by rw [params, tuned.built]; exact finite) whole
  have alpha : t.alpha = ((1 / (1 + p.deemphasisTau * plan.intermediateRate) : ℚ) : R) := by
    rw [FMDemod.alpha, params, tuned.built]
  obtain rfl := whole
  obtain rfl := same.1
  rw [← alpha, ran, FMDemod.process, FMDemod.demodChunk_inBand phasors design buf inBand, ready,
    Option.map_some, Option.getD_some, audible]
  exact ⟨⟨params'.trans params, Or.inl ⟨key'.trans key, tuned', rfl⟩⟩, rfl⟩

/-- Chunk after chunk of one length, the demodulator is the chain. -/
theorem FMDemod.Simulates.run (planned : planDsp phasors design p sampleRate = some plan)
    (inBand : ¬ p.OutOfBand centerFreq sampleRate) (finite : 1 + p.deemphasisTau * plan.intermediateRate ≠ 0)
    (ok : plan.FrontOk c.1 ∧ BackOk c.2) (same : s.Simulates phasors centerFreq sampleRate p plan n c)
    {chunks : List (List (ℤ × ℤ))} (whole : ∀ chunk ∈ chunks, chunk.length = n) :
    (Chunked.run (FMDemod.process phasors design centerFreq sampleRate) s chunks).2 =
      (plan.chain phasors (p.offset centerFreq sampleRate)
        ((1 / (1 + p.deemphasisTau * plan.intermediateRate) : ℚ) : R) c chunks.flatten).2 := by
  have seamless := (planDsp_sound planned).chain phasors (p.offset centerFreq sampleRate)
    ((1 / (1 + p.deemphasisTau * plan.intermediateRate) : ℚ) : R)
  rw [← seamless.run_eq ok]
  refine run_simulates (fun s c => s.Simulates phasors centerFreq sampleRate p plan n c ∧ plan.FrontOk c.1 ∧ BackOk c.2)
    (fun s c chunk related whole => ?_) ⟨same, ok⟩ whole
  obtain ⟨next, out⟩ := related.1.step planned inBand finite related.2 whole
  exact ⟨⟨next, seamless.keeps related.2 chunk⟩, out⟩

/-- A tuning that no chunk gets audio from: out of band, refused by the filter design, or of no finite de-emphasis. -/
def FmParams.Mute (phasors : Phasors R K) (design : FilterDesign R) (centerFreq sampleRate : ℤ) (p : FmParams) : Prop :=
  p.OutOfBand centerFreq sampleRate ∨
    ∀ plan, planDsp phasors design p sampleRate = some plan → 1 + p.deemphasisTau * plan.intermediateRate = 0

/-- A state of this tuning, whether or not it was built. -/
def FMDemod.Fits (phasors : Phasors R K) (design : FilterDesign R) (centerFreq sampleRate : ℤ) (p : FmParams) (n : ℕ)
    (s : FMDemod R K) : Prop :=
  s.params = p ∧ (s.dspKey = some (keyOf p centerFreq sampleRate n) → planDsp phasors design p sampleRate = some s.plan)

/-- Without a finite de-emphasis a chunk raises, unless it brings no intermediate sample. -/
theorem FMDemod.demodulate_mute (phasors : Phasors R K) (s : FMDemod R K) (buf : List (ℤ × ℤ))
    (infinite : 1 + s.params.deemphasisTau * s.plan.intermediateRate = 0) :
    ∃ t, (s.demodulate phasors buf = (t, .ok (some [])) ∨ s.demodulate phasors buf = (t, .error .zeroDivisionError)) ∧
      t.params = s.params ∧ t.dspKey = s.dspKey ∧ t.plan = s.plan := by
  obtain ⟨tail, -, taken⟩ := s.toIntermediate_eq phasors buf
  generalize ((s.shift phasors buf).1.boxDecimate (s.shift phasors buf).2).2 = iq at taken
  rw [FMDemod.demodulate, taken]
  simp only
  split
  · exact ⟨_, Or.inl rfl, rfl, rfl, rfl⟩
  · exact ⟨_, Or.inr (if_pos infinite), rfl, rfl, rfl⟩

theorem FMDemod.Fits.prepare (fits : s.Fits phasors design centerFreq sampleRate p n) (deltaF : ℚ) :
    s.prepare phasors design centerFreq sampleRate deltaF n = none ∨
      ∃ t, s.prepare phasors design centerFreq sampleRate deltaF n = some t ∧ t.params = p ∧
        planDsp phasors design p sampleRate = some t.plan := by
  obtain ⟨rfl, built⟩ := fits
  by_cases key : s.dspKey = some (keyOf s.params centerFreq sampleRate n)
  · exact Or.inr ⟨s, if_pos key, rfl, built key⟩
  · rw [FMDemod.prepare, if_neg key, FMDemod.initDsp]
    cases planned : planDsp phasors design s.params sampleRate with
    | none => exact Or.inl rfl
    | some plan => exact Or.inr ⟨_, rfl, rfl, rfl⟩

theorem FMDemod.Fits.step (fits : s.Fits phasors design centerFreq sampleRate p n)
    (mute : p.Mute phasors design centerFreq sampleRate) (whole : buf.length = n) :
    (FMDemod.process phasors design centerFreq sampleRate s buf).1.Fits phasors design centerFreq sampleRate p n ∧
      (FMDemod.process phasors design centerFreq sampleRate s buf).2 = [] := by
  obtain ⟨rfl, built⟩ := fits
  obtain rfl := whole
  by_cases outOfBand : s.params.OutOfBand centerFreq sampleRate
  · have nothing : (s.demodChunk phasors design buf centerFreq sampleRate) = (_, .ok none) := if_pos outOfBand
    rw [FMDemod.process, nothing]
    exact ⟨⟨rfl, built⟩, rfl⟩
  · have chunk := FMDemod.demodChunk_inBand phasors design buf outOfBand
    have fits : ({ s with error := none } : FMDemod R K).Fits phasors design centerFreq sampleRate s.params buf.length :=
      ⟨rfl, built⟩
    rcases fits.prepare (s.params.channelFreqHz - centerFreq) with refused | ⟨t, ready, params, planned⟩
    · rw [FMDemod.process, chunk, refused]
      exact ⟨⟨rfl, built⟩, rfl⟩
    · have infinite : 1 + t.params.deemphasisTau * t.plan.intermediateRate = 0 := by
        rw [params]
        exact (mute.resolve_left outOfBand) _ planned
      obtain ⟨t', silent, params', -, plan'⟩ := t.demodulate_mute phasors buf infinite
      have kept : t'.Fits phasors design centerFreq sampleRate s.params buf.length :=
        ⟨params'.trans params, fun _ => by rw [plan', planned]⟩
      rw [FMDemod.process, chunk, ready, Option.map_some, Option.getD_some]
      rcases silent with silent | silent
      · rw [silent]
        exact ⟨kept, rfl⟩
      · rw [silent]
        exact ⟨kept, rfl⟩

theorem FMDemod.Fits.run (fits : s.Fits phasors design centerFreq sampleRate p n)
    (mute : p.Mute phasors design centerFreq sampleRate) {chunks : List (List (ℤ × ℤ))}
    (whole : ∀ chunk ∈ chunks, chunk.length = n) :
    (Chunked.run (FMDemod.process phasors design centerFreq sampleRate) s chunks).2 = [] := by
  induction chunks generalizing s with
  | nil => rfl
  | cons chunk chunks ih =>
    rw [List.forall_mem_cons] at whole
    obtain ⟨next, out⟩ := fits.step mute whole.1
    rw [Chunked.run, out, ih next whole.2, List.nil_append]

/-- What a run of whole chunks puts out, and one chunk too, is the output of one stage that knows of no chunks. -/
theorem FMDemod.audio_eq (phasors : Phasors R K) (design : FilterDesign R)
    (retuned : ∀ n, s.dspKey ≠ some (keyOf s.params centerFreq sampleRate n)) :
    ∃ whole : List (ℤ × ℤ) → List R, (∀ xs ys, xs <+: ys → whole xs <+: whole ys) ∧
      (∀ n iq, 0 < n → s.audioOf phasors design centerFreq sampleRate n iq = whole (iq.take (n * (iq.length / n)))) ∧
      ∀ iq, s.oneChunk phasors design centerFreq sampleRate iq = whole iq := by
  by_cases mute : s.params.Mute phasors design centerFreq sampleRate
  · have fits : ∀ n, s.Fits phasors design centerFreq sampleRate s.params n := fun n => ⟨rfl, fun key => absurd key (retuned n)⟩
    refine ⟨fun _ => [], fun _ _ _ => List.prefix_rfl, fun n iq positive => ?_, fun iq => ?_⟩
    · exact (fits n).run mute fun chunk member => length_of_mem_frames positive member
    · exact ((fits iq.length).step mute rfl).2
  · rw [FmParams.Mute, not_or] at mute
    obtain ⟨inBand, mute⟩ := mute
    push Not at mute
    obtain ⟨plan, planned, finite⟩ := mute
    have same : ∀ n, s.Simulates phasors centerFreq sampleRate s.params plan n (plan.start phasors) :=
      fun n => ⟨rfl, Or.inr ⟨retuned n, rfl⟩⟩
    have sound := planDsp_sound planned
    have seamless := sound.chain phasors (s.params.offset centerFreq sampleRate)
      ((1 / (1 + s.params.deemphasisTau * plan.intermediateRate) : ℚ) : R)
    refine ⟨fun iq => (plan.chain phasors (s.params.offset centerFreq sampleRate)
      ((1 / (1 + s.params.deemphasisTau * plan.intermediateRate) : ℚ) : R) (plan.start phasors) iq).2,
      fun xs ys head => seamless.output_prefix (sound.start phasors) head, fun n iq positive => ?_, fun iq => ?_⟩
    · rw [FMDemod.audioOf, (same n).run planned inBand finite (sound.start phasors)
        (fun chunk member => length_of_mem_frames positive member), frames_self_flatten positive]
    · exact ((same iq.length).step planned inBand finite (sound.start phasors) rfl).2

/-- However a stream is cut, its audio is that of one chunk: of the samples that the whole chunks hold, and of the
stream as far as it goes. So two cuts agree as far as both go. -/
theorem fmDemod_chunking (phasors : Phasors R K) (design : FilterDesign R) (s : FMDemod R K) (centerFreq sampleRate : ℤ)
    (retuned : ∀ n, s.dspKey ≠ some (keyOf s.params centerFreq sampleRate n)) (iq : List (ℤ × ℤ))
    {n₁ n₂ : ℕ} (positive₁ : 0 < n₁) (positive₂ : 0 < n₂) :
    (s.audioOf phasors design centerFreq sampleRate n₁ iq <+: s.audioOf phasors design centerFreq sampleRate n₂ iq ∨
        s.audioOf phasors design centerFreq sampleRate n₂ iq <+: s.audioOf phasors design centerFreq sampleRate n₁ iq) ∧
      s.audioOf phasors design centerFreq sampleRate n₁ iq =
        s.oneChunk phasors design centerFreq sampleRate (iq.take (n₁ * (iq.length / n₁))) ∧
      s.audioOf phasors design centerFreq sampleRate n₂ iq =
        s.oneChunk phasors design centerFreq sampleRate (iq.take (n₂ * (iq.length / n₂))) ∧
      s.audioOf phasors design centerFreq sampleRate n₁ iq <+: s.oneChunk phasors design centerFreq sampleRate iq ∧
      s.audioOf phasors design centerFreq sampleRate n₂ iq <+: s.oneChunk phasors design centerFreq sampleRate iq := by
  obtain ⟨whole, monotone, chunked, one⟩ := FMDemod.audio_eq phasors design retuned
  have held : ∀ n, 0 < n → s.audioOf phasors design centerFreq sampleRate n iq <+: whole iq := by
    intro n positive
    rw [chunked n iq positive]
    exact monotone _ _ (List.take_prefix _ iq)
  rw [one, one, one]
  exact ⟨List.prefix_or_prefix_of_prefix (held n₁ positive₁) (held n₂ positive₂), chunked n₁ iq positive₁,
    chunked n₂ iq positive₂, held n₁ positive₁, held n₂ positive₂⟩

end Cuts

section Complex

noncomputable def complexTurn (phase : ℚ) : ℂ := Complex.exp ((phase : ℂ) * ((Real.pi + Real.pi : ℝ) * Complex.I))

theorem complexTurn_add (a b : ℚ) : complexTurn (a + b) = complexTurn a * complexTurn b := by
  rw [complexTurn, complexTurn, complexTurn, ← Complex.exp_add, Rat.cast_add, add_mul]

theorem complexTurn_one : complexTurn 1 = 1 := by
  rw [complexTurn, Rat.cast_one, one_mul, ← two_mul, Complex.ofReal_mul, Complex.ofReal_ofNat]
  exact Complex.exp_two_pi_mul_I

/-- The phasors of the complex numbers. -/
noncomputable def complexPhasors : Phasors ℝ ℂ where
  ofReal := Complex.ofReal
  unitI := Complex.I
  conj := starRingEnd ℂ
  angle z := z.arg / (Real.pi + Real.pi)
  turn := complexTurn
  turn_add := complexTurn_add
  turn_one := complexTurn_one

/-- `firwin` with its Hamming window: the ideal low-pass, windowed, and scaled to one at zero. -/
noncomputable def hammingTaps (n : ℕ) (cutoff rate : ℚ) : List ℝ :=
  let right : ℝ := ((cutoff / (rate / 2) : ℚ) : ℝ)
  let ideal := (List.range n).map fun k : ℕ =>
    let m : ℝ := ((k - (n - 1) / 2 : ℚ) : ℝ)
    right * Real.sinc (Real.pi * right * m) *
      (((27 / 50 : ℚ) : ℝ) - ((23 / 50 : ℚ) : ℝ) * Real.cos ((Real.pi + Real.pi) * k / (n - 1)))
  ideal.map (· / ideal.sum)

theorem hammingTaps_length (n : ℕ) (cutoff rate : ℚ) : (hammingTaps n cutoff rate).length = n := by
  rw [hammingTaps, List.length_map, List.length_map, List.length_range]

/-- `firwin` of the default window; the Kaiser window is left out. -/
noncomputable def hammingFirwin (n : ℕ) (cutoff : ℚ) (beta : Option ℚ) (rate : ℚ) : Option (List ℝ) :=
  if beta.isNone ∧ 0 < cutoff ∧ cutoff < rate / 2 then some (hammingTaps n cutoff rate) else none

section Firwin

variable {n : ℕ} {cutoff rate : ℚ} {beta : Option ℚ} {taps : List ℝ}

theorem hammingFirwin_length (designed : hammingFirwin n cutoff beta rate = some taps) : taps.length = n := by
  cases (Option.ite_none_right_eq_some.mp designed).2
  exact hammingTaps_length ..

theorem hammingFirwin_cutoff (designed : hammingFirwin n cutoff beta rate = some taps) :
    0 < cutoff ∧ cutoff < rate / 2 := (Option.ite_none_right_eq_some.mp designed).1.2

end Firwin

/-- The design of a tuning that needs no channel filter. -/
noncomputable def hammingDesign : FilterDesign ℝ where
  kaiserord _ _ := (0, 0)
  firwin := hammingFirwin
  firwin_length := hammingFirwin_length
  firwin_cutoff := hammingFirwin_cutoff

/-- Five samples at 250 kHz, in chunks of two and of three. -/
theorem fmDemod_chunking_five :
    let s : FMDemod ℝ ℂ := FMDemod.new {}
    let iq : List (ℤ × ℤ) := [(1, 0), (0, 1), (-1, 0), (0, -1), (1, 0)]
    let audio := fun n => s.audioOf complexPhasors hammingDesign 101900000 250000 n iq
    let one := s.oneChunk complexPhasors hammingDesign 101900000 250000
    (audio 2 <+: audio 3 ∨ audio 3 <+: audio 2) ∧ audio 2 = one (iq.take 4) ∧ audio 3 = one (iq.take 3) ∧
      audio 2 <+: one iq ∧ audio 3 <+: one iq :=
  fmDemod_chunking complexPhasors hammingDesign (FMDemod.new {}) 101900000 250000 (fun _ same => by cases same) _
    (by decide) (by decide)

end Complex

end RFObserver
