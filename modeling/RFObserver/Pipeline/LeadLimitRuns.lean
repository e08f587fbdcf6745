import RFObserver.Pipeline.LeadLimit
import RFObserver.Processing.RollingBurstRuns

namespace RFObserver

namespace RollingBurstDetector

variable (s : RollingBurstDetector ℚ) (call : Feed ℚ)

/-- The counters of rows, and what they are measured against. -/
def clock : Nat × Nat × Nat × Nat × Nat :=
  (s.totalRowsWritten, s.rowsFilled, s.rowsSinceEval, s.windowRows, s.evalInterval)

theorem absorb_clock (x : Sighting ℚ) : (s.absorb x).clock = s.clock := by
  unfold absorb
  split <;> rfl

theorem evaluate_clock (bursts : List (DetectedBurst ℚ)) : (s.evaluate bursts).clock = s.clock := by
  refine sighted_induction (I := fun m => m.clock = s.clock) bursts rfl ?_
  intro m b _ same
  rw [absorb_clock, same]

theorem feed_clock :
    (s.feed call).clock = (s.totalRowsWritten + call.rows, min (s.rowsFilled + call.rows) s.windowRows,
      if (s.written call.rows).Ready then 0 else s.rowsSinceEval + call.rows, s.windowRows, s.evalInterval) := by
  by_cases ready : (s.written call.rows).Ready
  · have fed : s.feed call = (s.counted call).evaluate call.detected := if_pos ready
    rw [fed, evaluate_clock, if_pos ready]
    rfl
  · have fed : s.feed call = s.written call.rows := if_neg ready
    rw [fed, if_neg ready]
    rfl

/-- Only an evaluation completes bursts. -/
theorem feed_emissions (waits : ¬ (s.written call.rows).Ready) : (s.feed call).emissions = s.emissions := by
  have fed : s.feed call = s.written call.rows := if_neg waits
  rw [fed]
  rfl

/-- The window holds the newest rows, and the rows since the last evaluation
are fewer than the interval, unless the window is. -/
structure Paced : Prop where
  filled : s.rowsFilled = min s.totalRowsWritten s.windowRows
  since : s.rowsSinceEval ≤ s.totalRowsWritten
  within : s.rowsSinceEval ≤ s.evalInterval ∨ s.windowRows < s.evalInterval

variable {s call}

theorem Paced.feed (paced : s.Paced) : (s.feed call).Paced := by
  obtain ⟨filled, since, within⟩ := paced
  have clock := s.feed_clock call
  simp only [RollingBurstDetector.clock, Prod.mk.injEq] at clock
  obtain ⟨total, fills, resets, window, interval⟩ := clock
  by_cases ready : (s.written call.rows).Ready
  · rw [if_pos ready] at resets
    exact ⟨by omega, by omega, .inl (by omega)⟩
  · rw [if_neg ready] at resets
    have early : ¬ (s.evalInterval ≤ s.rowsSinceEval + call.rows ∧
      s.evalInterval ≤ min (s.rowsFilled + call.rows) s.windowRows) := ready
    exact ⟨by omega, by omega, by omega⟩

end RollingBurstDetector

namespace LosslessReplay

variable {α : Type*} {s s' : LosslessReplay α} {settings : ReplaySettings}

/-- The stream position up to which grids have been fed. -/
def fed (s : LosslessReplay α) : Nat := s.detector.totalRowsWritten * s.settings.sliceSamples

/-- The grids and chunks on their way follow the last one fed. -/
def Ahead (s : LosslessReplay α) : Prop :=
  ∃ n, s.grids ++ s.chunks = (List.range n).map (fun i => s.fed + i * s.settings.chunkSamples) ∧
    s.ring.totalWritten = s.fed + n * s.settings.chunkSamples

structure Kept (s : LosslessReplay α) : Prop where
  holds : s.ring.Holds s.stream
  capacity : s.ring.maxSamples = s.settings.capacity
  interval : s.detector.evalInterval = s.settings.burstEvalIntervalRows
  lead : (s.ring.totalWritten : ℤ) + (if s.cleared then s.settings.chunkSamples else 0) ≤
    s.burstDoneEnd + s.settings.leadLimit
  ahead : s.Ahead
  paced : s.detector.Paced
  evaluated : s.fed = s.evalEnd + s.detector.rowsSinceEval * s.settings.sliceSamples
  done : s.burstDoneEnd + (if s.waiting.isSome then s.settings.chunkSamples else 0) = s.fed
  fedEnd : ∀ gridEnd ∈ s.waiting, gridEnd = s.fed
  batch : s.batch ≠ [] →
    s.burstDoneEnd ≤ s.previousEnd + s.settings.burstEvalIntervalRows * s.settings.sliceSamples
  idle : s.waiting = none → s.batch = []
  placed : ∀ burst ∈ s.batch, ∀ start ∈ burst.startSample, ∀ stop ∈ burst.stopSample, 0 ≤ start ∧ start < stop

theorem limit_nonneg (s : ReplaySettings) : 0 ≤ s.leadLimit := by
  unfold ReplaySettings.leadLimit
  dsimp only
  split_ifs with clamped <;> omega

theorem create_kept [Zero α] (settings : ReplaySettings) : (create (α := α) settings).Kept where
  holds := CircularBuffer.create_holds _
  capacity := rfl
  interval := rfl
  lead := by
    have limit := limit_nonneg settings
    simpa [create, CircularBuffer.create] using limit
  ahead := ⟨0, rfl, by simp [create, CircularBuffer.create, fed, RollingBurstDetector.create]⟩
  paced := ⟨(Nat.zero_min _).symm, le_rfl, .inl (Nat.zero_le _)⟩
  evaluated := by simp [create, fed, RollingBurstDetector.create]
  done := by simp [create, fed, RollingBurstDetector.create]
  fedEnd := nofun
  batch := fun some => absurd rfl some
  idle := fun _ => rfl
  placed := nofun

theorem Kept.receives (kept : s.Kept) {data : List α} (cleared : s.cleared = true)
    (full : data.length = s.settings.chunkSamples) :
    Kept { s with
      ring := s.ring.write data
      cleared := false
      chunks := s.chunks ++ [s.ring.totalWritten]
      stream := s.stream ++ data } := by
  obtain ⟨holds, capacity, interval, lead, ⟨n, inOrder, total⟩, paced, evaluated, done, fedEnd, batch, idle, placed⟩ := kept
  refine ⟨holds.write, (s.ring.write_maxSamples data).trans capacity, interval, ?_, ⟨n + 1, ?_, ?_⟩, paced, evaluated,
    done, fedEnd, batch, idle, placed⟩
  · rw [if_pos cleared] at lead
    simp only [CircularBuffer.write_total, full, Bool.false_eq_true, if_false]
    omega
  · simp only [List.range_succ, List.map_append, List.map_singleton, ← List.append_assoc]
    rw [inOrder, total]
    rfl
  · rw [CircularBuffer.write_total, full, total, Nat.succ_mul]
    exact Nat.add_assoc _ _ _

/-- The first grid on its way is the next one to feed. -/
theorem Ahead.next {start : Nat} {rest : List Nat} (ahead : s.Ahead) (grids : s.grids = start :: rest) :
    start = s.fed ∧ ∃ n, rest ++ s.chunks =
        (List.range n).map (fun i => s.fed + s.settings.chunkSamples + i * s.settings.chunkSamples) ∧
      s.ring.totalWritten = s.fed + s.settings.chunkSamples + n * s.settings.chunkSamples := by
  obtain ⟨n, inOrder, total⟩ := ahead
  rw [grids] at inOrder
  cases n with
  | zero => cases inOrder
  | succ n =>
    rw [List.range_succ_eq_map, List.map_cons, List.cons_append] at inOrder
    obtain ⟨first, others⟩ := List.cons.inj inOrder
    refine ⟨by rw [first]; omega, n, ?_, ?_⟩
    · rw [others, List.map_map]
      refine List.map_congr_left fun i _ => ?_
      simp only [Function.comp_apply, Nat.succ_mul]
      omega
    · rw [total, Nat.succ_mul]
      omega

theorem slice_pos (s : ReplaySettings) : 0 < s.sliceSamples :=
  Nat.lt_of_lt_of_le (Nat.lt_of_lt_of_le Nat.two_pos s.bins) (Nat.le_add_right ..)

theorem toFingerprint_placed (s : LosslessReplay α) (e : BurstEmission ℚ) :
    ∀ start ∈ (s.toFingerprint e).startSample, ∀ stop ∈ (s.toFingerprint e).stopSample, 0 ≤ start ∧ start < stop := by
  have positive := slice_pos s.settings
  unfold toFingerprint
  dsimp only
  split
  · split_ifs with known
    · rintro start isStart stop isStop
      obtain rfl := Option.some.inj isStart
      obtain rfl := Option.some.inj isStop
      omega
    · exact nofun
  · exact nofun

theorem Kept.feed (kept : s.Kept) {start : Nat} {rest : List Nat} (detected : List (DetectedBurst ℚ))
    (waiting : s.waiting = none) (grids : s.grids = start :: rest) : (s.feed start rest detected).Kept := by
  obtain ⟨holds, capacity, interval, lead, ahead, paced, evaluated, done, fedEnd, batch, idle, placed⟩ := kept
  obtain ⟨first, n, inOrder, total⟩ := ahead.next grids
  have clock := s.detector.feed_clock ⟨s.settings.streamingChunkSlices, detected⟩
  simp only [RollingBurstDetector.clock, Prod.mk.injEq] at clock
  obtain ⟨rows, _, since, _, sameInterval⟩ := clock
  have fedAfter : (s.feed start rest detected).fed = s.fed + s.settings.chunkSamples := by
    simp only [fed, LosslessReplay.feed, ReplaySettings.chunkSamples]
    rw [rows, Nat.add_mul]
  rw [waiting] at done
  refine ⟨holds, capacity, sameInterval.trans interval, lead, ⟨n, ?_, ?_⟩, paced.feed, ?_, ?_, ?_, ?_, nofun, ?_⟩
  · rw [fedAfter]
    exact inOrder
  · rw [fedAfter]
    exact total
  · rw [fedAfter]
    simp only [LosslessReplay.feed, since]
    by_cases ready : (s.detector.written s.settings.streamingChunkSlices).Ready
    · simp only [ready, if_true, first, Nat.zero_mul]
      rfl
    · simp only [ready, if_false, Nat.add_mul]
      rw [evaluated, ← Nat.add_assoc]
      rfl
  · rw [fedAfter, ← done]
    rfl
  · rintro gridEnd same
    obtain rfl := Option.some.inj same
    rw [fedAfter, first]
    rfl
  · intro some
    by_cases ready : (s.detector.written s.settings.streamingChunkSlices).Ready
    · have since : s.detector.rowsSinceEval ≤ s.settings.burstEvalIntervalRows := by
        have room : s.detector.evalInterval ≤
          min (s.detector.rowsFilled + s.settings.streamingChunkSlices) s.detector.windowRows := ready.2
        have within := paced.within
        omega
      have rows := Nat.mul_le_mul_right s.settings.sliceSamples since
      simp only [LosslessReplay.feed, ready, if_true]
      have atFed : s.burstDoneEnd = s.fed := done
      omega
    · refine absurd ?_ some
      have none := s.detector.feed_emissions ⟨s.settings.streamingChunkSlices, detected⟩ ready
      simp only [LosslessReplay.feed]
      rw [none, List.drop_length, List.map_nil]
  · rintro burst member
    obtain ⟨e, _, rfl⟩ := List.mem_map.mp member
    exact toFingerprint_placed _ e

theorem Kept.step {act : Act α} (kept : s.Kept) (goes : s.step act = some s') : s'.Kept := by
  cases act with
  | waits =>
    obtain ⟨⟨_, room⟩, goes⟩ := Option.ite_none_right_eq_some.mp goes
    obtain rfl := Option.some.inj goes
    obtain ⟨holds, capacity, interval, lead, ahead, paced, evaluated, done, fedEnd, batch, idle, placed⟩ := kept
    refine ⟨holds, capacity, interval, ?_, ahead, paced, evaluated, done, fedEnd, batch, idle, placed⟩
    simp only [if_true]
    omega
  | receives data =>
    obtain ⟨⟨cleared, full⟩, goes⟩ := Option.ite_none_right_eq_some.mp goes
    obtain rfl := Option.some.inj goes
    exact kept.receives cleared full
  | psd =>
    simp only [LosslessReplay.step] at goes
    split at goes
    case h_1 => cases goes
    case h_2 start rest chunks =>
      obtain rfl := Option.some.inj goes
      obtain ⟨holds, capacity, interval, lead, ⟨n, inOrder, total⟩, paced, evaluated, done, fedEnd, batch, idle, placed⟩ := kept
      refine ⟨holds, capacity, interval, lead, ⟨n, ?_, total⟩, paced, evaluated, done, fedEnd, batch, idle, placed⟩
      rw [chunks] at inOrder
      rw [List.append_assoc]
      exact inOrder
  | feeds detected =>
    simp only [LosslessReplay.step] at goes
    split at goes
    case h_2 => cases goes
    case h_1 start rest waiting grids =>
      obtain rfl := Option.some.inj goes
      exact kept.feed detected waiting grids
  | publishes =>
    obtain ⟨gridEnd, waiting, rfl⟩ := Option.map_eq_some_iff.mp goes
    obtain ⟨holds, capacity, interval, lead, ahead, paced, evaluated, done, fedEnd, batch, idle, placed⟩ := kept
    have atEnd := fedEnd gridEnd waiting
    refine ⟨holds, capacity, interval, ?_, ahead, paced, evaluated, atEnd, nofun, fun some => absurd rfl some,
      fun _ => rfl, nofun⟩
    simp only
    omega

/-- A burst no longer than the maximum, whose last row is at most three rows
before the end of the previous evaluation. -/
def Covered (s : LosslessReplay α) (start stop : ℤ) : Prop :=
  ((stop - start : ℤ) : ℚ) ≤ s.settings.isolationMaxBurstSec * s.settings.bandwidth ∧
    (s.previousEnd : ℤ) ≤ stop + 3 * s.settings.sliceSamples

/-- What the stage reads of such a burst has not been overwritten, and it gets
all of it if the receiver is past its end. -/
def NeverOvertaken (s : LosslessReplay α) : Prop :=
  ∀ burst ∈ s.batch, ∀ start ∈ burst.startSample, ∀ stop ∈ burst.stopSample, s.Covered start stop →
    ∃ range ∈ burstReadRange burst s.settings.bandwidth s.settings.isolationMaxBurstSec,
      range.start = max 0 (start - s.settings.guard) ∧ range.stop = stop + s.settings.guard ∧
      (s.ring.bounds.1 : ℤ) ≤ range.start ∧
      s.ring.readRange range.start.toNat range.stop.toNat =
        if range.stop ≤ s.ring.totalWritten then
          some ((s.stream.drop range.start.toNat).take (range.stop - range.start).toNat)
        else none

theorem guard_nonneg (s : ReplaySettings) : 0 ≤ s.guard := by
  refine Int.floor_nonneg.mpr (mul_nonneg (by norm_num) ?_)
  exact_mod_cast Nat.zero_le s.bandwidth

theorem Kept.neverOvertaken (kept : s.Kept) (unclamped : s.settings.Unclamped) : s.NeverOvertaken := by
  rintro burst member start isStart stop isStop ⟨short, recent⟩
  obtain ⟨positive, nonempty⟩ := kept.placed burst member start isStart stop isStop
  have guard := guard_nonneg s.settings
  have within : stop - start ≤ s.settings.maxBurst := Int.le_floor.mpr short
  have limit : s.settings.leadLimit = s.settings.capacity - s.settings.reserve := if_neg (not_lt.mpr unclamped)
  have reserve : s.settings.reserve =
      s.settings.burstEvalIntervalRows * s.settings.sliceSamples + 3 * s.settings.sliceSamples +
        s.settings.maxBurst + 2 * s.settings.guard := by
    rw [ReplaySettings.reserve, add_mul]
  have lead := kept.lead
  have done := kept.batch (List.ne_nil_of_mem member)
  have chunk : (0 : ℤ) ≤ if s.cleared then s.settings.chunkSamples else 0 := by split_ifs <;> omega
  -- the ring's oldest sample is no later than the read's first
  have oldest : (s.ring.totalWritten : ℤ) - s.settings.capacity ≤ start - s.settings.guard := by
    have rows : (s.burstDoneEnd : ℤ) ≤
        s.previousEnd + s.settings.burstEvalIntervalRows * s.settings.sliceSamples := by exact_mod_cast done
    omega
  have range : burstReadRange burst s.settings.bandwidth s.settings.isolationMaxBurstSec =
      some ⟨max 0 (start - s.settings.guard), stop + s.settings.guard, false⟩ :=
    burstReadRange_of_le isStart isStop within
  have total := kept.holds.total
  have capacity := kept.capacity
  refine ⟨_, range, rfl, rfl, ?_, ?_⟩
  · simp only [CircularBuffer.bounds]
    omega
  · simp only
    rw [kept.holds.readRange]
    have same : (max 0 (start - s.settings.guard)).toNat < (stop + s.settings.guard).toNat ∧
        s.stream.length - min s.stream.length s.ring.maxSamples ≤ (max 0 (start - s.settings.guard)).toNat ∧
        (stop + s.settings.guard).toNat ≤ s.stream.length ↔
      stop + s.settings.guard ≤ s.ring.totalWritten := by omega
    have length : (stop + s.settings.guard).toNat - (max 0 (start - s.settings.guard)).toNat =
      (stop + s.settings.guard - max 0 (start - s.settings.guard)).toNat := by omega
    by_cases received : stop + s.settings.guard ≤ s.ring.totalWritten
    · rw [if_pos (same.mpr received), if_pos received, length]
    · rw [if_neg (mt same.mp received), if_neg received]

theorem step_settings {act : Act α} (goes : s.step act = some s') : s'.settings = s.settings := by
  cases act with
  | waits | receives =>
    obtain ⟨_, goes⟩ := Option.ite_none_right_eq_some.mp goes
    obtain rfl := Option.some.inj goes
    rfl
  | psd =>
    simp only [LosslessReplay.step] at goes
    split at goes
    case h_1 => cases goes
    case h_2 =>
      cases goes
      rfl
  | feeds =>
    simp only [LosslessReplay.step] at goes
    split at goes
    case h_2 => cases goes
    case h_1 =>
      cases goes
      rfl
  | publishes =>
    obtain ⟨gridEnd, _, rfl⟩ := Option.map_eq_some_iff.mp goes
    rfl

abbrev Reach [Zero α] (settings : ReplaySettings) : LosslessReplay α → Prop :=
  Runs.Reach step (create settings) fun _ _ => True

theorem Reach.kept [Zero α] (reach : Reach settings s) : s.Kept ∧ s.settings = settings := by
  refine Runs.Reach.invariant (I := fun s => s.Kept ∧ s.settings = settings) ?_ ?_ reach
  · exact ⟨create_kept settings, rfl⟩
  · exact fun _ _ _ holds _ goes => ⟨holds.1.step goes, (step_settings goes).trans holds.2⟩

/-- With an unclamped limit the receiver overtakes no such burst. -/
theorem Reach.never_overtaken [Zero α] (reach : Reach settings s) (unclamped : settings.Unclamped) :
    s.NeverOvertaken :=
  reach.kept.1.neverOvertaken (reach.kept.2 ▸ unclamped)

/-- Rows of 0.4 ms, five to the guard, in chunks of four. -/
def shortRows : ReplaySettings where
  bandwidth := 5000
  numFftBins := 2
  psdTimeResolutionMs := 1 / 5
  streamingChunkSlices := 4
  burstWindowRows := 8
  burstEvalIntervalRows := 4
  triggerPreSec := 0
  isolationLookbackSec := 7 / 500
  isolationMaxBurstSec := 1 / 250
  matchFreqTolHz := 1000
  bins := le_rfl

def secondToFourthRow : DetectedBurst ℚ := ⟨1, 4, 915000000, 1000, -50, 915000000, by norm_num⟩

def chunk (detected : List (DetectedBurst ℚ)) : List (Act ℤ) :=
  [.waits, .receives (List.replicate 8 1), .psd, .feeds detected]

/-- The burst still grows at the first evaluation, and is over at the second. -/
def burstEnds : List (Act ℤ) := chunk [secondToFourthRow] ++ [.publishes] ++ chunk [secondToFourthRow]

theorem Reach.never_overtaken_burstEnds :
    ∃ s : LosslessReplay ℤ, Reach shortRows s ∧ s.batch = [⟨0, some 2, some 8⟩] ∧ s.ring.bounds = (0, 24) ∧
      (s.ring.readRange 0 18).isSome = true ∧ s.NeverOvertaken := by
  have final : (Runs.follow step (create shortRows) (burstEnds ++ [.waits, .receives (List.replicate 8 1)])).map
      (fun s => (s.batch, s.ring.bounds, (s.ring.readRange 0 18).isSome)) =
      some ([⟨0, some 2, some 8⟩], (0, 24), true) := by decide +kernel
  obtain ⟨s, goes, ends⟩ := Option.map_eq_some_iff.mp final
  obtain ⟨batch, rest⟩ := Prod.mk.inj ends
  obtain ⟨bounds, whole⟩ := Prod.mk.inj rest
  have reach : Reach shortRows s := Runs.Reach.of_follow goes
  have unclamped : shortRows.Unclamped := by
    unfold ReplaySettings.Unclamped
    decide +kernel
  exact ⟨s, reach, batch, bounds, whole, Reach.never_overtaken reach unclamped⟩

/-- Every such burst's read range is in the ring. -/
def WholeInRing (s : LosslessReplay α) : Prop :=
  ∀ burst ∈ s.batch, ∀ start ∈ burst.startSample, ∀ stop ∈ burst.stopSample, s.Covered start stop →
    ∃ range ∈ burstReadRange burst s.settings.bandwidth s.settings.isolationMaxBurstSec,
      (s.ring.readRange range.start.toNat range.stop.toNat).isSome = true

/-- The receiver has not yet received the burst's guard. -/
theorem whole_in_ring_fails :
    shortRows.Unclamped ∧ ∃ s : LosslessReplay ℤ, Reach shortRows s ∧ s.batch = [⟨0, some 2, some 8⟩] ∧
      s.ring.bounds = (0, 16) ∧ ¬ s.WholeInRing := by
  constructor
  · unfold ReplaySettings.Unclamped
    decide +kernel
  have final : (Runs.follow step (create shortRows) burstEnds).map
      (fun s => (s.batch, s.ring.bounds, s.previousEnd, s.ring.readRange 0 18)) =
      some ([⟨0, some 2, some 8⟩], (0, 16), 8, none) := by decide +kernel
  obtain ⟨s, goes, ends⟩ := Option.map_eq_some_iff.mp final
  simp only [Prod.mk.injEq] at ends
  obtain ⟨batch, bounds, previousEnd, unread⟩ := ends
  have reach : Reach shortRows s := Runs.Reach.of_follow goes
  have settings := reach.kept.2
  refine ⟨s, reach, batch, bounds, fun whole => ?_⟩
  have covered : s.Covered 2 8 := by
    rw [Covered, settings, previousEnd]
    decide +kernel
  obtain ⟨range, isRange, read⟩ := whole _ (batch ▸ List.mem_singleton_self _) 2 rfl 8 rfl covered
  have known : burstReadRange ⟨0, some 2, some 8⟩ s.settings.bandwidth s.settings.isolationMaxBurstSec =
      some ⟨0, 18, false⟩ := by
    rw [settings]
    decide +kernel
  obtain rfl := Option.some.inj (isRange.symm.trans known)
  have none : s.ring.readRange (0 : ℤ).toNat (18 : ℤ).toNat = none := unread
  rw [none] at read
  cases read

end LosslessReplay

end RFObserver
