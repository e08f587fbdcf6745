import RFObserver.Schedules.CutterTimeline
import RFObserver.Schedules.Engine

namespace RFObserver
open LossyStream

variable {α : Type*}

/-- The time-samples a run placed on this chunk starts with, before the
chunk's own: zeros, and what the ring gives back. None when the run is not
due on it. -/
def ChunkCall.lead (k : ChunkCall α) (c : RunCutter) : Option (List (Option α)) :=
  let target := c.target k.captureTime
  let (before, inner) := splitGaps k.gaps
  if (k.samples.length + (inner.map Prod.snd).sum : Nat) ≤ target then none
  else if 0 ≤ target then some (List.replicate (place target.toNat inner k.samples.length).2 none)
  else if 0 ≤ target + before then some (List.replicate (-target).toNat none)
  else
    let p0 := k.chunkStart + target + before
    let (start, data) := RunCutter.readBack k.ring k.chunkStart p0
    some (List.replicate (start - p0).toNat none ++ ((data.getD []).map some ++ List.replicate before none))

namespace RunCutter

theorem readBack_emits (f : Feeding α) (data : Option (List α)) :
    Emits f (match data with
      | some d => iq f d
      | none => f) ((data.getD []).map some) := by
  cases data with
  | some d => exact iq_emits f d
  | none => exact ⟨rfl, rfl, rfl, by simp, by simp, id⟩

theorem Emits.moved {f g : Feeding α} {t : List (Option α)} (emits : Emits f g t) (next : Nat) :
    Emits f ({ g.1 with nextPos := next }, g.2) t :=
  ⟨emits.spec, emits.started, emits.late, emits.ops, emits.written, emits.full⟩

/-- The operations are those of a run, with its length and what it has
written so far, that takes `t`. -/
def Takes (c : RunCutter) (f : Feeding α) (t : List (Option α)) : Prop :=
  ∃ c' : RunCutter, c'.spec = c.spec ∧ c'.written = c.written ∧ c'.started = true ∧ Emits (c', []) f t

namespace Takes
variable {c : RunCutter} {f : Feeding α} {t : List (Option α)}

theorem spec (takes : Takes c f t) : f.1.spec = c.spec := by
  obtain ⟨c', spec, -, -, emits⟩ := takes
  exact emits.spec.trans spec

theorem started (takes : Takes c f t) : f.1.started = true := by
  obtain ⟨c', -, -, started, emits⟩ := takes
  exact emits.started.trans started

theorem ops (takes : Takes c f t) : timeSamples f.2 = t.take c.room := by
  obtain ⟨c', spec, written, -, emits⟩ := takes
  have room : c'.room = c.room := by rw [room, room, spec, written]
  rw [emits.ops, room]
  rfl

end Takes

theorem beginInRing_takes {c : RunCutter} (started : c.started = true) (samples : List α) (chunkStart : Nat) (p0 : ℤ)
    (before : Nat) (inner : Gaps) (ring : Option (CircularBuffer α)) (next : Nat) :
    let f := c.beginInRing samples chunkStart p0 before inner ring
    Takes c ({ f.1 with nextPos := next }, f.2)
      (List.replicate ((readBack ring chunkStart p0).1 - p0).toNat none ++
        ((((readBack ring chunkStart p0).2.getD []).map some) ++ List.replicate before none) ++
        splice 0 (inner.filter fun g => 0 < g.1) samples) := by
  have rest := fun f : Feeding α => (readBack_emits f (readBack ring chunkStart p0).2).trans
    ((zeros_emits _ before chunkStart true).trans (chunk_emits _ samples chunkStart 0 inner))
  simp only [← List.append_assoc] at rest ⊢
  unfold beginInRing
  by_cases late : ((readBack ring chunkStart p0).1 - p0).toNat = 0
  · simp only [late, ne_eq, not_true_eq_false, if_false, List.replicate_zero, List.nil_append]
    refine ⟨_, ?_, ?_, ?_, (rest _).moved next⟩
    · rfl
    · rfl
    · exact started
  · simp only [late, ne_eq, not_false_eq_true, if_true]
    have emits := (zeros_emits ({ c with
      streamStart := some (readBack ring chunkStart p0).1
      late := min ((readBack ring chunkStart p0).1 - p0).toNat c.spec.nSamples }, [])
      ((readBack ring chunkStart p0).1 - p0).toNat (readBack ring chunkStart p0).1 true).trans (rest _)
    simp only [← List.append_assoc] at emits
    refine ⟨_, ?_, ?_, ?_, emits.moved next⟩
    · rfl
    · rfl
    · exact started

/-- A run placed on a chunk takes its lead and then the chunk. -/
theorem begin_takes {c : RunCutter} {k : ChunkCall α} {lead : List (Option α)} (placed : k.lead c = some lead) :
    ∃ pos gaps, Takes c (c.begin k.samples k.chunkStart k.captureTime k.gaps k.ring)
      (lead ++ splice pos gaps k.samples) := by
  unfold ChunkCall.lead at placed
  unfold begin
  simp only at placed ⊢
  split_ifs at placed with later here loss
  · obtain rfl := Option.some.inj placed
    rw [if_neg later, if_pos here]
    refine ⟨_, _, _, ?_, ?_, ?_, ((zeros_emits (_, []) _ _ _).trans (chunk_emits _ _ _ _ _)).moved _⟩ <;> rfl
  · obtain rfl := Option.some.inj placed
    rw [if_neg later, if_neg here, if_pos loss]
    refine ⟨_, _, _, ?_, ?_, ?_, ((zeros_emits (_, []) _ _ _).trans (chunk_emits _ _ _ _ _)).moved _⟩ <;> rfl
  · obtain rfl := Option.some.inj placed
    rw [if_neg later, if_neg here, if_neg loss]
    obtain ⟨c', spec, written, started, emits⟩ := beginInRing_takes (c := { c with
      started := true
      firstTime := some (k.captureTime + c.target k.captureTime / c.spec.rateHz)
      errorNs := some (roundHalfEven ((c.target k.captureTime / c.spec.rateHz -
        ((c.spec.startMs : ℚ) / 1000 - k.captureTime)) * 1000000000)) }) rfl k.samples k.chunkStart
      (k.chunkStart + c.target k.captureTime + (splitGaps k.gaps).1) (splitGaps k.gaps).1 (splitGaps k.gaps).2 k.ring
      (k.chunkStart + k.samples.length)
    exact ⟨_, _, c', spec, written, started, emits⟩

theorem begin_nothing {c : RunCutter} {k : ChunkCall α} (waits : k.lead c = none) :
    c.begin k.samples k.chunkStart k.captureTime k.gaps k.ring = (c, []) := by
  unfold ChunkCall.lead at waits
  unfold begin
  simp only at waits ⊢
  split_ifs at waits with later
  rw [if_pos later]

/-- Between the chunks a run has seen lie zeros only. -/
theorem continueRun_takes {c : RunCutter} (started : c.started = true) (k : ChunkCall α) :
    ∃ zeros gaps, Takes c (c.continueRun k.samples k.chunkStart k.gaps)
      (List.replicate zeros none ++ splice 0 gaps k.samples) := by
  have rest := fun f : Feeding α => (zeros_emits f (splitGaps k.gaps).1 k.chunkStart true).trans
    (chunk_emits _ k.samples k.chunkStart 0 (splitGaps k.gaps).2)
  unfold continueRun
  by_cases skipped : c.nextPos < k.chunkStart
  · simp only [if_pos skipped]
    have emits := (zeros_emits (c, []) (k.chunkStart - c.nextPos) k.chunkStart false).trans (rest _)
    simp only [← List.append_assoc, List.replicate_append_replicate] at emits
    exact ⟨_, _, c, rfl, rfl, started, emits.moved _⟩
  · simp only [if_neg skipped]
    exact ⟨_, _, c, rfl, rfl, started, (rest (c, [])).moved _⟩

/-- A run keeps its spec, and is done only when it has started. -/
theorem feed_kept (c : RunCutter) (k : ChunkCall α) :
    let f := c.feed k.samples k.chunkStart k.captureTime k.gaps k.centerFreqHz k.ring
    f.1.spec = c.spec ∧ ((c.done = true → c.started = true) → f.1.done = true → f.1.started = true) := by
  unfold feed
  split_ifs with done started retuned
  · exact ⟨rfl, id⟩
  · exact ⟨by unfold endRun; split <;> rfl, fun _ _ => by unfold endRun; split <;> exact started⟩
  · obtain ⟨_, _, takes⟩ := continueRun_takes started k
    exact ⟨takes.spec, fun _ _ => takes.started⟩
  · cases leadEq : k.lead c with
    | none => rw [begin_nothing leadEq]; exact ⟨rfl, id⟩
    | some lead =>
      obtain ⟨_, _, takes⟩ := begin_takes leadEq
      exact ⟨takes.spec, fun _ _ => takes.started⟩

end RunCutter
end RFObserver
