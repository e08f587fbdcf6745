import RFObserver.Pipeline.RecordingTracks

namespace RFObserver
open LossyStream

variable {α : Type*}

open Recording

def streamOf (ks : List (Received α)) : List α := ks.flatMap Received.data

/-- The losses of the chunks from stream position `n` on. -/
def gapsOf : Nat → List (Received α) → Gaps
  | _, [] => []
  | n, k :: ks => (k.gaps.map fun g => (n + g.1, g.2)) ++ gapsOf (n + k.data.length) ks

theorem streamOf_append (a b : List (Received α)) : streamOf (a ++ b) = streamOf a ++ streamOf b :=
  List.flatMap_append

theorem gapsOf_append (n : Nat) (a b : List (Received α)) :
    gapsOf n (a ++ b) = gapsOf n a ++ gapsOf (n + (streamOf a).length) b := by
  induction a generalizing n with
  | nil => rfl
  | cons k a ih =>
    have length : (streamOf (k :: a)).length = k.data.length + (streamOf a).length := by simp [streamOf]
    rw [List.cons_append, gapsOf, gapsOf, ih, List.append_assoc, length, Nat.add_assoc]

theorem gapsOf_bounds {n : Nat} {ks : List (Received α)} {g : Nat × Nat} (member : g ∈ gapsOf n ks) :
    n ≤ g.1 ∧ g.1 < n + (streamOf ks).length := by
  induction ks generalizing n with
  | nil => cases member
  | cons k ks ih =>
    have length : (streamOf (k :: ks)).length = k.data.length + (streamOf ks).length := by simp [streamOf]
    rcases List.mem_append.mp member with own | later
    · obtain ⟨x, there, rfl⟩ := List.mem_map.mp own
      have := k.inside x there
      simp only
      omega
    · have := ih later
      omega

/-- The chunk last written to the ring, where the log and the stream have it. -/
theorem last_stands (ks : List (Received α)) (k : Received α) (later : List (Received α)) :
    Stands (gapsOf 0 (ks ++ [k] ++ later)) (streamOf (ks ++ [k])) ⟨k.data, k.gaps, (streamOf ks).length⟩ where
  here := by simp [streamOf]
  within := by simp [streamOf]
  own := by
    refine ⟨fun p _ => ?_, k.inside⟩
    have before : lostWhere (fun j => ((streamOf ks).length ≤ j ∧ j < (streamOf ks).length + k.data.length) ∧ p j)
        (gapsOf 0 ks) = 0 :=
      lostWhere_eq_zero fun g member => by have := gapsOf_bounds member; omega
    have after : lostWhere (fun j => ((streamOf ks).length ≤ j ∧ j < (streamOf ks).length + k.data.length) ∧ p j)
        (gapsOf (0 + (streamOf (ks ++ [k])).length) later) = 0 :=
      lostWhere_eq_zero fun g member => by
        have := gapsOf_bounds member
        simp only [streamOf_append, List.length_append] at this
        simp only [streamOf, List.flatMap_cons, List.flatMap_nil, List.append_nil] at this
        simp only [streamOf]
        omega
    rw [gapsOf_append, gapsOf_append, lostWhere_append, lostWhere_append, before, after, gapsOf, gapsOf,
      List.append_nil, lostWhere_map, Nat.zero_add, Nat.zero_add, Nat.add_zero]
    exact lostWhere_congr fun g member => by have := k.inside g member; simp; omega

namespace Capture
variable {ring : CircularBuffer α} {ks : List (Received α)} {p : Option (Received α)} {c : Capture α}

/-- What the threads agree on between any two steps: the ring holds the
chunks written so far, the log their losses and those of the chunk in hand. -/
structure Agreed (ks : List (Received α)) (p : Option (Received α)) (c : Capture α) : Prop where
  ring : c.ring.Holds (streamOf ks)
  log : c.streamGaps = gapsOf 0 (ks ++ p.toList)
  idle : c.receiver = .ready → p = none
  logged : ∀ k chunkStart, c.receiver = .logged k chunkStart → p = some k ∧ chunkStart = (streamOf ks).length
  written : ∀ k chunkStart, c.receiver = .written k chunkStart →
    p = none ∧ ∃ before, ks = before ++ [k] ∧ chunkStart = (streamOf before).length
  read : ∀ preData preEnd, c.starting = .read preData preEnd → preData.length ≤ preEnd ∧
    preEnd ≤ (streamOf ks).length ∧ ((streamOf ks).drop (preEnd - preData.length)).take preData.length = preData
  placed : ∀ r, c.starting = .placed r → ∃ pos, Tracks c.streamGaps (streamOf ks) r pos
  recorded : ∀ r, c.recording = some r → ∃ pos, Tracks c.streamGaps (streamOf ks) r pos

/-- A read of the ring's tail is the end of the stream so far. -/
theorem tail_reads {s : List α} {ring : CircularBuffer α} (holds : ring.Holds s) (pre : Nat) {preData : List α}
    {preEnd : Nat} (read : ring.readTailWithPosition pre = (preData, preEnd)) :
    preData.length ≤ preEnd ∧ preEnd ≤ s.length ∧ (s.drop (preEnd - preData.length)).take preData.length = preData := by
  rw [holds.read_tail] at read
  obtain ⟨rfl, rfl⟩ := Prod.mk.inj read
  rw [List.length_drop]
  refine ⟨Nat.sub_le .., le_rfl, ?_⟩
  rw [Nat.sub_sub_self (by omega)]
  exact List.take_of_length_le (by rw [List.length_drop]; omega)

theorem grown {s : List α} {later truth : Gaps} {P : Recording α → Prop} (more : List α)
    (tracked : ∀ r, P r → ∃ pos, Tracks truth s r pos) (beyond : ∀ g ∈ later, s.length ≤ g.1) (r : Recording α)
    (here : P r) : ∃ pos, Tracks (truth ++ later) (s ++ more) r pos := by
  obtain ⟨pos, tracks⟩ := tracked r here
  exact ⟨pos, tracks.grow beyond⟩

theorem Agreed.log_chunk (agreed : Agreed ks none c) (k : Received α)
    (room : (gapsOf 0 (ks ++ [k])).length ≤ streamGapLogLen) :
    Agreed ks (some k) { c with
      streamGaps := logGaps c.streamGaps (k.gaps.map fun g => (c.ring.totalWritten + g.1, g.2))
      receiver := .logged k c.ring.totalWritten } := by
  have total := agreed.ring.total
  have beyond : ∀ g ∈ k.gaps.map fun g => (c.ring.totalWritten + g.1, g.2), (streamOf ks).length ≤ g.1 := by
    intro g member
    obtain ⟨x, -, rfl⟩ := List.mem_map.mp member
    simp only
    omega
  have appended : c.streamGaps ++ k.gaps.map (fun g => (c.ring.totalWritten + g.1, g.2)) = gapsOf 0 (ks ++ [k]) := by
    simp only [agreed.log, Option.toList_none, List.append_nil]
    rw [gapsOf_append, gapsOf, gapsOf, List.append_nil, total, Nat.zero_add]
  have kept : logGaps c.streamGaps (k.gaps.map fun g => (c.ring.totalWritten + g.1, g.2)) =
      c.streamGaps ++ k.gaps.map fun g => (c.ring.totalWritten + g.1, g.2) := by
    rw [logGaps, appended, Nat.sub_eq_zero_of_le room, List.drop_zero]
  rw [kept]
  refine ⟨agreed.ring, appended, nofun, ?_, nofun, agreed.read, ?_, ?_⟩
  · intro k' chunkStart same
    obtain ⟨rfl, rfl⟩ := ReceiverPhase.logged.inj same
    exact ⟨rfl, total⟩
  · intro r placed
    have := grown [] agreed.placed beyond r placed
    rwa [List.append_nil] at this
  · intro r recorded
    have := grown [] agreed.recorded beyond r recorded
    rwa [List.append_nil] at this

theorem Agreed.ring_write {k : Received α} {chunkStart : Nat} (agreed : Agreed ks (some k) c)
    (logged : c.receiver = .logged k chunkStart) :
    Agreed (ks ++ [k]) none { c with ring := c.ring.write k.data, receiver := .written k chunkStart } := by
  have stream : streamOf (ks ++ [k]) = streamOf ks ++ k.data := by simp [streamOf]
  have start := (agreed.logged k chunkStart logged).2
  have unlogged : ∀ g ∈ ([] : Gaps), (streamOf ks).length ≤ g.1 := nofun
  refine ⟨stream ▸ agreed.ring.write, ?_, nofun, nofun, ?_, ?_, ?_, ?_⟩
  · simp only [agreed.log, Option.toList_none, List.append_nil, Option.toList_some]
  · intro k' start' same
    obtain ⟨rfl, rfl⟩ := ReceiverPhase.written.inj same
    exact ⟨rfl, ks, rfl, start⟩
  · intro preData preEnd read
    obtain ⟨shorter, within, here⟩ := agreed.read preData preEnd read
    refine ⟨shorter, by rw [stream, List.length_append]; omega, ?_⟩
    rw [stream, List.drop_append_of_le_length (by omega), List.take_append_of_le_length, here]
    rw [List.length_drop]
    omega
  · intro r placed
    have := grown k.data agreed.placed unlogged r placed
    rwa [List.append_nil, ← stream] at this
  · intro r recorded
    have := grown k.data agreed.recorded unlogged r recorded
    rwa [List.append_nil, ← stream] at this

theorem Agreed.record_chunk {k : Received α} {chunkStart : Nat} {r : Recording α} (full : Bool)
    (agreed : Agreed ks none c) (written : c.receiver = .written k chunkStart) (active : c.recording = some r) :
    Agreed ks none { c with
      receiver := .ready
      recording := some (r.writeRecordingChunk c.streamGaps 0 full ⟨k.data, k.gaps, chunkStart⟩) } := by
  obtain ⟨-, before, rfl, rfl⟩ := agreed.written k chunkStart written
  refine ⟨agreed.ring, agreed.log, fun _ => rfl, nofun, nofun, agreed.read, agreed.placed, ?_⟩
  intro r' same
  obtain rfl := Option.some.inj same
  obtain ⟨pos, tracks⟩ := agreed.recorded r active
  have stands : Stands c.streamGaps (streamOf (before ++ [k])) ⟨k.data, k.gaps, (streamOf before).length⟩ :=
    agreed.log ▸ last_stands before k []
  exact tracks.writeRecordingChunk full stands

/-- What the threads agree on holds over every interleaving whose losses fit
into the gap log. -/
theorem Run.agreed (empty : ring.Holds []) (run : Run ring ks p c)
    (fits : (gapsOf 0 (ks ++ p.toList)).length ≤ streamGapLogLen) : Agreed ks p c := by
  induction run with
  | start => exact ⟨empty, rfl, fun _ => rfl, nofun, nofun, nofun, nofun, nofun⟩
  | @log ks c data lastGaps run ready ih =>
    have earlier : (gapsOf 0 (ks ++ [])).length ≤ streamGapLogLen := by
      rw [Option.toList_some, gapsOf_append, List.length_append] at fits
      rw [List.append_nil]
      omega
    exact (ih earlier).log_chunk (receive data lastGaps) fits
  | ringWrite run logged ih =>
    rw [Option.toList_none, List.append_nil] at fits
    exact (ih fits).ring_write logged
  | record full run written active ih => exact (ih fits).record_chunk full written active
  | pass run written inactive unstarted ih =>
    replace ih := ih fits
    exact ⟨ih.ring, ih.log, fun _ => (ih.written _ _ written).1, nofun, nofun, ih.read, ih.placed, ih.recorded⟩
  | fire pre ram run written inactive unstarted ih =>
    replace ih := ih fits
    refine ⟨ih.ring, ih.log, fun _ => rfl, nofun, nofun, ih.read, ih.placed, fun r same => ?_⟩
    obtain rfl := Option.some.inj same
    obtain ⟨shorter, within, here⟩ := tail_reads ih.ring pre rfl
    exact begin_tracks ram shorter within here
  | manualRead pre run inactive unstarted ih =>
    replace ih := ih fits
    refine ⟨ih.ring, ih.log, ih.idle, ih.logged, ih.written, fun preData preEnd same => ?_, nofun, ih.recorded⟩
    obtain ⟨rfl, rfl⟩ := StartPhase.read.inj same
    exact tail_reads ih.ring pre rfl
  | manualPlace ram run read ih =>
    replace ih := ih fits
    refine ⟨ih.ring, ih.log, ih.idle, ih.logged, ih.written, nofun, fun r same => ?_, ih.recorded⟩
    obtain rfl := StartPhase.placed.inj same
    obtain ⟨shorter, within, here⟩ := ih.read _ _ read
    exact begin_tracks ram shorter within here
  | manualFlip run placed ih =>
    replace ih := ih fits
    refine ⟨ih.ring, ih.log, ih.idle, ih.logged, ih.written, nofun, nofun, fun r same => ?_⟩
    obtain rfl := Option.some.inj same
    exact ih.placed _ placed
  | stop run active ih =>
    replace ih := ih fits
    exact ⟨ih.ring, ih.log, ih.idle, ih.logged, ih.written, ih.read, ih.placed, nofun⟩

/-- In every interleaving the file is a strictly rising choice of stream
samples, and up to every file index the gaps count exactly the time lost. -/
theorem Run.gap_accounting (empty : ring.Holds []) (run : Run ring ks p c)
    (fits : (gapsOf 0 (ks ++ p.toList)).length ≤ streamGapLogLen) {r : Recording α}
    (active : c.recording = some r) (complete : r.gapsTruncated = false) :
    ∃ pos : List Nat, pos.Pairwise (· < ·) ∧ (pos.map fun q => (streamOf ks)[q]?) = r.file.map some ∧
      (∀ p0, pos.head? = some p0 → ∀ i q, pos[i]? = some q →
        timeOf (gapsOf 0 ks) q = timeOf (gapsOf 0 ks) p0 + i + lostWhere (· ≤ i) r.gaps) ∧
      r.lost = (r.gaps.map Prod.snd).sum := by
  have agreed := run.agreed empty fits
  obtain ⟨pos, -, n, accounts, -⟩ := agreed.recorded r active
  -- A chunk that is only logged lies after every sample of the file.
  have logged : ∀ q ∈ pos, timeOf c.streamGaps q = timeOf (gapsOf 0 ks) q := by
    intro q member
    rw [agreed.log, gapsOf_append]
    refine timeOf_append (n := (streamOf ks).length) (fun g inside => ?_) ?_
    · have := gapsOf_bounds inside
      omega
    · exact (accounts.below q member).trans_le accounts.within
  refine ⟨pos, accounts.rising, accounts.held, fun p0 head i q here => ?_, ?_⟩
  · rw [← logged q (List.mem_of_getElem? here), ← logged p0 (List.mem_of_mem_head? head)]
    exact accounts.exact complete p0 head i q here
  · rw [accounts.lost complete, lostWhere_all]

theorem Run.gap_accounting_manual :
    ∃ r : Recording ℤ, r.file = [1, 2, 3, 4, 5] ∧ r.gaps = [(1, 2), (3, 3)] ∧ r.lost = (r.gaps.map Prod.snd).sum := by
  let ring := CircularBuffer.create (α := ℤ) 4 (by decide)
  have idle : Run ring [] none (create ring) := .start
  have first := ((idle.log [1, 2, 3] [(1, 2)] rfl).ringWrite rfl).pass rfl rfl rfl
  -- The start reads the ring while the second chunk is logged and not written yet.
  have second := (((first.log [4, 5] [(0, 3)] rfl).manualRead 3 rfl rfl).ringWrite rfl).manualPlace none rfl
  have run := (second.manualFlip rfl).record false rfl rfl
  obtain ⟨-, -, -, -, lost⟩ := run.gap_accounting (CircularBuffer.create_holds (by decide)) (by decide +kernel) rfl
    (by decide +kernel)
  exact ⟨_, by decide +kernel, by decide +kernel, lost⟩

end Capture
end RFObserver
