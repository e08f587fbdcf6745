import RFObserver.Capture.Receiver
import RFObserver.Capture.RtlSdrReceiver

namespace RFObserver

open LossyStream RtlSdrReceiver

namespace Receiver

variable {α : Type*}

instance decidablePromised (s : Receiver α) : ∀ a, Decidable (s.Promised a)
  | .recv r =>
    have : Decidable (∀ e timed, s.last = some (e, timed) → e ≤ r.tick ∧ (e < r.tick → timed = true ∧ r.hasTimeSpec = true)) :=
      match s.last with
      | none => isTrue (by simp)
      | some (e, timed) =>
        decidable_of_iff (e ≤ r.tick ∧ (e < r.tick → timed = true ∧ r.hasTimeSpec = true)) (by
          constructor
          · rintro meets e' timed' ⟨⟩
            exact meets
          · exact fun meets => meets e timed rfl)
    inferInstanceAs (Decidable (_ ∧ (_ → _ → _)))
  | .startStreaming | .stopStreaming | .recvChunk _ | .returns => isTrue trivial

end Receiver

instance RtlSdrReceiver.decidablePromised (s : RtlSdrReceiver) : ∀ a, Decidable (s.Promised a)
  | .onBlock length _ => inferInstanceAs (Decidable (2 ∣ length))
  | .startStreaming | .stopStreaming | .recvChunk _ | .turn | .timeout | .returns => isTrue trivial

instance RtlSdrReceiver.decidableCovered (s : RtlSdrReceiver) : ∀ a, Decidable (s.Covered a)
  | .timeout => inferInstanceAs (Decidable (s.bare = false))
  | .startStreaming | .stopStreaming | .onBlock _ _ | .recvChunk _ | .turn | .returns => isTrue trivial

variable {α : Type*}

/-- Both receivers account for every lost sample: the USRP in every run, the
RTL-SDR when no chunk is cut short right after an empty block with a loss before it. -/
theorem Receivers.account_for_losses (device : Nat → α) (streamRate : ℚ) (dongle : Nat → UInt8) (bandwidthHz : ℚ) :
    (∀ s, Runs.Reach (fun s => Receiver.step s device) (.create streamRate) Receiver.Promised s →
      AccountsForLosses device s.first s.log) ∧
    ∀ s, Runs.Reach (fun s => RtlSdrReceiver.step s dongle) (.create bandwidthHz)
        (fun s a => s.Promised a ∧ s.Covered a) s →
      AccountsForLosses (RtlSdrReceiver.sampleOf dongle) 0 s.log :=
  ⟨fun _ reach => Receiver.Reach.accounts reach, fun _ reach => RtlSdrReceiver.Reach.accounts reach⟩

/-- Overflows inside a chunk and between two chunks, and a block dropped by a full queue. -/
theorem Receivers.account_for_losses_overflow :
    (∃ s : Receiver Nat, s.log.chunks.map RecvChunk.gaps = [[(2, 3), (3, 2)], [(0, 10)]] ∧
      AccountsForLosses id s.first s.log) ∧
    ∃ s : RtlSdrReceiver, s.log.chunks.map RecvChunk.gaps = [[], [(61, 1)]] ∧
      AccountsForLosses (RtlSdrReceiver.sampleOf fun _ => 0) 0 s.log := by
  obtain ⟨usrp, rtl⟩ := Receivers.account_for_losses (α := Nat) id 1 (fun _ => 0) 2400000
  have goes : (Runs.follow (fun s => Receiver.step s id) (.create 1) [.startStreaming, .recvChunk 5,
      .recv ⟨.none, 2, true, 100⟩, .recv ⟨.overflow, 0, true, 0⟩, .recv ⟨.none, 1, true, 105⟩,
      .recv ⟨.none, 2, true, 108⟩, .returns, .recvChunk 3, .recv ⟨.overflow, 3, true, 120⟩, .returns]).map
        (fun s => s.log.chunks.map RecvChunk.gaps) = some [[(2, 3), (3, 2)], [(0, 10)]] := by decide +kernel
  have dropped : (Runs.follow (fun s => RtlSdrReceiver.step s fun _ => 0) (.create 2400000)
      ([Act.startStreaming] ++ List.replicate 65 (Act.onBlock 2 0) ++ [Act.recvChunk 3, .turn, .onBlock 4 0, .turn, .turn,
        .returns, .recvChunk 62] ++ List.replicate 62 Act.turn ++ [Act.returns])).map
        (fun s => s.log.chunks.map RecvChunk.gaps) = some [[], [(61, 1)]] := by decide +kernel
  obtain ⟨s, taken, gaps⟩ := Option.map_eq_some_iff.mp goes
  obtain ⟨t, got, lost⟩ := Option.map_eq_some_iff.mp dropped
  exact ⟨⟨s, gaps, usrp s (Runs.Reach.start.follow (by decide +kernel) taken)⟩,
    t, lost, rtl t (Runs.Reach.start.follow (by decide +kernel) got)⟩

/-- An empty block behind a dropped one, and no block after it: the gap is at
the end of the short chunk. -/
theorem RtlSdrReceiver.account_for_losses_fails :
    ¬ ∀ s, Runs.Reach (fun s => RtlSdrReceiver.step s fun _ => 0) (.create 2400000) RtlSdrReceiver.Promised s →
      AccountsForLosses (RtlSdrReceiver.sampleOf fun _ => 0) 0 s.log := by
  intro claim
  have goes : (Runs.follow (fun s => RtlSdrReceiver.step s fun _ => 0) (.create 2400000)
      ([Act.startStreaming] ++ List.replicate 65 (Act.onBlock 2 0) ++ [Act.recvChunk 100, .turn, .onBlock 0 0] ++
        List.replicate 64 Act.turn ++ [Act.timeout])).map
        (fun s => s.log.chunks.map fun c => (c.samples.length, c.gaps)) = some [(64, [(64, 1)])] := by decide +kernel
  obtain ⟨s, taken, short⟩ := Option.map_eq_some_iff.mp goes
  have placed := (claim s (Runs.Reach.start.follow (by decide +kernel) taken)).placed
  have member : (64, [(64, 1)]) ∈ s.log.chunks.map fun c => (c.samples.length, c.gaps) := by simp [short]
  obtain ⟨c, inChunks, same⟩ := List.mem_map.mp member
  obtain ⟨length, gaps⟩ := Prod.mk.inj same
  have inside := (placed c (List.mem_append_right _ inChunks)).inside (64, 1) (by simp [gaps])
  omega

end RFObserver
