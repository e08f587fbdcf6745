import RFObserver.Pipeline.CaptureRuns
import RFObserver.Storage.SigmfExport

/-! Through the recorder and the export a sample keeps the time it was received at. -/

namespace RFObserver
open LossyStream

variable {α : Type*}

/-- In the order of the file. -/
def Ordered (gaps : Gaps) : Prop := gaps.Pairwise fun g h => g.1 ≤ h.1

instance Ordered.decidable : DecidablePred Ordered := fun gaps => inferInstanceAs (Decidable (gaps.Pairwise _))

theorem Ordered.shift {gaps : Gaps} (ordered : Ordered gaps) (n : Nat) : Ordered (gaps.map fun g => (n + g.1, g.2)) :=
  List.pairwise_map.mpr (ordered.imp fun le => Nat.add_le_add_left le n)

theorem Ordered.filter {gaps : Gaps} (ordered : Ordered gaps) (p : Nat × Nat → Bool) : Ordered (gaps.filter p) :=
  List.Pairwise.filter p ordered

theorem Ordered.back {gaps : Gaps} (ordered : Ordered gaps) (n : Nat) : Ordered (gaps.map fun g => (g.1 - n, g.2)) :=
  List.pairwise_map.mpr (ordered.imp fun le => Nat.sub_le_sub_right le n)

theorem gapsOf_ordered {n : Nat} {ks : List (Received α)} (ordered : ∀ k ∈ ks, Ordered k.gaps) : Ordered (gapsOf n ks) := by
  induction ks generalizing n with
  | nil => exact List.Pairwise.nil
  | cons k ks ih =>
    refine List.pairwise_append.mpr ⟨(ordered k List.mem_cons_self).shift n,
      ih fun other later => ordered other (List.mem_cons_of_mem _ later), fun g own h later => ?_⟩
    obtain ⟨x, there, rfl⟩ := List.mem_map.mp own
    have inside := k.inside x there
    have beyond := gapsOf_bounds later
    dsimp only
    omega

namespace Recording

variable {r r' : Recording α}

theorem addRecordingGap_before {index lost : Nat} {overflow : Bool} (before : ∀ g ∈ r.gaps, g.1 ≤ index) :
    ∀ g ∈ (r.addRecordingGap index lost overflow).gaps, g.1 ≤ index := by
  intro g member
  obtain old | ⟨h, new, -, same⟩ := (addRecordingGap_adds r index lost overflow).index g member
  · exact before g old
  · cases List.mem_singleton.mp new
    exact same.le

/-- A gap where the file ends comes after the others. -/
theorem addRecordingGap_ordered {index lost : Nat} {overflow : Bool} (ordered : Ordered r.gaps)
    (before : ∀ g ∈ r.gaps, g.1 ≤ index) : Ordered (r.addRecordingGap index lost overflow).gaps := by
  have appended : ∀ (gaps : Gaps) (lost : Nat), gaps.Sublist r.gaps → Ordered (gaps ++ [(index, lost)]) := by
    intro gaps lost part
    refine List.pairwise_append.mpr ⟨ordered.sublist part, List.pairwise_singleton .., fun g member h new => ?_⟩
    rw [List.mem_singleton.mp new]
    exact before g (part.subset member)
  unfold addRecordingGap
  split_ifs
  · exact ordered
  all_goals
    dsimp only
    split
    · split_ifs
      · exact appended _ _ (List.dropLast_sublist _)
      · exact appended _ _ (List.Sublist.refl _)
      · exact ordered
    · exact List.pairwise_singleton ..

theorem foldl_ordered {calls : Gaps} (ordered : Ordered r.gaps) (inOrder : Ordered calls)
    (after : ∀ g ∈ r.gaps, ∀ h ∈ calls, g.1 ≤ h.1) :
    Ordered (calls.foldl (fun r g => r.addRecordingGap g.1 g.2 true) r).gaps := by
  induction calls generalizing r with
  | nil => exact ordered
  | cons h calls ih =>
    obtain ⟨low, inOrder⟩ := List.pairwise_cons.mp inOrder
    have before : ∀ g ∈ r.gaps, g.1 ≤ h.1 := fun g member => after g member h List.mem_cons_self
    exact ih (addRecordingGap_ordered ordered before) inOrder fun g member later inside =>
      (addRecordingGap_before before g member).trans (low later inside)

theorem begin_ordered (ram : Option Nat) {log : Gaps} (ordered : Ordered log) (readRing ring : Nat) (preData : List α)
    (preEnd : Nat) : Ordered (begin ram log readRing ring preData preEnd).gaps := by
  unfold begin
  dsimp only
  split_ifs
  · exact List.Pairwise.nil
  all_goals
    refine foldl_ordered List.Pairwise.nil (((?_ : Ordered _).filter _).back _) (List.forall_mem_nil _)
    split_ifs
    · exact ordered
    · exact List.Pairwise.nil

theorem addMissingStretch_ordered {log : Gaps} {next chunkStart : Nat} (ordered : Ordered r.gaps)
    (before : ∀ g ∈ r.gaps, g.1 ≤ r.filePos) : Ordered (r.addMissingStretch log r.filePos next chunkStart).gaps := by
  unfold addMissingStretch
  dsimp only
  split_ifs
  all_goals exact addRecordingGap_ordered ordered before

theorem continuity_ordered {log : Gaps} {ring : Nat} {k k' : Pending α} (ordered : Ordered r.gaps)
    (before : ∀ g ∈ r.gaps, g.1 ≤ r.filePos) (inOrder : Ordered k.gaps)
    (goes : r.continuity log ring k = some (r', k')) : Ordered r'.gaps ∧ Ordered k'.gaps := by
  unfold continuity at goes
  split_ifs at goes
  · cases goes
    exact ⟨ordered, inOrder⟩
  · split at goes
    · cases goes
      exact ⟨ordered, inOrder⟩
    · dsimp only at goes
      split_ifs at goes
      · cases goes
        exact ⟨ordered, (inOrder.filter _).back _⟩
      · cases goes
        exact ⟨addMissingStretch_ordered ordered before, inOrder⟩
      · cases goes
        exact ⟨ordered, inOrder⟩

theorem writeRecordingChunk_ordered {truth : Gaps} {s : List α} {pos : List Nat} {k : Pending α} (full : Bool)
    (tracks : Tracks truth s r pos) (stands : Stands truth s k) (ordered : Ordered r.gaps) (inOrder : Ordered k.gaps) :
    Ordered (r.writeRecordingChunk truth 0 full k).gaps := by
  have ends : ∀ {r : Recording α} {n : Nat}, Accounts truth s r pos n → ∀ g ∈ r.gaps, g.1 ≤ r.filePos :=
    fun accounts g member => accounts.filePos ▸ (accounts.index g member).2
  obtain ⟨-, n, accounts, -⟩ := id tracks
  unfold writeRecordingChunk
  split
  · exact ordered
  · rename_i r' k' goes
    obtain ⟨gaps, chunk⟩ := continuity_ordered ordered (ends accounts) inOrder goes
    have before := ends (continuity_accounts tracks stands goes).1
    have stored : (r'.store full k').2 = true ∧ (r'.store full k').1.gaps = r'.gaps ∨
        (r'.store full k').2 = false ∧ Ordered (r'.store full k').1.gaps := by
      have dropped : Ordered (r'.dropRecordingChunk r'.filePos k'.data.length k'.gaps).gaps :=
        addRecordingGap_ordered gaps before
      unfold store
      dsimp only
      split
      all_goals split_ifs
      · exact Or.inl ⟨rfl, rfl⟩
      · exact Or.inr ⟨rfl, dropped⟩
      · exact Or.inr ⟨rfl, dropped⟩
      · exact Or.inl ⟨rfl, rfl⟩
    have placed : ∀ r'' : Recording α, r''.gaps = r'.gaps → Ordered (r''.addChunkGaps r'.filePos k'.gaps).gaps := by
      intro r'' same
      have calls := foldl_ordered (same ▸ gaps : Ordered r''.gaps) (chunk.shift r'.filePos) fun g member h inside => by
        obtain ⟨x, -, rfl⟩ := List.mem_map.mp inside
        exact (before g (same ▸ member)).trans (Nat.le_add_right ..)
      rwa [List.foldl_map] at calls
    dsimp only
    obtain ⟨written, same⟩ | ⟨refused, kept⟩ := stored
    · rw [if_pos written]
      exact placed _ same
    · rw [refused, if_neg Bool.false_ne_true]
      exact kept

end Recording

namespace Capture

variable {ring : CircularBuffer α} {ks : List (Received α)} {p : Option (Received α)} {c : Capture α}

/-- The recordings started so far have their gaps in order. -/
def InOrder (c : Capture α) : Prop :=
  (∀ r, c.starting = .placed r → Ordered r.gaps) ∧ ∀ r, c.recording = some r → Ordered r.gaps

/-- Where every chunk has its losses in order, so has every recording. -/
theorem Run.inOrder (empty : ring.Holds []) (run : Run ring ks p c)
    (fits : (gapsOf 0 (ks ++ p.toList)).length ≤ streamGapLogLen)
    (ordered : ∀ k ∈ ks ++ p.toList, Ordered k.gaps) : c.InOrder := by
  induction run with
  | start => exact ⟨nofun, nofun⟩
  | @log ks c data lastGaps run ready ih =>
    have earlier : (gapsOf 0 (ks ++ [])).length ≤ streamGapLogLen := by
      rw [Option.toList_some, gapsOf_append, List.length_append] at fits
      rw [List.append_nil]
      omega
    have kept := ih earlier fun k member => ordered k (List.mem_append_left _ (by simpa using member))
    exact ⟨kept.1, kept.2⟩
  | ringWrite run logged ih =>
    rw [Option.toList_none, List.append_nil] at fits ordered
    exact ⟨(ih fits ordered).1, (ih fits ordered).2⟩
  | @record ks k c chunkStart r full run written active ih =>
    obtain ⟨placed, recorded⟩ := ih fits ordered
    have agreed := run.agreed empty fits
    obtain ⟨-, before, rfl, rfl⟩ := agreed.written k chunkStart written
    obtain ⟨pos, tracks⟩ := agreed.recorded r active
    have stands : Recording.Stands c.streamGaps (streamOf (before ++ [k])) ⟨k.data, k.gaps, (streamOf before).length⟩ :=
      agreed.log ▸ last_stands before k []
    refine ⟨placed, fun r' same => ?_⟩
    obtain rfl := Option.some.inj same
    exact Recording.writeRecordingChunk_ordered full tracks stands (recorded r active) (ordered k (by simp))
  | pass run written inactive unstarted ih => exact ⟨(ih fits ordered).1, (ih fits ordered).2⟩
  | fire pre ram run written inactive unstarted ih =>
    refine ⟨(ih fits ordered).1, fun r same => ?_⟩
    obtain rfl := Option.some.inj same
    exact Recording.begin_ordered ram ((run.agreed empty fits).log ▸ gapsOf_ordered ordered) ..
  | manualRead pre run inactive unstarted ih => exact ⟨nofun, (ih fits ordered).2⟩
  | manualPlace ram run read ih =>
    refine ⟨fun r same => ?_, (ih fits ordered).2⟩
    obtain rfl := StartPhase.placed.inj same
    exact Recording.begin_ordered ram ((run.agreed empty fits).log ▸ gapsOf_ordered ordered) ..
  | manualFlip run placed ih =>
    refine ⟨nofun, fun r same => ?_⟩
    obtain rfl := Option.some.inj same
    exact (ih fits ordered).1 _ placed
  | stop run active ih => exact ⟨(ih fits ordered).1, nofun⟩

/-- Two samples were lost before the second one of the file, three before the fourth. -/
def lossyJson : CaptureJson where
  sampleRateHz := some 1000000
  bandwidthHz := none
  centerFreqHz := some 915000000
  startTime := some "2026-05-02T12:00:00+00:00".toList
  gaps := [(1, 2), (3, 3)]
  zeroFilled := []

theorem lossyJson_start : lossyJson.start = some (some (secondOfMay 0 0).val) := by decide

theorem lossyJson_exports : ∃ doc, lossyJson.iqSigmfMeta = some doc := by
  have segment : ∀ s lost, s + lost ≤ 8 → ∃ seg, lossyJson.segment (some (secondOfMay 0 0).val) s lost = some seg := by
    intro s lost few
    have micros : (((s + lost : ℕ) : ℚ) / lossyJson.rate * 10 ^ 6) = ((s + lost : ℕ) : ℤ) := by
      have rate : lossyJson.rate = 10 ^ 6 := by decide
      rw [rate, div_mul_cancel₀ _ (by positivity), Int.cast_natCast]
    have wall : (secondOfMay 0 0).val.wall < 10 ^ 17 := by decide
    have last : Calendar.maxOrdinal = 3652059 := rfl
    refine Option.isSome_iff_exists.mp (segment_isSome rfl ?_)
    rw [micros, RoundHalfEven.of_int, last]
    omega
  obtain ⟨first, begins⟩ := segment 0 0 (by decide)
  obtain ⟨second, follows⟩ := segment 1 2 (by decide)
  obtain ⟨third, ends⟩ := segment 3 5 (by decide)
  refine ⟨⟨lossyJson.rate, [first, second, third], []⟩, ?_⟩
  rw [CaptureJson.iqSigmfMeta, lossyJson_start, Option.bind_some, begins, Option.bind_some]
  change (((lossyJson.segment (some (secondOfMay 0 0).val) 1 2).bind _).map _) = _
  rw [follows, Option.bind_some]
  change (((((lossyJson.segment (some (secondOfMay 0 0).val) 3 5).bind _).map _)).map _) = _
  rw [ends]
  rfl

end Capture

end RFObserver
