import RFObserver.Pipeline.RecordingGaps

namespace RFObserver
open LossyStream

variable {α : Type*}

namespace Recording

/-- The file accounts for the stream up to where the next chunk is expected. -/
structure Tracks (truth : Gaps) (s : List α) (r : Recording α) (pos : List Nat) : Prop where
  ring : r.ring = 0
  accounts : ∃ n, Accounts truth s r pos n ∧ (r.nextPos = some n ∨ r.nextPos = none ∧ pos = [])

variable {truth : Gaps} {s : List α} {r : Recording α} {pos : List Nat} {n m : Nat}

/-- More of the stream arrives, with its losses. -/
theorem Accounts.grow {later : Gaps} {more : List α} (accounts : Accounts truth s r pos n)
    (beyond : ∀ g ∈ later, s.length ≤ g.1) : Accounts (truth ++ later) (s ++ more) r pos n where
  rising := accounts.rising
  held := by
    rw [← accounts.held]
    refine List.map_congr_left fun p member => List.getElem?_append_left ?_
    exact (accounts.below p member).trans_le accounts.within
  below := accounts.below
  within := by rw [List.length_append]; exact accounts.within.trans (Nat.le_add_right _ _)
  bytes := accounts.bytes
  bufPos := accounts.bufPos
  index := accounts.index
  lost := accounts.lost
  exact := by
    intro complete p0 head i p here
    have bound : p < s.length := (accounts.below p (List.mem_of_getElem? here)).trans_le accounts.within
    have bound0 : p0 < s.length := (accounts.below p0 (List.mem_of_mem_head? head)).trans_le accounts.within
    rw [timeOf_append beyond bound, timeOf_append beyond bound0]
    exact accounts.exact complete p0 head i p here
  total := by
    intro complete p0 head
    have bound0 : p0 < s.length := (accounts.below p0 (List.mem_of_mem_head? head)).trans_le accounts.within
    rw [timeBefore_append beyond accounts.within, timeOf_append beyond bound0]
    exact accounts.total complete p0 head

/-- An empty file may start anywhere. -/
theorem Accounts.anywhere (accounts : Accounts truth s r [] n) (within : m ≤ s.length) :
    Accounts truth s r [] m :=
  ⟨accounts.rising, accounts.held, by simp, within, accounts.bytes, accounts.bufPos, accounts.index,
    accounts.lost, nofun, nofun⟩

/-- Where the next chunk is expected is no part of the account. -/
theorem Accounts.anchored (accounts : Accounts truth s r pos n) (next start : Option Nat) :
    Accounts truth s { r with nextPos := next, startSample := start } pos n :=
  ⟨accounts.rising, accounts.held, accounts.below, accounts.within, accounts.bytes, accounts.bufPos,
    accounts.index, accounts.lost, accounts.exact, accounts.total⟩

theorem Tracks.grow {later : Gaps} {more : List α} (tracks : Tracks truth s r pos)
    (beyond : ∀ g ∈ later, s.length ≤ g.1) : Tracks (truth ++ later) (s ++ more) r pos := by
  obtain ⟨ring, n, accounts, next⟩ := tracks
  exact ⟨ring, n, accounts.grow beyond, next⟩

/-- The part of a chunk from offset `skip` on. -/
theorem own_drop {gaps : Gaps} {k skip : Nat} (own : Accounts.Own truth gaps n k) (inside : skip ≤ k) :
    Accounts.Own truth ((gaps.filter fun g => skip ≤ g.1).map fun g => (g.1 - skip, g.2)) (n + skip) (k - skip) := by
  refine ⟨fun p _ => ?_, fun g member => ?_⟩
  · rw [lostWhere_map (· - skip), lostWhere_filter]
    have whole := own.1 fun j => n + skip ≤ j ∧ p j
    rw [lostWhere_congr (q := fun i => n + skip ≤ n + i ∧ p (n + i)), whole]
    · exact lostWhere_congr fun g _ => ⟨fun h => ⟨by omega, h.2.2⟩, fun h => ⟨by omega, by omega, h.2⟩⟩
    · intro g _
      constructor
      · rintro ⟨holds, above⟩
        rw [show n + skip + (g.1 - skip) = n + g.1 by omega] at holds
        exact ⟨by omega, holds⟩
      · rintro ⟨above, holds⟩
        rw [show n + skip + (g.1 - skip) = n + g.1 by omega]
        exact ⟨holds, by omega⟩
  · obtain ⟨x, there, rfl⟩ := List.mem_map.mp member
    obtain ⟨old, above⟩ := List.mem_filter.mp there
    have := own.2 x old
    simp only [decide_eq_true_eq] at above ⊢
    omega

/-- The chunk as it stands in the stream, with the losses logged for it. -/
structure Stands (truth : Gaps) (s : List α) (k : Pending α) : Prop where
  here : (s.drop k.start).take k.data.length = k.data
  within : k.start + k.data.length ≤ s.length
  own : Accounts.Own truth k.gaps k.start k.data.length

/-- After the continuity check the file goes on right at the chunk's start. -/
theorem continuity_accounts {k k' : Pending α} {r' : Recording α} (tracks : Tracks truth s r pos)
    (stands : Stands truth s k) (goes : r.continuity truth 0 k = some (r', k')) :
    Accounts truth s r' pos k'.start ∧ Stands truth s k' ∧ r'.ring = 0 := by
  obtain ⟨ring, n, accounts, next⟩ := tracks
  unfold continuity at goes
  rw [if_neg (not_not_intro ring)] at goes
  rcases next with some | ⟨none, rfl⟩
  · rw [some] at goes
    simp only at goes
    split_ifs at goes with behind inside ahead
    · obtain ⟨rfl, rfl⟩ := Prod.mk.inj (Option.some.inj goes)
      have skipped : k.start + (n - k.start) = n := by omega
      refine ⟨by rw [skipped]; exact accounts, ⟨?_, ?_, ?_⟩, ring⟩
      · have tail := congrArg (List.drop (n - k.start)) stands.here
        rw [List.drop_take, List.drop_drop] at tail
        simpa using tail
      · have := stands.within
        simp only [List.length_drop]
        omega
      · rw [List.length_drop]
        exact own_drop stands.own (by omega)
    · obtain ⟨rfl, rfl⟩ := Prod.mk.inj (Option.some.inj goes)
      have adds := addMissingStretch_adds r truth r.filePos n k.start
      rw [accounts.filePos] at adds ⊢
      have within := stands.within
      exact ⟨accounts.advance ahead.le (by omega) adds, stands, adds.same.ring.trans ring⟩
    · obtain ⟨rfl, rfl⟩ := Prod.mk.inj (Option.some.inj goes)
      have equal : n = k.start := by omega
      exact ⟨equal ▸ accounts, stands, ring⟩
  · rw [none] at goes
    obtain ⟨rfl, rfl⟩ := Prod.mk.inj (Option.some.inj goes)
    have within := stands.within
    exact ⟨accounts.anywhere (by omega), stands, ring⟩

/-- A refused chunk is one gap from the file's end on. -/
theorem drop_accounts {k : Pending α} (accounts : Accounts truth s r pos k.start) (stands : Stands truth s k) :
    Accounts truth s (r.dropRecordingChunk r.filePos k.data.length k.gaps) pos (k.start + k.data.length) := by
  have adds := dropRecordingChunk_adds r r.filePos k.data.length k.gaps
  have logged := stands.own.1 fun _ => True
  simp only [lostWhere_all, and_true] at logged
  rw [accounts.filePos, logged] at adds
  refine accounts.advance (Nat.le_add_right ..) stands.within ?_
  rwa [Nat.add_sub_cancel_left, ← accounts.filePos] at *

theorem store_accounts {k : Pending α} (full : Bool) (accounts : Accounts truth s r pos k.start)
    (stands : Stands truth s k) (next start : Option Nat) :
    let stored := r.store full k
    let anchored := { stored.1 with nextPos := next, startSample := start }
    stored.1.ring = r.ring ∧
    (stored.2 = true → Accounts truth s (anchored.addChunkGaps r.filePos k.gaps)
      (pos ++ List.range' k.start k.data.length) (k.start + k.data.length)) ∧
    (stored.2 = false → Accounts truth s anchored pos (k.start + k.data.length)) := by
  have dropped := (drop_accounts accounts stands).anchored next start
  have filePos := accounts.filePos
  have length := accounts.length
  have bytes := accounts.bytes
  have ring := (dropRecordingChunk_adds r r.filePos k.data.length k.gaps).same.ring
  unfold store
  split
  · rename_i size ram
    by_cases fits : r.filePos + k.data.length ≤ size
    · rw [if_pos fits]
      refine ⟨rfl, fun _ => ?_, nofun⟩
      have adds := addChunkGaps_adds { r with
        file := r.file ++ k.data, bufPos := r.filePos + k.data.length, bytes := (r.filePos + k.data.length) * 4
        nextPos := next, startSample := start } r.filePos k.gaps
      refine accounts.extend adds stands.here stands.within stands.own rfl ?_ ?_ rfl rfl rfl
      · rw [List.length_append, length, filePos]
      · rw [List.length_append, length, filePos]
        exact fun _ => rfl
    · simp only [if_neg fits]
      exact ⟨ring, nofun, fun _ => dropped⟩
  · rename_i ram
    cases full with
    | true => exact ⟨ring, nofun, fun _ => dropped⟩
    | false =>
      refine ⟨rfl, fun _ => ?_, nofun⟩
      have adds := addChunkGaps_adds { r with
        file := r.file ++ k.data, bytes := r.bytes + k.data.length * 4
        nextPos := next, startSample := start } r.filePos k.gaps
      refine accounts.extend adds stands.here stands.within stands.own rfl ?_ ?_ rfl rfl rfl
      · simp only [List.length_append]
        omega
      · simp only [ram]
        nofun

/-- One chunk, whatever the file holds of it already and whether it fits. -/
theorem Tracks.writeRecordingChunk {k : Pending α} (full : Bool) (tracks : Tracks truth s r pos)
    (stands : Stands truth s k) : ∃ pos', Tracks truth s (r.writeRecordingChunk truth 0 full k) pos' := by
  unfold Recording.writeRecordingChunk
  split
  · exact ⟨pos, tracks⟩
  · rename_i r' k' goes
    obtain ⟨accounts, stands, ring⟩ := continuity_accounts tracks stands goes
    obtain ⟨same, put, refused⟩ := store_accounts full accounts stands (some (k'.start + k'.data.length))
      ((r'.store full k').1.startSample.or (some k'.start))
    simp only
    split_ifs with written
    · refine ⟨_, ?_, _, put written, Or.inl ?_⟩
      · rw [(addChunkGaps_adds _ _ _).same.ring]
        exact same.trans ring
      · exact (addChunkGaps_adds _ _ _).same.nextPos
    · exact ⟨_, same.trans ring, _, refused (by simpa using written), Or.inl rfl⟩

/-- Gaps at file index 0 lie before the file. -/
theorem Adds.restore {a b : Recording α} {calls : Gaps} (adds : Adds a b (calls.filter fun g => 0 < g.1)) :
    Adds a b calls where
  same := adds.same
  complete := adds.complete
  gaps := by
    intro complete p _
    rw [adds.gaps complete, lostWhere_filter]
    congr 1
    exact lostWhere_congr fun g _ => ⟨fun h => h.1, fun h => ⟨h, h.1⟩⟩
  index := by
    intro g member
    rcases adds.index g member with old | ⟨h, there, positive, equal⟩
    · exact Or.inl old
    · exact Or.inr ⟨h, (List.mem_filter.mp there).1, positive, equal⟩
  lost := by
    rw [adds.lost, lostWhere_filter]
    simp

/-- The losses of stream `[start, start + k)` as offsets from its first sample. -/
def lossesIn (truth : Gaps) (start k : Nat) : Gaps :=
  (truth.filter fun g => start ≤ g.1 ∧ g.1 < start + k).map fun g => (g.1 - start, g.2)

theorem lossesIn_own (truth : Gaps) (start k : Nat) : Accounts.Own truth (lossesIn truth start k) start k := by
  refine ⟨fun p _ => ?_, fun g member => ?_⟩
  · rw [lossesIn, lostWhere_map (· - start), lostWhere_filter (q := fun j => start ≤ j ∧ j < start + k)]
    refine lostWhere_congr fun g _ => ⟨fun h => ?_, fun h => ?_⟩
    · rw [Nat.add_sub_cancel' h.2.1] at h
      exact h.symm
    · rw [Nat.add_sub_cancel' h.1.1]
      exact h.symm
  · obtain ⟨x, there, rfl⟩ := List.mem_map.mp member
    have range := (List.mem_filter.mp there).2
    simp only [decide_eq_true_eq] at range ⊢
    omega

/-- The pre-roll takes the losses after its first sample. -/
theorem prerollGaps_eq (log : Gaps) {start stop written : Nat} (inside : start + written ≤ stop) :
    prerollGaps log start stop written = (lossesIn log start written).filter fun g => 0 < g.1 := by
  unfold prerollGaps lossesIn
  rw [List.filter_map, List.filter_filter]
  congr 1
  refine List.filter_congr fun g _ => ?_
  simp only [Function.comp_apply, ← Bool.decide_and, decide_eq_decide]
  omega

theorem addPrerollGaps_adds (r : Recording α) (log : Gaps) {start stop written : Nat}
    (inside : start + written ≤ stop) :
    Adds r (r.addPrerollGaps log true start stop written) (lossesIn log start written) := by
  rw [addPrerollGaps, if_pos rfl, prerollGaps_eq log inside]
  exact (foldl_adds _ _).restore

theorem fresh_accounts (truth : Gaps) (ram : Option Nat) (within : n ≤ s.length) :
    Accounts truth s (fresh ram 0) [] n :=
  ⟨List.Pairwise.nil, rfl, by simp, within, rfl, fun _ => rfl, by simp [fresh], fun _ => rfl, nofun, nofun⟩

theorem prerollWritten_le (ram : Option Nat) (n : Nat) : prerollWritten ram n ≤ n := by
  cases ram with
  | none => exact le_rfl
  | some size => exact Nat.min_le_left ..

/-- A start pins the file where its pre-roll stands in the stream. -/
theorem begin_tracks (ram : Option Nat) {preData : List α} {preEnd : Nat} (shorter : preData.length ≤ preEnd)
    (within : preEnd ≤ s.length) (here : (s.drop (preEnd - preData.length)).take preData.length = preData) :
    ∃ pos, Tracks truth s (.begin ram truth 0 0 preData preEnd) pos := by
  obtain ⟨start, startEq⟩ : ∃ start, preEnd - preData.length = start := ⟨_, rfl⟩
  obtain ⟨written, writtenEq⟩ : ∃ written, prerollWritten ram preData.length = written := ⟨_, rfl⟩
  have fits : written ≤ preData.length := by
    rw [← writtenEq]
    exact prerollWritten_le ram _
  have unplaced := fresh_accounts truth ram (show start ≤ s.length by omega)
  unfold Recording.begin
  simp only [writtenEq, startEq]
  by_cases empty : preData.length = 0
  · have nothing : ¬ 0 < written := by omega
    rw [if_pos empty]
    simp only [if_neg nothing]
    exact ⟨[], rfl, start, unplaced.anchored none none, Or.inr ⟨rfl, rfl⟩⟩
  · rw [if_neg empty]
    obtain ⟨r, rEq⟩ : ∃ r, ({ (fresh ram 0 : Recording α) with
        file := preData.take written, bufPos := if ram.isSome then written else 0
        bytes := written * 4 } : Recording α) = r := ⟨_, rfl⟩
    have size : (preData.take written).length = written := by rw [List.length_take]; omega
    have stands : (s.drop start).take (preData.take written).length = preData.take written := by
      rw [size]
      conv_rhs => rw [← here, startEq, List.take_take, Nat.min_eq_left fits]
    have unmoved : (lossesIn truth start written).map (fun g => ((fresh ram 0 : Recording α).filePos + g.1, g.2)) =
        lossesIn truth start written := by
      rw [unplaced.filePos]
      simp
    have adds := addPrerollGaps_adds r truth (show start + written ≤ preEnd by omega)
    have placed := unplaced.extend (unmoved.symm ▸ adds) stands (by omega) (size.symm ▸ lossesIn_own ..)
      (by rw [← rEq]; rfl) (by rw [← rEq, size]) (by rw [← rEq, size]; exact fun here => if_pos here)
      (by rw [← rEq]) (by rw [← rEq]) (by rw [← rEq])
    rw [rEq]
    refine ⟨[] ++ List.range' start (preData.take written).length, ?_, start + written, ?_, ?_⟩
    · exact adds.same.ring.trans (by rw [← rEq]; rfl)
    · rw [size] at placed ⊢
      exact placed.anchored _ _
    · by_cases some : 0 < written
      · exact Or.inl (if_pos some)
      · refine Or.inr ⟨if_neg some, ?_⟩
        rw [size, Nat.eq_zero_of_not_pos some]
        rfl

end Recording

end RFObserver
