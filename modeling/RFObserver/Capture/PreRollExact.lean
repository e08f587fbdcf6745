import RFObserver.Capture.PreRollRows

namespace RFObserver.PreRoll

section Cut

variable {β : Type*}

/-- The rows from an index on, with their indices. -/
theorem zipIdx_from (grid : List β) (first i : ℕ) :
    (grid.zipIdx i).filter (fun r => i + first ≤ r.2) = (grid.drop first).zipIdx (i + first) := by
  induction grid generalizing first i with
  | nil => simp
  | cons row grid ih =>
    cases first with
    | zero =>
      rw [List.filter_eq_self.mpr fun r member => decide_eq_true (List.le_snd_of_mem_zipIdx member)]
      rfl
    | succ first =>
      have later := ih first (i + 1)
      rw [List.zipIdx_cons, List.filter_cons_of_neg (by simp), List.drop_succ_cons]
      rw [show i + (first + 1) = i + 1 + first by omega]
      exact later

theorem zipIdx_before (grid : List β) (last i : ℕ) :
    (grid.zipIdx i).filter (fun r => r.2 < i + last) = (grid.take last).zipIdx i := by
  induction grid generalizing last i with
  | nil => simp
  | cons row grid ih =>
    cases last with
    | zero =>
      refine List.filter_eq_nil_iff.mpr fun r member => ?_
      have := List.le_snd_of_mem_zipIdx member
      simpa using this
    | succ last =>
      have later := ih last (i + 1)
      rw [List.zipIdx_cons, List.filter_cons_of_pos (by simp), List.take_succ_cons, List.zipIdx_cons]
      rw [show i + (last + 1) = i + 1 + last by omega, later]

/-- The rows between two indices, with their indices. -/
theorem zipIdx_between (grid : List β) (first last : ℕ) :
    grid.zipIdx.filter (fun r => first ≤ r.2 ∧ r.2 < last) = ((grid.take last).drop first).zipIdx first := by
  have lower := zipIdx_from (grid.take last) first 0
  have upper := zipIdx_before grid last 0
  rw [Nat.zero_add] at lower upper
  rw [← lower, ← upper, List.filter_filter]
  congr 1
  funext r
  rw [Bool.decide_and]

/-- The number of the first row. -/
theorem zipIdx_head {grid : List β} (held : grid ≠ []) {first : ℕ} (position : ℕ → ℤ) :
    ((grid.zipIdx first).head?.map fun r => position r.2) = some (position first) := by
  obtain ⟨row, rest, rfl⟩ := List.exists_cons_of_ne_nil held
  rfl

variable {sample chunkStart sliceSamples startSample endSample : ℤ}

theorem firstRow_nonneg (positive : 0 < sliceSamples) : 0 ≤ firstRow sample chunkStart sliceSamples := by
  unfold firstRow
  split_ifs
  · exact Int.ediv_nonneg (by omega) positive.le
  · exact le_rfl

/-- The ceiling division finds the first row at or after a sample. -/
theorem firstRow_le (positive : 0 < sliceSamples) (k : ℕ) :
    firstRow sample chunkStart sliceSamples ≤ k ↔ sample ≤ chunkStart + k * sliceSamples := by
  unfold firstRow
  split_ifs with later
  · rw [← Int.lt_add_one_iff, Int.ediv_lt_iff_lt_mul positive, add_mul, one_mul]
    omega
  · have rows : 0 ≤ k * sliceSamples := by positivity
    omega

/-- Row `k` has samples and lies wholly inside `[startSample, endSample)`. -/
def RowInside (chunkStart sliceSamples startSample endSample : ℤ) (k : ℕ) : Prop :=
  0 < sliceSamples ∧ startSample ≤ chunkStart + k * sliceSamples ∧ chunkStart + (k + 1) * sliceSamples ≤ endSample

instance RowInside.decidable (chunkStart sliceSamples startSample endSample : ℤ) :
    DecidablePred (RowInside chunkStart sliceSamples startSample endSample) := fun _ =>
  inferInstanceAs (Decidable (_ ∧ _ ∧ _))

theorem rowInside_iff {k : ℕ} : RowInside chunkStart sliceSamples startSample endSample k ↔
    (Set.Ico (chunkStart + k * sliceSamples) (chunkStart + (k + 1) * sliceSamples)).Nonempty ∧
      Set.Ico (chunkStart + k * sliceSamples) (chunkStart + (k + 1) * sliceSamples) ⊆ Set.Ico startSample endSample := by
  have width : chunkStart + (k + 1) * sliceSamples = chunkStart + k * sliceSamples + sliceSamples := by ring
  unfold RowInside
  rw [Set.nonempty_Ico, width]
  constructor
  · intro ⟨positive, low, high⟩
    exact ⟨by omega, Set.Ico_subset_Ico low high⟩
  · intro ⟨positive, inside⟩
    have ends := (Set.Ico_subset_Ico_iff positive).mp inside
    exact ⟨by omega, ends.1, ends.2⟩

/-- The rows of a grid lying wholly inside a range, with their numbers. -/
def insideRows (grid : List β) (chunkStart sliceSamples startSample endSample : ℤ) : List (β × ℕ) :=
  grid.zipIdx.filter fun r => RowInside chunkStart sliceSamples startSample endSample r.2

theorem insideRows_eq_nil (grid : List β)
    (none : grid.length = 0 ∨ sliceSamples ≤ 0 ∨ endSample ≤ startSample) :
    insideRows grid chunkStart sliceSamples startSample endSample = [] := by
  refine List.filter_eq_nil_iff.mpr fun r member => ?_
  rw [decide_eq_true_eq]
  intro ⟨positive, low, high⟩
  rcases none with empty | thin | reversed
  · rw [List.eq_nil_of_length_eq_zero empty] at member
    cases member
  · omega
  · rw [add_mul, one_mul] at high
    omega

/-- Between the two divisions lie the rows inside. -/
theorem insideRows_eq (grid : List β) (positive : 0 < sliceSamples) :
    insideRows grid chunkStart sliceSamples startSample endSample =
      ((grid.take (min ((endSample - chunkStart) / sliceSamples) grid.length).toNat).drop
        (firstRow startSample chunkStart sliceSamples).toNat).zipIdx (firstRow startSample chunkStart sliceSamples).toNat := by
  rw [← zipIdx_between]
  refine List.filter_congr fun r member => ?_
  have bound := List.snd_lt_of_mem_zipIdx member
  have low : firstRow startSample chunkStart sliceSamples ≤ r.2 ↔ _ := firstRow_le positive r.2
  have nonneg : 0 ≤ firstRow startSample chunkStart sliceSamples := firstRow_nonneg positive
  have high : (r.2 + 1 : ℤ) ≤ (endSample - chunkStart) / sliceSamples ↔ _ := Int.le_ediv_iff_mul_le positive
  refine decide_eq_decide.mpr ?_
  unfold RowInside
  rw [← low]
  omega

/-- For every relation of the numbers the rows returned are those wholly inside. -/
theorem trimGridRows_eq (grid : List β) (chunkStart sliceSamples startSample endSample : ℤ) :
    trimGridRows grid chunkStart sliceSamples startSample endSample =
      ((insideRows grid chunkStart sliceSamples startSample endSample).map Prod.fst,
        ((insideRows grid chunkStart sliceSamples startSample endSample).head?.map fun r =>
          chunkStart + r.2 * sliceSamples).getD (-1)) := by
  unfold trimGridRows
  by_cases none : grid.length = 0 ∨ sliceSamples ≤ 0 ∨ endSample ≤ startSample
  · rw [if_pos none, insideRows_eq_nil grid none]
    rfl
  · rw [if_neg none]
    push Not at none
    obtain ⟨some_, positive, ordered⟩ := none
    rw [insideRows_eq grid positive]
    dsimp only
    have nonneg : 0 ≤ firstRow startSample chunkStart sliceSamples := firstRow_nonneg positive
    split_ifs with empty
    · rw [List.drop_eq_nil_of_le (by rw [List.length_take]; omega)]
      rfl
    · have held : ((grid.take (min ((endSample - chunkStart) / sliceSamples) grid.length).toNat).drop
          (firstRow startSample chunkStart sliceSamples).toNat) ≠ [] := by
        refine List.ne_nil_of_length_pos ?_
        rw [List.length_drop, List.length_take]
        omega
      rw [List.zipIdx_map_fst, zipIdx_head held fun k => chunkStart + k * sliceSamples, Option.getD_some, Int.toNat_of_nonneg nonneg]

end Cut

section Buffer

variable {V A : Type*}

def totalRows (grids : List (Chunk V)) : ℤ := (grids.map fun g => (g.rows.length : ℤ)).sum

def totalSpan (grids : List (Chunk V)) : ℚ := (grids.map fun g => (g.rows.length : ℚ) * g.timeRes).sum

/-- The rows of grids in their order, with the positions of their first samples. -/
def placedRows (grids : List (Chunk V)) : List (ℤ × List V) :=
  grids.flatMap fun g => g.rows.zipIdx.map fun r => (g.chunkStart + r.2 * g.sliceSamples, r.1)

/-- The rows whose first sample is at or after `fromSample`. -/
def wantedRows (fromSample : Option ℤ) (grids : List (Chunk V)) : List (ℤ × List V) :=
  (placedRows grids).filter fun r => ∀ sample ∈ fromSample, sample ≤ r.1

/-- A buffer, and the usable grids written since it was last cleared. -/
structure Run (V A : Type*) where
  buffer : GridPreBuffer V A
  written : List (Chunk V)

namespace Run

inductive Act (V A : Type*)
  | write (g : Chunk V) (freqAxis : List A)
  | drain (fromSample : Option ℤ)
  | clear

def step [Min V] [Max V] (s : Run V A) : Act V A → Option (Run V A)
  | .write g freqAxis => some ⟨s.buffer.write g freqAxis, if g.Usable then s.written ++ [g] else s.written⟩
  | .drain fromSample => some ⟨(s.buffer.drain fromSample).2, []⟩
  | .clear => some ⟨s.buffer.reset, []⟩

def Reach [Min V] [Max V] (maxSeconds : ℚ) (s : Run V A) : Prop :=
  Runs.Reach step ⟨.create maxSeconds, []⟩ (fun _ _ => True) s

/-- The totals match the grids held, which are the last ones written: so many
as fit in the span, or a single one. -/
structure Tracks (s : Run V A) : Prop where
  rows : s.buffer.rows = totalRows s.buffer.grids
  span : s.buffer.span = totalSpan s.buffer.grids
  held : s.buffer.grids <:+ s.written
  fits : s.buffer.span ≤ s.buffer.maxSeconds ∨ s.buffer.grids.length = 1
  newest : s.written ≠ [] → s.buffer.grids ≠ []
  usable : ∀ g ∈ s.written, g.Usable
  axis : s.buffer.grids ≠ [] → s.buffer.freqAxis.isSome
  budget : 0 ≤ s.buffer.maxSeconds

end Run

/-- A drain takes exactly the wanted rows that are held, in order, and says where the first one is. -/
def DrainsExactly [Min V] [Max V] (b : GridPreBuffer V A) (fromSample : Option ℤ) : Prop :=
  (b.drain fromSample).2 = b.reset ∧
    ((b.drain fromSample).1 = none ↔ wantedRows fromSample b.grids = []) ∧
    ∀ roll, (b.drain fromSample).1 = some roll →
      roll.grids.flatten = (wantedRows fromSample b.grids).map Prod.snd ∧
      roll.rows = (wantedRows fromSample b.grids).length ∧
      some roll.startSample = ((wantedRows fromSample b.grids).map Prod.fst).head?

open PreRoll.GridPreBuffer

/-- What is left after trimming: a suffix with its own totals, in budget or a single grid. -/
theorem trimOldest_spec {maxSeconds : ℚ} (grids : List (Chunk V)) (rows : ℤ) (span : ℚ) (budget : 0 ≤ maxSeconds)
    (rowsOf : rows = totalRows grids) (spanOf : span = totalSpan grids) :
    (trimOldest maxSeconds grids rows span).1 <:+ grids ∧
    (trimOldest maxSeconds grids rows span).2.1 = totalRows (trimOldest maxSeconds grids rows span).1 ∧
    (trimOldest maxSeconds grids rows span).2.2 = totalSpan (trimOldest maxSeconds grids rows span).1 ∧
    ((trimOldest maxSeconds grids rows span).2.2 ≤ maxSeconds ∨ (trimOldest maxSeconds grids rows span).1.length = 1) ∧
    (grids ≠ [] → (trimOldest maxSeconds grids rows span).1 ≠ []) := by
  fun_induction trimOldest maxSeconds grids rows span with
  | case1 g h grids rows span exceeds ih =>
    have rest := ih (by rw [rowsOf]; simp [totalRows]) (by rw [spanOf]; simp [totalSpan])
    obtain ⟨suffix, rowsLeft, spanLeft, fits, nonempty⟩ := rest
    exact ⟨suffix.trans (List.suffix_cons g _), rowsLeft, spanLeft, fits, fun _ => nonempty (List.cons_ne_nil h grids)⟩
  | case2 g h grids rows span within =>
    exact ⟨List.suffix_rfl, rowsOf, spanOf, Or.inl (not_lt.mp within), id⟩
  | case3 g rows span => exact ⟨List.suffix_rfl, rowsOf, spanOf, Or.inr rfl, id⟩
  | case4 rows span =>
    refine ⟨List.suffix_rfl, rowsOf, spanOf, Or.inl ?_, id⟩
    rw [spanOf]
    exact budget

theorem reset_tracks (s : Run V A) (budget : 0 ≤ s.buffer.maxSeconds) : (⟨s.buffer.reset, []⟩ : Run V A).Tracks :=
  ⟨rfl, rfl, List.suffix_rfl, Or.inl budget, id, by simp, fun held => absurd rfl held, budget⟩

theorem write_tracks {s : Run V A} (tracks : s.Tracks) (g : Chunk V) (freqAxis : List A) :
    (⟨s.buffer.write g freqAxis, if g.Usable then s.written ++ [g] else s.written⟩ : Run V A).Tracks := by
  unfold write
  by_cases usable : g.Usable
  · have spec := trimOldest_spec (s.buffer.grids ++ [g]) (s.buffer.rows + g.rows.length)
      (s.buffer.span + g.rows.length * g.timeRes) tracks.budget (by rw [tracks.rows]; simp [totalRows])
      (by rw [tracks.span]; simp [totalSpan])
    obtain ⟨suffix, rows, span, fits, nonempty⟩ := spec
    simp only [if_pos usable]
    refine ⟨rows, span, ?_, fits, fun _ => nonempty (by simp), fun h member => ?_, fun _ => rfl, tracks.budget⟩
    · exact suffix.trans (by obtain ⟨before, whole⟩ := tracks.held; exact ⟨before, by rw [← whole, List.append_assoc]⟩)
    · rcases List.mem_append.mp member with old | new
      · exact tracks.usable h old
      · obtain rfl := List.mem_singleton.mp new
        exact usable
  · simp only [if_neg usable]
    exact tracks

theorem Run.Reach.tracks [Min V] [Max V] {maxSeconds : ℚ} {s : Run V A} (reach : Reach maxSeconds s) : s.Tracks := by
  refine Runs.Reach.invariant (I := Tracks) ?_ (fun s act s' tracks _ goes => ?_) reach
  · exact ⟨rfl, rfl, List.suffix_rfl, Or.inl (le_max_left ..), id, by simp, fun held => absurd rfl held, le_max_left ..⟩
  · cases act with
    | write g freqAxis =>
      obtain rfl := Option.some.inj goes
      exact write_tracks tracks g freqAxis
    | drain fromSample =>
      obtain rfl := Option.some.inj goes
      exact reset_tracks s tracks.budget
    | clear =>
      obtain rfl := Option.some.inj goes
      exact reset_tracks s tracks.budget

/-- Of one usable grid the wanted rows are those from the first row on. -/
theorem wantedRows_chunk {g : Chunk V} (usable : g.Usable) (fromSample : Option ℤ) {first : ℕ}
    (isFirst : (fromSample.elim 0 fun sample => firstRow sample g.chunkStart g.sliceSamples) = (first : ℤ)) :
    (g.rows.zipIdx.map fun r => ((g.chunkStart + r.2 * g.sliceSamples : ℤ), r.1)).filter
        (fun r => ∀ sample ∈ fromSample, sample ≤ r.1) =
      ((g.rows.drop first).zipIdx first).map fun r => ((g.chunkStart + r.2 * g.sliceSamples : ℤ), r.1) := by
  have cut := zipIdx_from g.rows first 0
  rw [Nat.zero_add] at cut
  rw [← cut, List.filter_map]
  congr 1
  refine List.filter_congr fun r _ => decide_eq_decide.mpr ?_
  cases fromSample with
  | none =>
    obtain rfl : first = 0 := by simpa using isFirst.symm
    simp
  | some sample =>
    have reaches : firstRow sample g.chunkStart g.sliceSamples ≤ r.2 ↔ _ := firstRow_le usable.2.2.2 r.2
    rw [Option.elim_some] at isFirst
    rw [isFirst] at reaches
    simpa using reaches.symm

theorem wantedRows_cons {g : Chunk V} {grids : List (Chunk V)} (fromSample : Option ℤ) :
    wantedRows fromSample (g :: grids) = wantedRows fromSample [g] ++ wantedRows fromSample grids := by
  simp [wantedRows, placedRows]

/-- The loop of `drain` adds the wanted rows, and sets the position once. -/
theorem foldl_drainChunk (fromSample : Option ℤ) {grids : List (Chunk V)} (usable : ∀ g ∈ grids, g.Usable)
    (kept : List (List (List V))) (start : ℤ) :
    (grids.foldl (drainChunk fromSample) (kept, start)).1.flatten =
        kept.flatten ++ (wantedRows fromSample grids).map Prod.snd ∧
      (grids.foldl (drainChunk fromSample) (kept, start)).2 =
        (if start < 0 then (((wantedRows fromSample grids).map Prod.fst).head?).getD start else start) ∧
      ((grids.foldl (drainChunk fromSample) (kept, start)).1 = [] ↔ kept = [] ∧ wantedRows fromSample grids = []) := by
  induction grids generalizing kept start with
  | nil => simp [wantedRows, placedRows]
  | cons g grids ih =>
    have here := usable g (List.mem_cons_self ..)
    have later := ih fun h member => usable h (List.mem_cons_of_mem g member)
    obtain ⟨first, isFirst⟩ : ∃ first : ℕ, (fromSample.elim 0 fun sample =>
        firstRow sample g.chunkStart g.sliceSamples) = (first : ℤ) := by
      refine Int.eq_ofNat_of_zero_le ?_
      cases fromSample with
      | none => exact le_rfl
      | some sample => exact firstRow_nonneg here.2.2.2
    have wanted : wantedRows fromSample [g] =
        ((g.rows.drop first).zipIdx first).map fun r => ((g.chunkStart + r.2 * g.sliceSamples : ℤ), r.1) := by
      rw [← wantedRows_chunk here fromSample isFirst]
      simp [wantedRows, placedRows]
    have drained : drainChunk fromSample (kept, start) g = if g.rows.length ≤ first then (kept, start) else
        (kept ++ [g.rows.drop first], if start < 0 then g.chunkStart + first * g.sliceSamples else start) := by
      simp only [drainChunk, isFirst, Nat.cast_le, Int.toNat_natCast]
    rw [wantedRows_cons, wanted, List.foldl_cons, drained]
    by_cases passed : g.rows.length ≤ first
    · rw [if_pos passed, List.drop_eq_nil_of_le passed]
      simpa using later kept start
    · rw [if_neg passed]
      obtain ⟨row, rest, isRest⟩ : ∃ row rest, g.rows.drop first = row :: rest :=
        List.exists_cons_of_ne_nil (List.ne_nil_of_length_pos (by rw [List.length_drop]; omega))
      have position : (0 : ℤ) ≤ g.chunkStart + first * g.sliceSamples := by
        have slice := here.2.2.2
        positivity
      obtain ⟨flat, at_, empty⟩ := later (kept ++ [g.rows.drop first])
        (if start < 0 then g.chunkStart + first * g.sliceSamples else start)
      rw [flat, at_, empty]
      refine ⟨?_, ?_, by simp [isRest]⟩
      · simp [List.map_map, Function.comp_def]
      · by_cases unset : start < 0
        · simp [unset, isRest, not_lt.mpr position]
        · simp [unset]

theorem drain_exact [Min V] [Max V] {s : Run V A} (tracks : s.Tracks) (fromSample : Option ℤ) :
    DrainsExactly s.buffer fromSample := by
  have usable : ∀ g ∈ s.buffer.grids, g.Usable := fun g member => tracks.usable g (tracks.held.subset member)
  obtain ⟨flat, at_, empty⟩ := foldl_drainChunk fromSample usable [] (-1)
  rw [List.flatten_nil, List.nil_append] at flat
  have isEmpty := empty.trans (and_iff_right rfl)
  refine ⟨rfl, ?_, fun roll drained => ?_⟩
  · unfold drain
    cases last : s.buffer.grids.getLast? with
    | none =>
      rw [List.getLast?_eq_none_iff.mp last]
      exact iff_of_true rfl rfl
    | some g =>
      obtain ⟨freqAxis, axis⟩ := Option.isSome_iff_exists.mp (tracks.axis (List.ne_nil_of_mem (List.mem_of_getLast? last)))
      simp only [axis, Option.bind_some, isEmpty, ite_eq_left_iff, reduceCtorEq, imp_false, not_not]
  · unfold drain at drained
    obtain ⟨last, -, bound⟩ := Option.bind_eq_some_iff.mp drained
    obtain ⟨freqAxis, -, made⟩ := Option.bind_eq_some_iff.mp bound
    obtain ⟨held, same⟩ := Option.ite_none_left_eq_some.mp made
    obtain rfl := Option.some.inj same
    dsimp only
    refine ⟨flat, ?_, ?_⟩
    · rw [← List.length_flatten, flat, List.length_map]
    · rw [at_, if_pos (by decide)]
      cases wanted : wantedRows fromSample s.buffer.grids with
      | nil => exact absurd (isEmpty.mpr wanted) held
      | cons r rest => rfl

/-- In every run of writes, drains and clears the totals and the grids held
track what was written and a drain is exact; a trim is exact for all numbers. -/
theorem Run.Reach.rows_exact [Min V] [Max V] {maxSeconds : ℚ} {s : Run V A} (reach : Reach maxSeconds s) :
    s.Tracks ∧ s.buffer.maxSeconds = max 0 maxSeconds ∧ (∀ fromSample, DrainsExactly s.buffer fromSample) ∧
      ∀ (grid : List (List V)) (chunkStart sliceSamples startSample endSample : ℤ),
        trimGridRows grid chunkStart sliceSamples startSample endSample =
          ((insideRows grid chunkStart sliceSamples startSample endSample).map Prod.fst,
            ((insideRows grid chunkStart sliceSamples startSample endSample).head?.map fun r =>
              chunkStart + r.2 * sliceSamples).getD (-1)) := by
  refine ⟨reach.tracks, ?_, fun fromSample => drain_exact reach.tracks fromSample, trimGridRows_eq⟩
  refine Runs.Reach.invariant (I := fun s => s.buffer.maxSeconds = max 0 maxSeconds) rfl
    (fun s act s' same _ goes => ?_) reach
  rw [← same]
  cases act with
  | write g freqAxis =>
    obtain rfl := Option.some.inj goes
    unfold write
    split_ifs
    · rfl
    · rfl
  | drain fromSample =>
    obtain rfl := Option.some.inj goes
    rfl
  | clear =>
    obtain rfl := Option.some.inj goes
    rfl

/-- A chunk of three rows of four samples, from sample 8 on. -/
def threeRows : Chunk ℤ := ⟨[[1], [2], [3]], 1, 8, 4⟩

/-- Of the rows at 8, 12 and 16 two are at or after sample 9. -/
theorem Run.Reach.rows_exact_three :
    (((GridPreBuffer.create 2 : GridPreBuffer ℤ ℤ).write threeRows [0]).drain (some 9)).1.map GridPreRoll.grids =
        some [[[2], [3]]] ∧
      DrainsExactly ((GridPreBuffer.create 2 : GridPreBuffer ℤ ℤ).write threeRows [0]) (some 9) := by
  have reach : Reach 2 (⟨(GridPreBuffer.create 2).write threeRows [0], [threeRows]⟩ : Run ℤ ℤ) := by
    have goes : step (⟨.create 2, []⟩ : Run ℤ ℤ) (.write threeRows [0]) =
        some ⟨(GridPreBuffer.create 2).write threeRows [0], [threeRows]⟩ :=
      congrArg some (congrArg (Run.mk _) (if_pos (by decide)))
    exact Runs.Reach.start.next trivial goes
  exact ⟨by decide +kernel, reach.rows_exact.2.2.1 (some 9)⟩

end Buffer
end RFObserver.PreRoll
