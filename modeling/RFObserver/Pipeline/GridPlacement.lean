import RFObserver.Pipeline.GridRecording

namespace RFObserver

variable {α β : Type*}

/-- The first row from `sample` on begins there or later, and no later than
it has to. -/
theorem firstRowFrom_le {sample chunkStart slice : Nat} (positive : 0 < slice) (i : Nat) :
    firstRowFrom sample chunkStart slice ≤ i ↔ sample ≤ chunkStart + i * slice := by
  unfold firstRowFrom
  split_ifs with before
  · rw [Nat.div_le_iff_le_mul_add_pred positive, Nat.mul_comm slice i]
    omega
  · omega

theorem firstRowFrom_reaches {sample chunkStart slice : Nat} (positive : 0 < slice) :
    sample ≤ chunkStart + firstRowFrom sample chunkStart slice * slice :=
  (firstRowFrom_le positive _).mp le_rfl

theorem firstRowFrom_zero {sample chunkStart slice : Nat} (after : sample ≤ chunkStart) :
    firstRowFrom sample chunkStart slice = 0 := if_neg (not_lt.mpr after)

theorem trimGridRows_spec {grid rows : List β} {chunkStart slice start stop first : Nat}
    (kept : trimGridRows grid chunkStart slice start stop = some (rows, first)) :
    ∃ j, firstRowFrom start chunkStart slice < j ∧ j ≤ grid.length ∧
      rows = (grid.take j).drop (firstRowFrom start chunkStart slice) ∧
      first = chunkStart + firstRowFrom start chunkStart slice * slice ∧ chunkStart + j * slice ≤ stop ∧
      (j = grid.length ∨ stop < chunkStart + grid.length * slice) := by
  unfold trimGridRows at kept
  split_ifs at kept with nothing
  simp only at kept
  split_ifs at kept with empty
  obtain ⟨positive, ordered⟩ : 0 < slice ∧ start < stop := by omega
  obtain ⟨rowsEq, firstEq⟩ := Prod.mk.inj (Option.some.inj kept)
  have rising := not_le.mp empty
  have last : min ((stop - chunkStart) / slice) grid.length * slice ≤ stop - chunkStart :=
    (Nat.mul_le_mul_right slice (Nat.min_le_left ..)).trans (Nat.div_mul_le_self ..)
  have inside : 0 < min ((stop - chunkStart) / slice) grid.length * slice := Nat.mul_pos (by omega) positive
  refine ⟨_, rising, Nat.min_le_right .., rowsEq.symm, firstEq.symm, by omega, ?_⟩
  by_cases whole : grid.length ≤ (stop - chunkStart) / slice
  · exact Or.inl (Nat.min_eq_right whole)
  · refine Or.inr ?_
    have := (Nat.div_lt_iff_lt_mul positive).mp (not_le.mp whole)
    omega

namespace GridRecorder
variable {psd : List α → β} {layout : GridLayout} {stream : List α}

/-- The rows are the PSDs of the stream's samples from `pos` on. -/
def RowsAt (psd : List α → β) (layout : GridLayout) (stream : List α) (rows : List β) (pos : Nat) : Prop :=
  ∀ (i : Nat) row, rows[i]? = some row → pos + (i + 1) * layout.sliceSamples ≤ stream.length ∧
    row = psd ((stream.drop (pos + i * layout.sliceSamples)).take layout.sliceSamples)

theorem RowsAt.append {a b : List β} {pos : Nat} (first : RowsAt psd layout stream a pos)
    (second : RowsAt psd layout stream b (pos + a.length * layout.sliceSamples)) :
    RowsAt psd layout stream (a ++ b) pos := by
  intro i row here
  by_cases early : i < a.length
  · rw [List.getElem?_append_left early] at here
    exact first i row here
  · rw [List.getElem?_append_right (by omega)] at here
    obtain ⟨within, same⟩ := second _ row here
    have place : a.length * layout.sliceSamples + (i - a.length) * layout.sliceSamples = i * layout.sliceSamples := by
      rw [← Nat.add_mul, Nat.add_sub_cancel' (by omega)]
    rw [Nat.add_assoc, place] at same
    rw [Nat.add_mul] at within ⊢
    exact ⟨by omega, same⟩

theorem RowsAt.grow {rows : List β} {pos : Nat} (at_ : RowsAt psd layout stream rows pos) (more : List α) :
    RowsAt psd layout (stream ++ more) rows pos := by
  intro i row here
  obtain ⟨within, same⟩ := at_ i row here
  rw [Nat.add_mul, Nat.one_mul] at within
  refine ⟨by rw [List.length_append, Nat.add_mul, Nat.one_mul]; omega, ?_⟩
  rw [List.drop_append_of_le_length (by omega), List.take_append_of_le_length (by rw [List.length_drop]; omega)]
  exact same

/-- The chunk's received samples stand in the stream where it says. -/
structure Arrived (layout : GridLayout) (stream : List α) (k : GridChunk α) : Prop where
  whole : k.buf.length = layout.chunkSamples
  part : k.received ≤ k.buf.length
  here : (stream.drop k.chunkStart).take k.received = k.buf.take k.received
  within : k.chunkStart + k.received ≤ stream.length

theorem Arrived.grow {k : GridChunk α} (arrived : Arrived layout stream k) (more : List α) :
    Arrived layout (stream ++ more) k where
  whole := arrived.whole
  part := arrived.part
  here := by
    have within := arrived.within
    rw [List.drop_append_of_le_length (by omega), List.take_append_of_le_length (by rw [List.length_drop]; omega)]
    exact arrived.here
  within := by
    have within := arrived.within
    rw [List.length_append]
    omega

theorem grid_length (psd : List α → β) {k : GridChunk α} (whole : k.buf.length = layout.chunkSamples) :
    (grid psd layout k).length = layout.chunkSlices := by
  rw [grid, List.length_map, List.length_range, whole, GridLayout.chunkSamples,
    Nat.mul_div_cancel _ layout.positive]

/-- Rows `i` up to `j` of a grid whose samples were received. -/
theorem Arrived.rowsAt (psd : List α → β) {k : GridChunk α} (arrived : Arrived layout stream k) {i j : Nat}
    (covered : j * layout.sliceSamples ≤ k.received) :
    RowsAt psd layout stream (((grid psd layout k).take j).drop i) (k.chunkStart + i * layout.sliceSamples) := by
  intro m row here
  rw [List.getElem?_drop, List.getElem?_take] at here
  split_ifs at here with inside
  have below : (i + m + 1) * layout.sliceSamples ≤ k.received := (Nat.mul_le_mul_right _ inside).trans covered
  rw [Nat.add_mul, Nat.add_mul, Nat.one_mul] at below
  have within := arrived.within
  refine ⟨by rw [Nat.add_mul, Nat.one_mul]; omega, ?_⟩
  rw [grid, List.getElem?_map] at here
  obtain ⟨n, found, rfl⟩ := Option.map_eq_some_iff.mp here
  obtain ⟨-, rfl⟩ := List.getElem?_eq_some_iff.mp found
  rw [List.getElem_range]
  congr 1
  have same := congrArg (fun l => (l.drop ((i + m) * layout.sliceSamples)).take layout.sliceSamples) arrived.here
  simp only [List.drop_take, List.take_take, List.drop_drop] at same
  rw [Nat.min_eq_left (by rw [Nat.add_mul]; omega)] at same
  rw [← same, Nat.add_mul, Nat.add_assoc]

/-- Stream position `start` lies between chunks on their way: none of them
reaches over it. -/
def Between (stream : List α) (pending : List (GridChunk α)) (start : Nat) : Prop :=
  start ≤ stream.length ∧ ∀ k ∈ pending, k.chunkStart < start → k.chunkStart + k.received ≤ start

/-- A buffered grid is that of a chunk that arrived. -/
def Buffered (psd : List α → β) (layout : GridLayout) (stream : List α) (g : BufferedGrid β) : Prop :=
  ∃ k, Arrived layout stream k ∧ g = ⟨grid psd layout k, layout.timeRes, k.chunkStart, layout.sliceSamples, k.received⟩

/-- The rows taken so far, the last of them from the chunk at `last`: they
reach its end unless the recording's end cuts them off there. -/
structure Taken (psd : List α → β) (layout : GridLayout) (c : GridRecorder α β) (first last : Nat) : Prop where
  rows : RowsAt psd layout c.stream c.rows first
  reach : first + c.rows.length * layout.sliceSamples = last + layout.chunkSamples ∨
    ∃ stop, c.endSample = some stop ∧ stop < last + layout.chunkSamples
  start : ∀ start, c.startSample = some start →
    start ≤ last + layout.chunkSamples ∨ Between c.stream c.pending start

structure Placing (psd : List α → β) (layout : GridLayout) (c : GridRecorder α β) : Prop where
  pending : ∀ k ∈ c.pending, Arrived layout c.stream k
  prebuf : ∀ g ∈ c.prebuf.grids, Buffered psd layout c.stream g
  newest : Between c.stream c.pending c.newest
  taken : (c.gridFirst = none ∧ c.lastChunk = none ∧ c.rows = []) ∨
    ∃ first last, c.gridFirst = some first ∧ c.lastChunk = some last ∧ Taken psd layout c first last

variable {c c' : GridRecorder α β}

theorem Buffered.grow {g : BufferedGrid β} (buffered : Buffered psd layout stream g) (more : List α) :
    Buffered psd layout (stream ++ more) g := by
  obtain ⟨k, arrived, rfl⟩ := buffered
  exact ⟨k, arrived.grow more, rfl⟩

theorem Between.fewer {pending fewer : List (GridChunk α)} {start : Nat} (between : Between stream pending start)
    (sub : ∀ k ∈ fewer, k ∈ pending) : Between stream fewer start :=
  ⟨between.1, fun k member => between.2 k (sub k member)⟩

theorem Between.receive {pending : List (GridChunk α)} {start : Nat} (between : Between stream pending start)
    (buf : List α) (n : Nat) (more : List α) :
    Between (stream ++ more) (pending ++ [⟨buf, n, stream.length⟩]) start := by
  obtain ⟨within, apart⟩ := between
  refine ⟨by rw [List.length_append]; omega, fun k member before => ?_⟩
  rcases List.mem_append.mp member with old | new
  · exact apart k old before
  · rw [List.mem_singleton] at new
    subst new
    exact absurd before (by simp only; omega)

theorem Placing.receive {buf : List α} {n : Nat} (placing : Placing psd layout c)
    (whole : buf.length = layout.chunkSamples) (part : n ≤ buf.length) :
    Placing psd layout { c with
      stream := c.stream ++ buf.take n
      newest := c.stream.length
      pending := c.pending ++ [⟨buf, n, c.stream.length⟩] } := by
  have size : (buf.take n).length = n := by rw [List.length_take]; omega
  refine ⟨fun k member => ?_, fun g member => (placing.prebuf g member).grow _, ?_, ?_⟩
  · rcases List.mem_append.mp member with old | new
    · exact (placing.pending k old).grow _
    · rw [List.mem_singleton] at new
      subst new
      refine ⟨whole, part, ?_, by rw [List.length_append, size]⟩
      rw [List.drop_left, List.take_of_length_le (by rw [size])]
  · refine ⟨by simp, fun k member before => ?_⟩
    rcases List.mem_append.mp member with old | new
    · exact (placing.pending k old).within
    · rw [List.mem_singleton] at new
      subst new
      exact absurd before (lt_irrefl _)
  · rcases placing.taken with none | ⟨first, last, firstEq, lastEq, taken⟩
    · exact Or.inl none
    · refine Or.inr ⟨first, last, firstEq, lastEq, taken.rows.grow _, taken.reach, fun start here => ?_⟩
      exact (taken.start start here).imp_right fun between => between.receive buf n _

/-- A step that takes no rows: chunks on their way may be gone, the end may
be fixed, and the file may be anchored at the newest chunk. -/
theorem Placing.again (placing : Placing psd layout c) (stream : c'.stream = c.stream)
    (fewer : ∀ k ∈ c'.pending, k ∈ c.pending) (prebuf : ∀ g ∈ c'.prebuf.grids, Buffered psd layout c.stream g)
    (newest : c'.newest = c.newest) (first : c'.gridFirst = c.gridFirst) (last : c'.lastChunk = c.lastChunk)
    (rows : c'.rows = c.rows) (ends : c'.endSample = c.endSample ∨ c.endSample = none)
    (begins : ∀ start, c'.startSample = some start → c.startSample = some start ∨ start = c.newest) :
    Placing psd layout c' := by
  refine ⟨?_, stream ▸ prebuf, ?_, ?_⟩
  · exact fun k member => stream ▸ placing.pending k (fewer k member)
  · rw [stream, newest]
    exact placing.newest.fewer fewer
  · rw [first, last, rows]
    rcases placing.taken with none | ⟨first', last', firstEq, lastEq, taken⟩
    · exact Or.inl none
    · refine Or.inr ⟨first', last', firstEq, lastEq, ?_, ?_, fun start here => ?_⟩
      · rw [stream, rows]
        exact taken.rows
      · rw [rows]
        rcases taken.reach with full | ⟨stop, old, cut⟩
        · exact Or.inl full
        · rcases ends with same | none
          · exact Or.inr ⟨stop, same.trans old, cut⟩
          · cases none.symm.trans old
      · rw [stream]
        rcases begins start here with old | rfl
        · exact (taken.start start old).imp_right fun between => between.fewer fewer
        · exact Or.inr (placing.newest.fewer fewer)

end GridRecorder

theorem GridPreBuffer.mem_trim {maxSeconds : ℚ} {grids : List (BufferedGrid β)} {g : BufferedGrid β}
    (member : g ∈ trim maxSeconds grids) : g ∈ grids := by
  induction grids with
  | nil => exact member
  | cons h grids ih =>
    cases grids with
    | nil => exact member
    | cons i grids =>
      rw [trim] at member
      split_ifs at member
      · exact List.mem_cons_of_mem _ (ih member)
      · exact member

theorem GridPreBuffer.mem_write {buffer : GridPreBuffer β} {g h : BufferedGrid β} (member : h ∈ (buffer.write g).grids) :
    h ∈ buffer.grids ∨ h = g := by
  unfold write at member
  split_ifs at member
  · exact Or.inl member
  · rcases List.mem_append.mp (mem_trim member) with old | new
    · exact Or.inl old
    · exact Or.inr (List.mem_singleton.mp new)

namespace GridRecorder
variable {psd : List α → β} {layout : GridLayout} {c c' : GridRecorder α β}

/-- The rows of a live grid the recording takes go on right where the rows
before them end. -/
theorem Placing.take {k : GridChunk α} {start first : Nat} {rows : List β} (placing : Placing psd layout c)
    (member : k ∈ c.pending) (begun : c.startSample = some start)
    (live : c.liveRows psd layout start k = some (rows, first))
    (next : ∀ last, c.lastChunk = some last → k.chunkStart = last + layout.chunkSamples)
    (covered : first + rows.length * layout.sliceSamples ≤ k.chunkStart + k.received) :
    Placing psd layout { c with
      rows := c.rows ++ rows
      gridFirst := c.gridFirst.or (some first)
      gridLast := first + rows.length * layout.sliceSamples
      lastChunk := some k.chunkStart } := by
  have arrived := placing.pending k member
  have positive := layout.positive
  have size := grid_length psd arrived.whole
  obtain ⟨j, above, below, rowsEq, firstEq, within, tail⟩ := trimGridRows_spec live
  have reaches : start ≤ k.chunkStart + firstRowFrom start k.chunkStart layout.sliceSamples * layout.sliceSamples :=
    firstRowFrom_reaches positive
  have head := @firstRowFrom_zero start k.chunkStart layout.sliceSamples
  obtain ⟨i, iEq⟩ : ∃ i, firstRowFrom start k.chunkStart layout.sliceSamples = i := ⟨_, rfl⟩
  rw [iEq] at above rowsEq firstEq reaches head
  have count : rows.length = j - i := by rw [rowsEq, List.length_drop, List.length_take]; omega
  have widths : i * layout.sliceSamples + (j - i) * layout.sliceSamples = j * layout.sliceSamples := by
    rw [← Nat.add_mul, Nat.add_sub_cancel' above.le]
  have some : 0 < (j - i) * layout.sliceSamples := Nat.mul_pos (by omega) positive
  have chunk : j * layout.sliceSamples ≤ layout.chunkSamples := Nat.mul_le_mul_right _ (size ▸ below)
  rw [count] at covered ⊢
  have new : RowsAt psd layout c.stream rows first := by
    rw [rowsEq, firstEq]
    exact arrived.rowsAt psd (by omega)
  have reach : first + (j - i) * layout.sliceSamples = k.chunkStart + layout.chunkSamples ∨
      ∃ stop, c.endSample = Option.some stop ∧ stop < k.chunkStart + layout.chunkSamples := by
    rcases tail with all | cut
    · left
      rw [all, size] at widths
      rw [GridLayout.chunkSamples, firstEq, all, size, Nat.add_assoc, widths]
    · right
      rw [size] at cut
      cases stop : c.endSample with
      | none => rw [stop] at cut; exact absurd cut (lt_irrefl _)
      | some stop' => rw [stop] at cut; exact ⟨stop', rfl, cut⟩
  have began : ∀ start', c.startSample = Option.some start' →
      start' ≤ k.chunkStart + layout.chunkSamples ∨ Between c.stream c.pending start' := by
    intro start' here
    obtain rfl := Option.some.inj (begun.symm.trans here)
    left
    omega
  refine ⟨placing.pending, placing.prebuf, placing.newest, Or.inr ?_⟩
  rcases placing.taken with ⟨noFirst, -, noRows⟩ | ⟨first', last, firstEq', lastEq, taken⟩
  · refine ⟨first, k.chunkStart, by rw [noFirst]; rfl, rfl, ?_, ?_, began⟩
    · rw [noRows]
      exact new
    · rw [noRows, List.nil_append, count]
      exact reach
  · have chunkStart := next last lastEq
    have onTime : start ≤ k.chunkStart := by
      rcases taken.start start begun with early | ⟨-, apart⟩
      · omega
      · by_contra late
        have := apart k member (by omega)
        omega
    have zero := head onTime
    have joins : first' + c.rows.length * layout.sliceSamples = first := by
      rcases taken.reach with full | ⟨stop, ends, before⟩
      · rw [full, ← chunkStart, firstEq, zero, Nat.zero_mul, Nat.add_zero]
      · rw [ends] at within
        simp only [Option.getD_some] at within
        omega
    refine ⟨first', k.chunkStart, by rw [firstEq']; rfl, rfl, taken.rows.append (joins.symm ▸ new), ?_, began⟩
    rw [List.length_append, count, Nat.add_mul, ← Nat.add_assoc, joins]
    exact reach

open GridPreBuffer

/-- The rows of one buffered grid from stream position `start` on. -/
theorem Buffered.rowsAt {g : BufferedGrid β} {start : Nat} (buffered : Buffered psd layout c.stream g)
    (reaches : firstRow start g < g.grid.length) (full : layout.chunkSamples ≤ g.received) :
    RowsAt psd layout c.stream (rowsFrom start g) (g.chunkStart + firstRow start g * layout.sliceSamples) ∧
      g.chunkStart + firstRow start g * layout.sliceSamples + (rowsFrom start g).length * layout.sliceSamples =
        g.chunkStart + layout.chunkSamples ∧
      start ≤ g.chunkStart + layout.chunkSamples := by
  obtain ⟨k, arrived, rfl⟩ := buffered
  have size := grid_length psd arrived.whole
  simp only at reaches full ⊢
  obtain ⟨i, iEq⟩ : ∃ i, firstRow start ⟨grid psd layout k, layout.timeRes, k.chunkStart, layout.sliceSamples,
    k.received⟩ = i := ⟨_, rfl⟩
  have before : start ≤ k.chunkStart + i * layout.sliceSamples := iEq ▸ firstRowFrom_reaches layout.positive
  simp only [rowsFrom, iEq] at reaches ⊢
  rw [size] at reaches
  have below : i * layout.sliceSamples ≤ layout.chunkSamples := Nat.mul_le_mul_right _ reaches.le
  refine ⟨?_, ?_, by omega⟩
  · have rows := arrived.rowsAt psd (i := i) (show layout.chunkSlices * layout.sliceSamples ≤ k.received from full)
    rwa [List.take_of_length_le size.le] at rows
  · rw [List.length_drop, size, Nat.add_assoc, ← Nat.add_mul, Nat.add_sub_cancel' reaches.le]
    rfl

/-- The rows of the grids a begin takes over follow each other. -/
theorem seeds_rowsAt {start : Nat} {g : BufferedGrid β} {gs : List (BufferedGrid β)}
    (each : ∀ h ∈ g :: gs, Buffered psd layout c.stream h ∧ firstRow start h < h.grid.length ∧
      layout.chunkSamples ≤ h.received)
    (chain : (g :: gs).IsChain fun g h => h.chunkStart = g.chunkStart + layout.chunkSamples) :
    RowsAt psd layout c.stream ((g :: gs).map (rowsFrom start)).flatten
        (g.chunkStart + firstRow start g * layout.sliceSamples) ∧
      ∃ last, (g :: gs).getLast? = some last ∧
        g.chunkStart + firstRow start g * layout.sliceSamples +
          ((g :: gs).map (rowsFrom start)).flatten.length * layout.sliceSamples =
          last.chunkStart + layout.chunkSamples ∧
        start ≤ last.chunkStart + layout.chunkSamples := by
  induction gs generalizing g with
  | nil =>
    obtain ⟨buffered, reaches, full⟩ := each g (List.mem_singleton.mpr rfl)
    obtain ⟨rows, ends, early⟩ := buffered.rowsAt reaches full
    simp only [List.map_cons, List.map_nil, List.flatten_cons, List.flatten_nil, List.append_nil]
    exact ⟨rows, g, rfl, ends, early⟩
  | cons h gs ih =>
    obtain ⟨buffered, reaches, full⟩ := each g (List.mem_cons_self ..)
    obtain ⟨rows, ends, early⟩ := buffered.rowsAt reaches full
    obtain ⟨next, later⟩ := List.isChain_cons_cons.mp chain
    obtain ⟨restRows, last, lastEq, restEnds, restEarly⟩ := ih (fun x member => each x (List.mem_cons_of_mem _ member)) later
    have first : firstRow start h = 0 := firstRowFrom_zero (next ▸ early)
    rw [first, Nat.zero_mul, Nat.add_zero, next, ← ends] at restRows restEnds
    refine ⟨?_, last, ?_, ?_, restEarly⟩
    · rw [List.map_cons, List.flatten_cons]
      exact rows.append restRows
    · rw [List.getLast?_cons_cons]
      exact lastEq
    · rw [List.map_cons, List.flatten_cons, List.length_append, Nat.add_mul, ← Nat.add_assoc]
      exact restEnds

theorem seedRoom_pos (disk : Bool) (written : Nat) {grids : Nat} (some : 0 < grids) : 0 < seedRoom disk written grids := by
  unfold seedRoom
  split_ifs <;> omega

/-- A begin whose pre-roll grids follow each other. -/
theorem Placing.begin {disk : Bool} {start written : Nat} (placing : Placing psd layout c)
    (chain : (c.seeds disk start written).IsChain fun g h => h.chunkStart = g.chunkStart + layout.chunkSamples)
    (full : ∀ g ∈ c.seeds disk start written, layout.chunkSamples ≤ g.received) :
    Placing psd layout (c.beginRecording layout disk start written) := by
  refine ⟨placing.pending, nofun, placing.newest, ?_⟩
  cases kept : reaching start c.prebuf.grids with
  | nil =>
    left
    simp [beginRecording, drain, seeds, kept]
  | cons g gs =>
    right
    have room := seedRoom_pos disk written (Nat.succ_pos gs.length)
    obtain ⟨room', roomEq⟩ := Nat.exists_eq_succ_of_ne_zero room.ne'
    have taken : c.seeds disk start written = g :: gs.take room' := by
      rw [seeds, kept, List.length_cons, roomEq, List.take_succ_cons]
    rw [taken] at chain full
    have each : ∀ h ∈ g :: gs.take room', Buffered psd layout c.stream h ∧ firstRow start h < h.grid.length ∧
        layout.chunkSamples ≤ h.received := by
      intro h member
      have inside : h ∈ reaching start c.prebuf.grids := by
        rw [kept]
        rcases List.mem_cons.mp member with rfl | rest
        · exact List.mem_cons_self ..
        · exact List.mem_cons_of_mem _ (List.mem_of_mem_take rest)
      obtain ⟨old, reaches⟩ := List.mem_filter.mp inside
      exact ⟨placing.prebuf h old, by simpa using reaches, full h member⟩
    obtain ⟨rows, last, lastEq, ends, early⟩ := seeds_rowsAt each chain
    have stored : (c.beginRecording layout disk start written).rows =
        ((g :: gs.take room').map (rowsFrom start)).flatten := by
      simp [beginRecording, drain, kept, roomEq, List.map_take]
    have firstEq : (c.beginRecording layout disk start written).gridFirst =
        some (g.chunkStart + firstRow start g * layout.sliceSamples) := by
      obtain ⟨k, -, same⟩ := (each g (List.mem_cons_self ..)).1
      simp [beginRecording, drain, kept, same]
    have chunkEq : (c.beginRecording layout disk start written).lastChunk = some last.chunkStart := by
      simp only [beginRecording, taken, lastEq, Option.map_some]
    refine ⟨_, _, firstEq, chunkEq, stored ▸ rows, Or.inl (stored ▸ ends), fun start' here => Or.inl ?_⟩
    simp only [beginRecording] at here
    split_ifs at here
    exact Option.some.inj here ▸ early

theorem Placing.handle {k : GridChunk α} {rest : List (GridChunk α)} {full : Bool} (placing : Placing psd layout c)
    (oldest : c.pending = k :: rest) (continues : Continues psd layout c (.handle full)) :
    Placing psd layout ({ c with pending := rest }.handleChunkResult psd layout full k) := by
  have fewer : ∀ h ∈ rest, h ∈ c.pending := fun h member => oldest ▸ List.mem_cons_of_mem _ member
  have member : k ∈ c.pending := oldest ▸ List.mem_cons_self ..
  unfold handleChunkResult
  split
  · rename_i start accepting begun
    split
    · exact placing.again rfl fewer placing.prebuf rfl rfl rfl rfl (Or.inl rfl) fun _ => Or.inl
    · rename_i rows first live
      split_ifs with refused
      · exact placing.again rfl fewer placing.prebuf rfl rfl rfl rfl (Or.inl rfl) fun _ => Or.inl
      · have takes : c.takes psd layout full = some (k, rows, first) := by
          simp only [GridRecorder.takes, oldest, show c.accepting = true from accepting,
            show c.startSample = some start from begun, if_neg refused,
            show c.liveRows psd layout start k = some (rows, first) from live, Option.map_some]
        obtain ⟨next, covered⟩ := continues _ takes
        have taken := placing.take member begun live next covered
        exact taken.again rfl fewer taken.prebuf rfl rfl rfl rfl (Or.inl rfl) fun _ => Or.inl
  · refine placing.again rfl fewer (fun g inside => ?_) rfl rfl rfl rfl (Or.inl rfl) fun _ => Or.inl
    rcases mem_write inside with old | rfl
    · exact placing.prebuf g old
    · exact ⟨k, placing.pending k member, rfl⟩

/-- A step that keeps the rows contiguous keeps them placed. -/
theorem Placing.step {a : Act α} (placing : Placing psd layout c) (continues : Continues psd layout c a)
    (goes : c.step psd layout a = some c') : Placing psd layout c' := by
  cases a with
  | receive buf n =>
    obtain ⟨⟨whole, part⟩, rfl⟩ := by simpa [GridRecorder.step] using goes
    exact placing.receive whole part
  | lose i =>
    obtain rfl := by simpa [GridRecorder.step] using goes
    exact placing.again rfl (fun k => List.mem_of_mem_eraseIdx) placing.prebuf rfl rfl rfl rfl (Or.inl rfl) fun _ => Or.inl
  | handle full =>
    simp only [GridRecorder.step] at goes
    split at goes
    · cases goes
    · rename_i k rest oldest
      obtain rfl := Option.some.inj goes
      exact placing.handle oldest continues
  | read n =>
    simp only [GridRecorder.step] at goes
    split_ifs at goes
    obtain rfl := Option.some.inj goes
    exact placing.again rfl (fun _ => id) placing.prebuf rfl rfl rfl rfl (Or.inl rfl) fun _ => Or.inl
  | begin disk =>
    obtain ⟨r, reading, rfl⟩ := Option.map_eq_some_iff.mp goes
    obtain ⟨chain, full⟩ := continues r reading
    exact placing.begin chain full
  | accept =>
    obtain ⟨-, rfl⟩ := by simpa [GridRecorder.step] using goes
    exact placing.again rfl (fun _ => id) placing.prebuf rfl rfl rfl rfl (Or.inl rfl) fun _ => Or.inl
  | firstChunk =>
    obtain ⟨-, rfl⟩ := by simpa [GridRecorder.step] using goes
    exact placing.again rfl (fun _ => id) placing.prebuf rfl rfl rfl rfl (Or.inl rfl)
      fun _ here => Or.inr (Option.some.inj here).symm
  | stop nextPos =>
    obtain ⟨⟨-, unfixed⟩, rfl⟩ := by simpa [GridRecorder.step] using goes
    exact placing.again rfl (fun _ => id) placing.prebuf rfl rfl rfl rfl (Or.inr unfixed) fun _ => Or.inl
  | finalize =>
    obtain ⟨-, rfl⟩ := by simpa [GridRecorder.step] using goes
    exact placing.again rfl (fun _ => id) placing.prebuf rfl rfl rfl rfl (Or.inl rfl) fun _ => Or.inl

theorem Placing.placed (placing : Placing psd layout c) : Placed psd layout c := by
  intro start begun k row here
  rcases placing.taken with ⟨-, -, none⟩ | ⟨first, last, firstEq, -, taken⟩
  · rw [none] at here
    cases here
  · obtain ⟨within, same⟩ := taken.rows k row here
    refine ⟨first + k * layout.sliceSamples, ?_, ?_, same⟩
    · simp only [startSampleOffset, firstEq, begun]
      push_cast
      omega
    · rw [Nat.add_mul, Nat.one_mul] at within
      omega

/-- In every run that misses no grid between two whose rows it takes, every
row is where the sidecar says. -/
theorem Reach.rows_placed {maxSeconds : ℚ} (reach : Reach psd layout maxSeconds (Continues psd layout) c) :
    Placed psd layout c := by
  have empty : Placing psd layout (create maxSeconds : GridRecorder α β) :=
    ⟨by simp [create], by simp [create], ⟨Nat.zero_le _, by simp [create]⟩, Or.inl ⟨rfl, rfl, rfl⟩⟩
  exact (reach.invariant empty fun _ _ _ placing continues goes => placing.step continues goes).placed

/-- One pre-roll grid and one live grid. -/
theorem Reach.rows_placed_preroll :
    let layout : GridLayout := ⟨1, 2, 1, by decide⟩
    ∃ c : GridRecorder ℕ (List ℕ), c.rows = [[1], [2], [3], [4]] ∧ Placed id layout c := by
  intro layout
  let acts : List (Act ℕ) := [.receive [1, 2] 2, .handle false, .read 2, .begin true, .accept,
    .receive [3, 4] 2, .handle false]
  let c : GridRecorder ℕ (List ℕ) := ⟨[1, 2, 3, 4], 2, [], ⟨10, []⟩, none, false, true, true, some 0, none, some 0, 4,
    [[1], [2], [3], [4]], 0, some 2⟩
  have meets : Runs.Meets (step id layout) (Continues id layout) (create 10) acts := by decide +kernel
  have goes : Runs.follow (step id layout) (create 10) acts = some c := by decide +kernel
  exact ⟨c, rfl, Reach.rows_placed (Runs.Reach.start.follow meets goes)⟩

/-- A chunk lost on the way to its grid: the rows after it follow the rows
before it without a place for its own. -/
theorem rows_placed_fails : ¬ ∀ (layout : GridLayout) (c : GridRecorder ℕ (List ℕ)),
    Reach id layout 10 (fun _ _ => True) c → Placed id layout c := by
  intro placed
  let layout : GridLayout := ⟨1, 2, 1, by decide⟩
  let acts : List (Act ℕ) := [.receive [1, 2] 2, .handle false, .read 2, .begin true, .accept,
    .receive [3, 4] 2, .lose 0, .receive [5, 6] 2, .handle false]
  let c : GridRecorder ℕ (List ℕ) := ⟨[1, 2, 3, 4, 5, 6], 4, [], ⟨10, []⟩, none, false, true, true, some 0, none,
    some 0, 6, [[1], [2], [5], [6]], 0, some 4⟩
  have goes : Runs.follow (step id layout) (create 10) acts = some c := by decide +kernel
  obtain ⟨p, place, -, row⟩ := placed layout c (.of_follow goes) 0 rfl 2 [5] rfl
  have two : (p : ℤ) = 2 := by simpa [startSampleOffset, c, layout] using place
  obtain rfl : p = 2 := by omega
  exact absurd row (by decide)

end GridRecorder
end RFObserver
