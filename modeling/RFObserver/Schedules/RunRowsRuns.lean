import RFObserver.Lib.Runs
import RFObserver.Schedules.RowPlaces

namespace RFObserver

variable {α : Type*}

section Placing
open RunCutter
variable {spec : RunSpec} {stamp : α → Nat} {start next : Nat} {c : RunCutter} {offered : List (Cell α)}
  {slice p first : Nat} {i offset last : ℤ} {placed all : List (Nat × PsdRow)} {row : PsdRow}
  {q : ReorderQueue PsdRow}

/-- Rows of one number are one row. -/
def Distinct (c : RunCutter) (offset last : ℤ) (slice : Nat) (all : List (Nat × PsdRow)) : Prop :=
  ∀ p row i p' row' i', (p, row) ∈ all → (p', row') ∈ all → p ≠ p' → Inside c slice p i → Inside c slice p' i' →
    rowNumber i offset slice < last → rowNumber i' offset slice < last →
    rowNumber i offset slice ≠ rowNumber i' offset slice

theorem numberedRows_append (running : Running spec stamp start next c offered) (inside : Inside c slice p i) (k : Nat)
    (v : PsdRow) : NumberedRows c offset last slice (placed ++ [(p, row)]) k v ↔
      NumberedRows c offset last slice placed k v ∨ ((k : ℤ) = rowNumber i offset slice ∧ (k : ℤ) < last ∧ v = row) := by
  constructor
  · rintro ⟨p', i', member, inside', number, fits⟩
    rcases List.mem_append.mp member with old | new
    · exact Or.inl ⟨p', i', old, inside', number, fits⟩
    · obtain ⟨rfl, rfl⟩ := Prod.mk.inj (List.mem_singleton.mp new)
      have index := (running.inside_iff.mp inside).2.2.symm.trans (running.inside_iff.mp inside').2.2
      cases Option.some.inj index
      exact Or.inr ⟨number, fits, rfl⟩
  · rintro (⟨p', i', member, inside', number, fits⟩ | ⟨number, fits, rfl⟩)
    · exact ⟨p', i', List.mem_append_left _ member, inside', number, fits⟩
    · exact ⟨p, i, List.mem_append_right _ (List.mem_singleton_self _), inside, number, fits⟩

theorem reserveHoles_holds {rows : Nat → PsdRow → Prop} {hole : Nat → Prop} (fill : PsdRow) (holes : List ℤ)
    (free : ∀ h ∈ holes, 0 ≤ h → hole h.toNat) (holds : q.Holds rows hole) :
    (holes.foldl (RunRows.reserveHole last fill) q).Holds rows hole := by
  induction holes generalizing q with
  | nil => exact holds
  | cons h holes ih =>
    refine ih (fun h' member => free h' (List.mem_cons_of_mem _ member)) ?_
    unfold RunRows.reserveHole
    split_ifs with fits
    · exact holds.reserve (free h (List.mem_cons_self ..) fits.1) fill
    · exact holds

theorem mem_holesBetween {prev r h : ℤ} : h ∈ holesBetween prev r ↔ prev < h ∧ h < r := by
  unfold holesBetween
  rw [List.mem_map]
  constructor
  · rintro ⟨n, member, rfl⟩
    rw [List.mem_range] at member
    omega
  · rintro ⟨above, below⟩
    exact ⟨(h - (prev + 1)).toNat, List.mem_range.mpr (by omega), by omega⟩

theorem placeRow_out (start : Nat) (fill : PsdRow) : (RunRows.placeRow c offset last slice start fill p row q).out = q.out := by
  have reserved : ∀ (holes : List ℤ) (q : ReorderQueue PsdRow),
      (holes.foldl (RunRows.reserveHole last fill) q).out = q.out := by
    intro holes
    induction holes with
    | nil => exact fun _ => rfl
    | cons h holes ih =>
      intro q
      rw [List.foldl_cons, ih]
      unfold RunRows.reserveHole ReorderQueue.reserve
      split_ifs <;> rfl
  have queued : ∀ (r : ℤ) (q : ReorderQueue PsdRow), (RunRows.queueRow last r row q).out = q.out := by
    intro r q
    unfold RunRows.queueRow ReorderQueue.put
    split_ifs <;> rfl
  unfold RunRows.placeRow
  split
  · rfl
  · dsimp only
    rw [queued]
    split_ifs
    · split
      · exact reserved _ _
      · rfl
    · rfl

theorem placeLoop_out (start : Nat) (fill : PsdRow) (pos : Nat) (rows : List PsdRow) :
    (RunRows.placeLoop c offset last slice start fill pos rows q).out = q.out := by
  induction rows generalizing pos q with
  | nil => rfl
  | cons row rows ih => exact (ih _).trans (placeRow_out start fill)

/-- A row inside the run goes under its number. -/
theorem queueRow_holds (running : Running spec stamp start next c offered) (positive : 0 < slice)
    (aligned : p % slice = first % slice) (inside : Inside c slice p i) (later : offset ≤ i)
    (fresh : ∀ p' row' i', (p', row') ∈ placed → Inside c slice p' i' → rowNumber i' offset slice < last →
      rowNumber i offset slice < last → rowNumber i' offset slice ≠ rowNumber i offset slice)
    (holds : q.Holds (NumberedRows c offset last slice placed) (ZeroFill c offset slice first)) :
    (RunRows.queueRow last (rowNumber i offset slice) row q).Holds
      (NumberedRows c offset last slice (placed ++ [(p, row)])) (ZeroFill c offset slice first) := by
  have nonneg : 0 ≤ rowNumber i offset slice := rowNumber_nonneg later
  unfold RunRows.queueRow
  by_cases fits : rowNumber i offset slice < last
  · rw [if_pos ⟨nonneg, fits⟩]
    have cast : ((rowNumber i offset slice).toNat : ℤ) = rowNumber i offset slice := Int.toNat_of_nonneg nonneg
    refine (holds.put ?_ ?_ row).mono (fun k v => ?_) fun _ fill => fill
    · rintro v ⟨p', i', member, inside', number, fits'⟩
      exact fresh p' v i' member inside' (by omega) fits (by omega)
    · intro filled
      exact running.zeroFill_free positive filled aligned inside cast
    · rw [numberedRows_append running inside]
      refine or_congr_right ?_
      constructor
      · rintro ⟨number, _, same⟩
        exact ⟨by omega, same⟩
      · rintro ⟨number, same⟩
        exact ⟨by omega, by omega, same⟩
  · rw [if_neg fun both => fits both.2]
    refine holds.mono (fun k v => ?_) fun _ fill => fill
    rw [numberedRows_append running inside]
    refine or_iff_left ?_
    rintro ⟨number, fits', -⟩
    omega

/-- One row goes under its number, and the zero fill before it is reserved. -/
theorem placeRow_holds (running : Running spec stamp start next c offered) (positive : 0 < slice)
    (aligned : p % slice = first % slice) (inside : Inside c slice p i) (later : offset ≤ i)
    (fresh : ∀ p' row' i', (p', row') ∈ placed → Inside c slice p' i' → rowNumber i' offset slice < last →
      rowNumber i offset slice < last → rowNumber i' offset slice ≠ rowNumber i offset slice)
    (fill : PsdRow) (holds : q.Holds (NumberedRows c offset last slice placed) (ZeroFill c offset slice first)) :
    (RunRows.placeRow c offset last slice start fill p row q).Holds
      (NumberedRows c offset last slice (placed ++ [(p, row)])) (ZeroFill c offset slice first) := by
  obtain ⟨after, within, index⟩ := running.inside_iff.mp inside
  unfold RunRows.placeRow
  rw [index]
  dsimp only
  refine queueRow_holds running positive aligned inside later fresh ?_
  split_ifs with before
  · obtain ⟨j, insideJ⟩ := running.inside_of positive (show start ≤ p - slice by omega)
      (show p - slice + slice ≤ _ by omega)
    rw [(running.inside_iff.mp insideJ).2.2]
    refine reserveHoles_holds fill _ (fun h member nonneg => ?_) holds
    obtain ⟨above, below⟩ := mem_holesBetween.mp member
    refine ⟨p - slice, i, j, ?_, insideJ, ?_, by omega, by omega⟩
    · rw [← aligned, ← Nat.mod_eq_sub_mod (by omega)]
    · rwa [Nat.sub_add_cancel (by omega)]
  · exact holds

theorem placeLoop_holds (running : Running spec stamp start next c offered) (positive : 0 < slice)
    (distinct : Distinct c offset last slice all) (fill : PsdRow) {pos : Nat} {rows : List PsdRow}
    (subset : placed ++ rowsFrom slice pos rows ⊆ all)
    (nodup : ((placed ++ rowsFrom slice pos rows).map Prod.fst).Nodup)
    (kept : ∀ x ∈ rowsFrom slice pos rows, x.1 % slice = first % slice ∧ ∃ i, Inside c slice x.1 i ∧ offset ≤ i)
    (holds : q.Holds (NumberedRows c offset last slice placed) (ZeroFill c offset slice first)) :
    (RunRows.placeLoop c offset last slice start fill pos rows q).Holds
      (NumberedRows c offset last slice (placed ++ rowsFrom slice pos rows)) (ZeroFill c offset slice first) := by
  induction rows generalizing pos placed q with
  | nil => simpa [rowsFrom, RunRows.placeLoop] using holds
  | cons row rows ih =>
    rw [rowsFrom, List.append_cons] at subset nodup ⊢
    obtain ⟨aligned, i, inside, later⟩ := kept (pos, row) (List.mem_cons_self ..)
    refine ih subset nodup (fun x member => kept x (List.mem_cons_of_mem _ member)) ?_
    refine placeRow_holds running positive aligned inside later (fun p' row' i' member inside' fits' fits => ?_) fill holds
    have inPlaced : (p', row') ∈ all := subset (List.mem_append_left _ (List.mem_append_left _ member))
    have here : (pos, row) ∈ all :=
      subset (List.mem_append_left _ (List.mem_append_right _ (List.mem_singleton_self _)))
    refine distinct p' row' i' pos row i inPlaced here ?_ inside' inside fits' fits
    rintro rfl
    rw [List.map_append, List.map_append] at nodup
    have split := (List.nodup_append.mp (List.nodup_append.mp nodup).1).2.2
    exact split p' (List.mem_map_of_mem member) p' (List.mem_singleton_self _) rfl

theorem RunCutter.Running.distinct (running : Running spec stamp start next c offered) (positive : 0 < slice)
    (noTies : NoTies c offset slice all) (aligned : ∀ x ∈ all, x.1 % slice = first % slice)
    (lastEq : (c.spec.nSamples - offset) / slice = last) : Distinct c offset last slice all := by
  intro p row i p' row' i' member member' other inside inside' fits fits'
  have same := (aligned _ member).trans (aligned _ member').symm
  rw [← lastEq] at fits fits'
  rcases Nat.lt_or_gt_of_ne other with less | more
  · exact (running.number_lt positive noTies member member' same less inside inside' fits).ne
  · exact (running.number_lt positive noTies member' member same.symm more inside' inside fits').ne'

/-- Up to where rows are kept, for the rows that the stream has passed. -/
theorem RunCutter.Running.stop (running : Running spec stamp start next c offered) :
    ∃ stop, (if c.done then c.streamEnd else some (start + c.spec.nSamples)) = some stop ∧
      ∀ p, p + slice ≤ next → (p + slice ≤ stop ↔
        p + slice ≤ start + (positions stamp (offered.take spec.nSamples)).length) := by
  by_cases done : c.done = true
  · exact ⟨_, by rw [if_pos done, running.streamEnd], fun _ _ => Iff.rfl⟩
  · obtain ⟨-, nextEq, length⟩ := running.awaits (by simpa using done)
    refine ⟨_, if_neg done, fun p passed => ?_⟩
    have short : (positions stamp offered).length ≤ offered.length := List.length_filterMap_le _ _
    rw [running.ofSpec, List.take_of_length_le length.le]
    omega

theorem placeRows_spec {a : RunRows} (running : Running spec stamp start next a.cutter offered)
    (firstChunk : a.firstChunk = some first) (positive : 0 < slice) {width : Nat} (wide : 0 < width)
    {grid : List PsdRow} (rowsWide : ∀ row ∈ grid, row.length = width) {chunkStart : Nat}
    (fed : chunkStart + grid.length * slice ≤ next) (aligned : chunkStart % slice = first % slice)
    (above : ∀ p i, start ≤ p → p % slice = first % slice → a.cutter.fileIndex p = some i →
      a.offsetFor first start slice ≤ i)
    (offsetEq : a.offsetFor first start slice = offset) (lastEq : a.lastRow offset slice = last)
    (nodup : ((placed ++ rowsFrom slice chunkStart grid).map Prod.fst).Nodup) :
    ∃ filler q, a.placeRows grid chunkStart slice = { a with gridOffset := some offset, filler := filler, queue := q } ∧
      q.out = a.queue.out ∧
      (Distinct a.cutter offset last slice (placed ++ rowsFrom slice chunkStart grid) →
        a.queue.Holds (NumberedRows a.cutter offset last slice placed) (ZeroFill a.cutter offset slice first) →
        q.Holds (NumberedRows a.cutter offset last slice (placed ++ rowsFrom slice chunkStart grid))
          (ZeroFill a.cutter offset slice first)) := by
  obtain ⟨stop, stopEq, stopIff⟩ := @RunCutter.Running.stop _ _ _ _ _ _ _ slice running
  have passed : ∀ {p row}, (p, row) ∈ rowsFrom slice chunkStart grid → p + slice ≤ next ∧ p % slice = first % slice := by
    intro p row member
    obtain ⟨j, here, rfl⟩ := mem_rowsFrom.mp member
    have inside := (List.getElem?_eq_some_iff.mp here).1
    have below : (j + 1) * slice ≤ grid.length * slice := Nat.mul_le_mul_right _ inside
    refine ⟨by rw [Nat.add_mul, Nat.one_mul] at below; omega, ?_⟩
    rw [Nat.add_mul_mod_self_right, aligned]
  -- a row that is not kept is not inside the run
  have outside : ∀ {kept : List (Nat × PsdRow)},
      (∀ p row, (p, row) ∈ kept ↔ (p, row) ∈ rowsFrom slice chunkStart grid ∧ start ≤ p ∧ p + slice ≤ stop) →
      ∀ k v, NumberedRows a.cutter offset last slice (placed ++ rowsFrom slice chunkStart grid) k v ↔
        NumberedRows a.cutter offset last slice (placed ++ kept) k v := by
    intro kept mem k v
    refine exists₂_congr fun p i => and_congr_left fun ⟨inside, _, _⟩ => ?_
    rw [List.mem_append, List.mem_append, mem]
    refine or_congr_right ⟨fun member => ⟨member, ?_⟩, And.left⟩
    obtain ⟨after, within, -⟩ := running.inside_iff.mp inside
    exact ⟨after, (stopIff p (passed member).1).mpr within⟩
  unfold RunRows.placeRows
  rw [running.streamStart, firstChunk]
  dsimp only
  rw [if_neg positive.ne', stopEq]
  dsimp only
  rw [offsetEq]
  cases trimmed : trimGridRows grid chunkStart slice start stop with
  | none =>
    refine ⟨a.filler, a.queue, rfl, rfl, fun _ holds => holds.mono (fun k v => ?_) fun _ fill => fill⟩
    have nothing : ∀ p row, (p, row) ∈ ([] : List (Nat × PsdRow)) ↔
        (p, row) ∈ rowsFrom slice chunkStart grid ∧ start ≤ p ∧ p + slice ≤ stop := by
      intro p row
      simp only [List.not_mem_nil, false_iff]
      exact fun ⟨member, ranged⟩ => not_mem_trimmed positive trimmed member ranged
    rw [outside nothing, List.append_nil]
  | some cut =>
    obtain ⟨rows, from_⟩ := cut
    have mem : ∀ p row, (p, row) ∈ rowsFrom slice from_ rows ↔
        (p, row) ∈ rowsFrom slice chunkStart grid ∧ start ≤ p ∧ p + slice ≤ stop :=
      fun p row => mem_trimmed positive trimmed
    dsimp only
    cases low : rows.flatten.min? with
    | none =>
      have flat : rows.flatten = [] := List.min?_eq_none_iff.mp low
      have empty : rowsFrom slice from_ rows = [] := by
        cases rows with
        | nil => rfl
        | cons row rest =>
          have here : (from_, row) ∈ rowsFrom slice chunkStart grid :=
            ((mem from_ row).mp (List.mem_cons_self ..)).1
          obtain ⟨j, at_j, -⟩ := mem_rowsFrom.mp here
          have length := rowsWide row (List.mem_of_getElem? at_j)
          rw [List.flatten_cons, List.append_eq_nil_iff] at flat
          rw [flat.1] at length
          exact absurd length (by simpa using wide.ne)
      refine ⟨a.filler, a.queue, rfl, rfl, fun _ holds => holds.mono (fun k v => ?_) fun _ fill => fill⟩
      rw [outside mem, empty, List.append_nil]
    | some low =>
      refine ⟨_, _, rfl, placeLoop_out .., fun distinct holds => ?_⟩
      have subset : placed ++ rowsFrom slice from_ rows ⊆ placed ++ rowsFrom slice chunkStart grid := by
        rintro ⟨p, row⟩ member
        rcases List.mem_append.mp member with old | new
        · exact List.mem_append_left _ old
        · exact List.mem_append_right _ ((mem p row).mp new).1
      have nodup' : ((placed ++ rowsFrom slice from_ rows).map Prod.fst).Nodup := by
        rw [List.map_append] at nodup ⊢
        obtain ⟨olds, -, apart⟩ := List.nodup_append.mp nodup
        refine List.nodup_append.mpr ⟨olds, (rowsFrom_rising positive _ _).imp Nat.ne_of_lt, fun p old p' new => ?_⟩
        obtain ⟨⟨q, row⟩, member, rfl⟩ := List.mem_map.mp new
        exact apart p old q (List.mem_map_of_mem ((mem q row).mp member).1)
      refine (placeLoop_holds running positive (lastEq ▸ distinct) _ subset nodup' ?_ (lastEq ▸ holds)).mono
        (fun k v => lastEq ▸ outside mem k v) fun _ fill => fill
      rintro ⟨p, row⟩ member
      obtain ⟨arrived, after, within⟩ := (mem p row).mp member
      obtain ⟨ends, alignedP⟩ := passed arrived
      obtain ⟨i, inside⟩ := running.inside_of positive after ((stopIff p ends).mp within)
      exact ⟨alignedP, i, inside, offsetEq ▸ above p i after alignedP (running.inside_iff.mp inside).2.2⟩

end Placing

namespace RunRows
variable {a : RunRows} {final accepts : Bool}

@[simp] theorem flushRows_queue : (a.flushRows final accepts).queue = a.flushed final := by
  unfold flushRows
  dsimp only
  split
  · split_ifs <;> rfl
  · rfl

@[simp] theorem flushRows_cutter : (a.flushRows final accepts).cutter = a.cutter := by
  unfold flushRows
  dsimp only
  split
  · split_ifs <;> rfl
  · rfl

@[simp] theorem flushRows_firstChunk : (a.flushRows final accepts).firstChunk = a.firstChunk := by
  unfold flushRows
  dsimp only
  split
  · split_ifs <;> rfl
  · rfl

@[simp] theorem flushRows_gridOffset : (a.flushRows final accepts).gridOffset = a.gridOffset := by
  unfold flushRows
  dsimp only
  split
  · split_ifs <;> rfl
  · rfl

@[simp] theorem flushRows_gridMeta : (a.flushRows final accepts).gridMeta = a.gridMeta := by
  unfold flushRows
  dsimp only
  split
  · split_ifs <;> rfl
  · rfl

@[simp] theorem flushRows_closed : (a.flushRows final accepts).closed = a.closed := by
  unfold flushRows
  dsimp only
  split
  · split_ifs <;> rfl
  · rfl

@[simp] theorem flushRows_lastRow : (a.flushRows final accepts).lastRow = a.lastRow := by
  funext offset slice
  rw [lastRow, flushRows_cutter]
  rfl

theorem flushed_out (a : RunRows) (final : Bool) : a.queue.out <+: (a.flushed final).out := by
  unfold flushed
  dsimp only
  split_ifs
  · exact (ReorderQueue.out_finish _ _).trans (ReorderQueue.out_drain _ _)
  · exact ReorderQueue.out_drain _ _

theorem flushed_empty (empty : a.queue = ReorderQueue.empty) : a.flushed final = ReorderQueue.empty := by
  unfold flushed
  rw [empty]
  cases final <;> rfl

/-- The writer has been handed what has left. -/
theorem flushRows_puts (told : a.puts.flatMap GridPut.rows = a.queue.out.map Prod.snd)
    (known : a.gridMeta = none → a.queue = ReorderQueue.empty) :
    (a.flushRows final accepts).puts.flatMap GridPut.rows = (a.flushed final).out.map Prod.snd := by
  obtain ⟨more, grown⟩ := flushed_out a final
  have left : (a.flushed final).out.drop a.queue.out.length = more := by
    rw [← grown, List.drop_left]
  unfold flushRows
  dsimp only
  rw [left, ← grown, List.map_append, ← told]
  split
  · by_cases none : more.map Prod.snd = []
    · rw [if_pos none, none, List.append_nil]
    · rw [if_neg none, List.flatMap_append, List.flatMap_singleton]
  · rename_i unset
    have empty := @flushed_empty _ final (known unset)
    rw [known unset, empty] at grown
    obtain rfl : more = [] := by simpa [ReorderQueue.empty] using grown
    rw [List.map_nil, List.append_nil]

end RunRows

/-- A run with the stream's chunks up to `next` and the rows that have come
for it since it began. -/
structure RowsRun where
  run : RunRows
  next : Nat
  arrived : List (Nat × PsdRow)

inductive RowsAct (α : Type*)
  | call (k : CutterCall α)
  | grid (g : PsdGrid) (chunkStart : Nat) (calOffsetDb : Option ℚ) (accepts : Bool)
  | close (accepts : Bool)

namespace RowsRun
open RunCutter

def start (spec : RunSpec) : RowsRun := ⟨RunRows.create spec, 0, []⟩

def step (slice : Nat) (s : RowsRun) : RowsAct α → Option RowsRun
  | .call k => some ⟨s.run.onCall k, k.next s.next, s.arrived⟩
  | .grid g chunkStart cal accepts => some ⟨s.run.onGrid g chunkStart slice cal accepts, s.next,
      if s.run.closed ∨ s.run.firstChunk = none then s.arrived else s.arrived ++ rowsFrom slice chunkStart g.grid⟩
  | .close accepts => some ⟨s.run.close accepts, s.next, s.arrived⟩

/-- A chunk's grid comes after the chunk, once, and the chunks share their
row boundaries. -/
structure GridDue (s : RowsRun) (slice width : Nat) (g : PsdGrid) (chunkStart : Nat) : Prop where
  fed : chunkStart + g.grid.length * slice ≤ s.next
  aligned : ∀ first ∈ s.run.firstChunk, chunkStart % slice = first % slice
  once : ∀ x ∈ s.arrived, x.1 < chunkStart ∨ chunkStart + g.grid.length * slice ≤ x.1
  wide : ∀ row ∈ g.grid, row.length = width

def Allowed (stamp : α → Nat) (slice width : Nat) (s : RowsRun) : RowsAct α → Prop
  | .call k => InStream stamp s.next [k]
  | .grid g chunkStart _ _ => GridDue s slice width g chunkStart
  | .close _ => True

/-- The rows of a closed run are neither lost nor misplaced. -/
structure Placed (a : RunRows) (slice : Nat) (arrived : List (Nat × PsdRow)) : Prop where
  numbered : a.queue.out.map Prod.fst = List.range a.queue.out.length
  handed : a.puts.flatMap GridPut.rows = a.queue.out.map Prod.snd
  own : ∀ p row i o, (p, row) ∈ arrived → Inside a.cutter slice p i → a.gridOffset = some o →
    rowNumber i o slice < a.lastRow o slice →
    ∃ k : Nat, (k : ℤ) = rowNumber i o slice ∧ a.queue.out[k]? = some (k, row)
  order : ∀ p row i p' row' i' o, (p, row) ∈ arrived → (p', row') ∈ arrived → Inside a.cutter slice p i →
    Inside a.cutter slice p' i' → a.gridOffset = some o → rowNumber i o slice < a.lastRow o slice →
    rowNumber i' o slice < a.lastRow o slice → p < p' → rowNumber i o slice < rowNumber i' o slice
  near : ∀ p row i o, (p, row) ∈ arrived → Inside a.cutter slice p i → a.gridOffset = some o →
    2 * |rowNumber i o slice * slice - (i - o)| ≤ slice

/-- A run that has not begun. -/
structure Waiting (spec : RunSpec) (s : RowsRun) : Prop where
  firstChunk : s.run.firstChunk = none
  unplaced : s.run.cutter.streamStart = none
  notStarted : s.run.cutter.started = false
  pending : s.run.cutter.done = false → s.run.cutter = RunCutter.create spec
  gridOffset : s.run.gridOffset = none
  queue : s.run.queue = ReorderQueue.empty
  puts : s.run.puts = []
  arrived : s.arrived = []
  notClosed : s.run.closed = false

/-- A run that has begun. -/
structure Begun (spec : RunSpec) (stamp : α → Nat) (slice : Nat) (s : RowsRun) (first start : Nat)
    (offered : List (Cell α)) : Prop where
  firstChunk : s.run.firstChunk = some first
  running : Running spec stamp start s.next s.run.cutter offered
  settled : ∀ x ∈ s.arrived, s.run.cutter.done = false → x.1 + slice ≤ s.next
  aligned : ∀ x ∈ s.arrived, x.1 % slice = first % slice
  nodup : (s.arrived.map Prod.fst).Nodup
  above : ∀ o, s.run.gridOffset = some o → ∀ p i, start ≤ p → p % slice = first % slice →
    s.run.cutter.fileIndex p = some i → o ≤ i
  unset : s.run.gridOffset = none → s.arrived = [] ∧ s.run.queue = ReorderQueue.empty
  untold : s.run.gridMeta = none → s.run.queue = ReorderQueue.empty
  told : s.run.puts.flatMap GridPut.rows = s.run.queue.out.map Prod.snd
  queue : ∀ o, s.run.gridOffset = some o → NoTies s.run.cutter o slice s.arrived →
    s.run.queue.Holds (NumberedRows s.run.cutter o (s.run.lastRow o slice) slice s.arrived)
      (ZeroFill s.run.cutter o slice first)
  notClosed : s.run.closed = false

variable {spec : RunSpec} {stamp : α → Nat} {slice width first start : Nat} {s s' : RowsRun}
  {offered more : List (Cell α)}

theorem Waiting.flushed (waiting : Waiting spec s) (final accepts : Bool) {a : RunRows}
    (queue : a.queue = s.run.queue) (puts : a.puts = s.run.puts) :
    (a.flushRows final accepts).queue = ReorderQueue.empty ∧ (a.flushRows final accepts).puts = [] := by
  have empty : a.flushed final = ReorderQueue.empty := RunRows.flushed_empty (queue.trans waiting.queue)
  refine ⟨RunRows.flushRows_queue.trans empty, ?_⟩
  unfold RunRows.flushRows
  rw [empty]
  split
  · simpa [ReorderQueue.empty] using puts.trans waiting.puts
  · exact puts.trans waiting.puts

/-- A call changes no more than the cutter and the run's first chunk. -/
theorem Waiting.idle (waiting : Waiting spec s) {c : RunCutter} (unplaced : c.streamStart = none)
    (notStarted : c.started = false) (pending : c.done = false → c = RunCutter.create spec) (next : Nat)
    (firstChunk : Option Nat) (none : firstChunk = none) :
    Waiting spec ⟨{ s.run with cutter := c, firstChunk := firstChunk }, next, s.arrived⟩ :=
  ⟨none, unplaced, notStarted, pending, waiting.gridOffset, waiting.queue, waiting.puts, waiting.arrived,
    waiting.notClosed⟩

/-- A run that has not begun, or that begins with this call. -/
theorem Waiting.call (waiting : Waiting spec s) {k : CutterCall α} (stream : InStream stamp s.next [k]) :
    Waiting spec ⟨s.run.onCall k, k.next s.next, s.arrived⟩ ∨
      ∃ first start offered, Begun spec stamp slice ⟨s.run.onCall k, k.next s.next, s.arrived⟩ first start offered := by
  have open_ : ¬ s.run.closed = true := by simp [waiting.notClosed]
  cases k with
  | endRun reason =>
    refine Or.inl ?_
    unfold RunRows.onCall
    rw [if_neg open_]
    refine waiting.idle ?_ ?_ ?_ _ _ waiting.firstChunk
    · change (s.run.cutter.endRun reason).streamStart = none
      unfold endRun
      split_ifs <;> exact waiting.unplaced
    · change (s.run.cutter.endRun reason).started = false
      unfold endRun
      split_ifs <;> exact waiting.notStarted
    · intro undone
      change (s.run.cutter.endRun reason).done = false at undone
      unfold endRun at undone
      split_ifs at undone with done
      rw [done] at undone
      cases undone
  | feed k =>
    unfold RunRows.onCall
    rw [if_neg open_]
    dsimp only
    by_cases done : s.run.cutter.done = true
    · rw [call_done done]
      refine Or.inl (waiting.idle waiting.unplaced waiting.notStarted waiting.pending _ _ ?_)
      rw [if_neg (by simp [waiting.notStarted])]
      exact waiting.firstChunk
    · rw [waiting.pending (by simpa using done)]
      rcases @begin_running _ spec _ _ _ stream with idle | ⟨start, offered, running⟩
      · rw [idle]
        refine Or.inl (waiting.idle rfl rfl (fun _ => rfl) _ _ ?_)
        rw [if_neg (by simp [RunCutter.create])]
        exact waiting.firstChunk
      · refine Or.inr ⟨k.chunkStart, start, offered, ?_⟩
        have started : ((RunCutter.create spec).call (.feed k)).1.started = true := by
          obtain ⟨before, c', books, same⟩ := running.books
          rw [same]
          exact books.started
        rw [if_pos ⟨waiting.firstChunk, started⟩]
        exact {
          firstChunk := rfl
          running := running
          settled := by simp [waiting.arrived]
          aligned := by simp [waiting.arrived]
          nodup := by simp [waiting.arrived]
          above := by simp [waiting.gridOffset]
          unset := fun _ => ⟨waiting.arrived, waiting.queue⟩
          untold := fun _ => waiting.queue
          told := by simp [waiting.puts, waiting.queue, ReorderQueue.empty]
          queue := by simp [waiting.gridOffset]
          notClosed := waiting.notClosed }

/-- A later call: the rows that came keep their places. -/
theorem Begun.call (begun : Begun spec stamp slice s first start offered) (positive : 0 < slice) {k : CutterCall α}
    (stream : InStream stamp s.next [k]) :
    ∃ more, Begun spec stamp slice ⟨s.run.onCall k, k.next s.next, s.arrived⟩ first start (offered ++ more) := by
  obtain ⟨more, later⟩ := begun.running.call stream
  have undone : (s.run.cutter.call k).1.done = false → s.run.cutter.done = false := by
    intro open_
    by_contra done
    rw [call_done (by simpa using done)] at open_
    exact done open_
  have onward : s.next ≤ k.next s.next := by
    cases k with
    | feed k => exact stream.1.trans (Nat.le_add_right _ _)
    | endRun reason => exact le_rfl
  have shape : s.run.onCall k = { s.run with cutter := (s.run.cutter.call k).1 } := by
    unfold RunRows.onCall
    rw [if_neg (by simp [begun.notClosed])]
    cases k with
    | feed k =>
      dsimp only
      rw [if_neg (by simp [begun.firstChunk])]
    | endRun reason => rfl
  have back : ∀ {p row i}, (p, row) ∈ s.arrived → Inside (s.run.cutter.call k).1 slice p i →
      Inside s.run.cutter slice p i := fun member inside =>
    begun.running.inside_back later positive (begun.settled _ member) inside
  have forth : ∀ {p i}, Inside s.run.cutter slice p i → Inside (s.run.cutter.call k).1 slice p i := fun inside =>
    begun.running.inside_grow later positive inside
  have sameSpec : (s.run.cutter.call k).1.spec = s.run.cutter.spec := later.ofSpec.trans begun.running.ofSpec.symm
  refine ⟨more, ?_⟩
  rw [shape]
  exact {
    firstChunk := begun.firstChunk
    running := later
    settled := fun x member open_ => (begun.settled x member (undone open_)).trans onward
    aligned := begun.aligned
    nodup := begun.nodup
    above := by
      intro o placed p i after aligned index
      have before : s.run.cutter.fileIndex p = some (p - start + StepFunction.value 0 s.run.cutter.breaks p : ℤ) := by
        rw [fileIndex, begun.running.streamStart]
        rfl
      exact (begun.above o placed p _ after aligned before).trans (begun.running.fileIndex_le later before index)
    unset := begun.unset
    untold := begun.untold
    told := begun.told
    queue := by
      intro o placed noTies
      have noTies' : NoTies s.run.cutter o slice s.arrived :=
        fun p row row' i i' m member member' inside inside' odd half next =>
          sameSpec ▸ noTies p row row' i i' m member member' (forth inside) (forth inside') odd half next
      refine (begun.queue o placed noTies').mono (fun k' v => ?_) ?_
      · change NumberedRows _ o ((_ - o) / slice) slice _ k' v ↔ NumberedRows _ o ((_ - o) / slice) slice _ k' v
        rw [sameSpec]
        exact exists₂_congr fun p i => and_congr_right fun member =>
          and_congr_left' ⟨back member, forth⟩
      · rintro k' ⟨p, i, j, aligned, insideJ, insideI, number⟩
        exact ⟨p, i, j, aligned, forth insideJ, forth insideI, number⟩
    notClosed := begun.notClosed }

/-- The first row boundary is not after any row that lies inside. -/
theorem firstBoundary_le {p : Nat} (after : start ≤ p) (aligned : p % slice = first % slice) :
    RunRows.firstBoundary first start slice ≤ p := by
  have rest : ((first : ℤ) + -(((first : ℤ) - start) / slice) * slice) = start + ((first : ℤ) - start) % slice := by
    have split := Int.emod_add_mul_ediv ((first : ℤ) - start) slice
    linarith
  have same : ((p : ℤ) - start) % slice = ((first : ℤ) - start) % slice := by
    have congruent : (p : ℤ) % slice = (first : ℤ) % slice := by exact_mod_cast aligned
    rw [Int.sub_emod, congruent, ← Int.sub_emod]
  have small : ((p : ℤ) - start) % slice ≤ (p : ℤ) - start := by
    rw [← Nat.cast_sub after]
    exact_mod_cast Nat.mod_le _ _
  unfold RunRows.firstBoundary
  rw [rest, ← same]
  omega

/-- A chunk's rows come for a run that has begun. -/
theorem Begun.grid (begun : Begun spec stamp slice s first start offered) (positive : 0 < slice) (wide : 0 < width)
    {g : PsdGrid} {chunkStart : Nat} (due : GridDue s slice width g chunkStart) (cal : Option ℚ) (accepts : Bool) :
    Begun spec stamp slice ⟨s.run.onGrid g chunkStart slice cal accepts, s.next,
      if s.run.closed ∨ s.run.firstChunk = none then s.arrived else s.arrived ++ rowsFrom slice chunkStart g.grid⟩
      first start offered := by
  have running := begun.running
  have aligned := due.aligned first begun.firstChunk
  have ranged : ∀ x ∈ rowsFrom slice chunkStart g.grid,
      x.1 % slice = first % slice ∧ chunkStart ≤ x.1 ∧ x.1 + slice ≤ chunkStart + g.grid.length * slice := by
    rintro ⟨p, row⟩ member
    obtain ⟨j, here, rfl⟩ := mem_rowsFrom.mp member
    have inside := (List.getElem?_eq_some_iff.mp here).1
    have below : (j + 1) * slice ≤ g.grid.length * slice := Nat.mul_le_mul_right _ inside
    rw [Nat.add_mul, Nat.one_mul] at below
    exact ⟨by rw [Nat.add_mul_mod_self_right, aligned], Nat.le_add_right _ _, by dsimp only; omega⟩
  have nodup : ((s.arrived ++ rowsFrom slice chunkStart g.grid).map Prod.fst).Nodup := by
    rw [List.map_append]
    refine List.nodup_append.mpr ⟨begun.nodup, (rowsFrom_rising positive _ _).imp Nat.ne_of_lt, ?_⟩
    rintro _ old _ new rfl
    obtain ⟨x, member, rfl⟩ := List.mem_map.mp old
    obtain ⟨y, member', same⟩ := List.mem_map.mp new
    have := ranged y member'
    have := due.once x member
    omega
  have alignedAll : ∀ x ∈ s.arrived ++ rowsFrom slice chunkStart g.grid, x.1 % slice = first % slice := by
    intro x member
    rcases List.mem_append.mp member with old | new
    · exact begun.aligned x old
    · exact (ranged x new).1
  generalize seenEq : ({ s.run with
      gridSeen := max s.run.gridSeen (chunkStart + g.grid.length * slice)
      gridMeta := some (s.run.gridMeta.getD ⟨g.freqAxis, g.timeRes, slice, cal⟩) } : RunRows) = seen
  have cutter : seen.cutter = s.run.cutter := by rw [← seenEq]
  have queue : seen.queue = s.run.queue := by rw [← seenEq]
  have gridOffset : seen.gridOffset = s.run.gridOffset := by rw [← seenEq]
  have above : ∀ p i, start ≤ p → p % slice = first % slice → seen.cutter.fileIndex p = some i →
      seen.offsetFor first start slice ≤ i := by
    intro p i after alignedP index
    unfold RunRows.offsetFor
    rw [cutter] at index ⊢
    rw [gridOffset]
    cases placed : s.run.gridOffset with
    | some o => exact begun.above o placed p i after alignedP index
    | none =>
      have boundary : s.run.cutter.fileIndex (RunRows.firstBoundary first start slice) = some
          ((RunRows.firstBoundary first start slice : Nat) - start +
            StepFunction.value 0 s.run.cutter.breaks (RunRows.firstBoundary first start slice) : ℤ) := by
        rw [fileIndex, running.streamStart]
        rfl
      rw [boundary, Option.getD_none, Option.getD_some]
      rcases Nat.eq_or_lt_of_le (firstBoundary_le after alignedP) with same | less
      · rw [same] at boundary ⊢
        exact (Option.some.inj (boundary.symm.trans index)).le
      · have := running.fileIndex_mono less boundary index
        omega
  obtain ⟨filler, q, shape, out, holds⟩ := placeRows_spec (cutter ▸ running) (by rw [← seenEq]; exact begun.firstChunk)
    positive wide due.wide due.fed aligned above rfl rfl nodup
  have onGrid : s.run.onGrid g chunkStart slice cal accepts = ({ seen with
      gridOffset := some (seen.offsetFor first start slice), filler := filler, queue := q } : RunRows).flushRows
        false accepts := by
    unfold RunRows.onGrid
    rw [if_neg (by simp [begun.notClosed])]
    dsimp only
    rw [seenEq, shape]
  have gridMeta : seen.gridMeta ≠ none := by
    rw [← seenEq]
    exact Option.some_ne_none _
  have sameLast : s.run.lastRow = seen.lastRow := by rw [← seenEq]; rfl
  rw [onGrid, if_neg (by simp [begun.notClosed, begun.firstChunk])]
  exact {
    firstChunk := by
      rw [RunRows.flushRows_firstChunk, ← seenEq]
      exact begun.firstChunk
    running := by
      rw [RunRows.flushRows_cutter]
      exact cutter ▸ running
    settled := by
      intro x member open_
      rw [RunRows.flushRows_cutter] at open_
      rcases List.mem_append.mp member with old | new
      · exact begun.settled x old (by rw [← cutter]; exact open_)
      · exact (ranged x new).2.2.trans due.fed
    aligned := alignedAll
    nodup := nodup
    above := by
      intro o placed
      rw [RunRows.flushRows_gridOffset] at placed
      rw [RunRows.flushRows_cutter, ← Option.some.inj placed]
      exact above
    unset := by
      intro none
      rw [RunRows.flushRows_gridOffset] at none
      cases none
    untold := by
      intro none
      rw [RunRows.flushRows_gridMeta] at none
      exact absurd none gridMeta
    told := by
      rw [RunRows.flushRows_queue]
      refine RunRows.flushRows_puts ?_ fun none => absurd none gridMeta
      change seen.puts.flatMap GridPut.rows = q.out.map Prod.snd
      rw [out, queue, ← begun.told, ← seenEq]
    queue := by
      intro o placed noTies
      rw [RunRows.flushRows_gridOffset] at placed
      obtain rfl := Option.some.inj placed
      rw [RunRows.flushRows_cutter] at noTies
      rw [RunRows.flushRows_cutter, RunRows.flushRows_queue, RunRows.flushRows_lastRow]
      refine ReorderQueue.Holds.drain (holds (cutter ▸ running.distinct positive (cutter ▸ noTies) alignedAll ?_) ?_) _
      · rw [← cutter]
        rfl
      · rw [queue, cutter]
        cases placed : s.run.gridOffset with
        | some o =>
          have same : seen.offsetFor first start slice = o := by
            rw [RunRows.offsetFor, gridOffset, placed]
            rfl
          rw [same] at noTies ⊢
          rw [← sameLast]
          refine begun.queue o placed fun p row row' i i' m member member' => ?_
          rw [← cutter]
          exact noTies p row row' i i' m (List.mem_append_left _ member) (List.mem_append_left _ member')
        | none =>
          obtain ⟨arrived, empty⟩ := begun.unset placed
          rw [arrived, empty]
          refine ReorderQueue.holds_empty.mono (fun k v => ?_) fun _ fill => fill
          simp [NumberedRows]
    notClosed := by
      rw [RunRows.flushRows_closed, ← seenEq]
      exact begun.notClosed }

/-- Two rows that tie have one number. -/
theorem Placed.noTies (positive : 0 < slice) {a : RunRows} {arrived : List (Nat × PsdRow)} (placed : Placed a slice arrived)
    (o : ℤ) (offset : a.gridOffset = some o) : NoTies a.cutter o slice arrived := by
  intro p row row' i i' m member member' inside inside' odd half next
  by_contra fits
  have number := rowNumber_of_half m positive half odd
  have same := (rowNumber_eq_iff positive next.ge).mpr ⟨m, odd, half, next⟩
  have within : rowNumber i o slice < a.lastRow o slice := by
    rw [number, RunRows.lastRow, Int.lt_iff_add_one_le, Int.le_ediv_iff_mul_le (by exact_mod_cast positive)]
    linarith
  have less := placed.order p row i _ row' i' o member member' inside inside' offset within (same ▸ within) (by omega)
  exact less.ne same

/-- Nothing came for a run that has not begun. -/
theorem placed_nothing {a : RunRows} (queue : a.queue = ReorderQueue.empty) (puts : a.puts = []) :
    Placed a slice [] where
  numbered := by rw [queue]; rfl
  handed := by rw [queue, puts]; rfl
  own := by simp
  order := by simp
  near := by simp

/-- At the close of a run without ties every row has its own place. -/
theorem Begun.placed (begun : Begun spec stamp slice s first start offered) (positive : 0 < slice) (accepts : Bool)
    (noTies : ∀ o, s.run.gridOffset = some o → NoTies s.run.cutter o slice s.arrived) :
    Placed { s.run.flushRows true accepts with closed := true } slice s.arrived := by
  have told := @RunRows.flushRows_puts _ true accepts begun.told begun.untold
  cases placed : s.run.gridOffset with
  | none =>
    obtain ⟨arrived, empty⟩ := begun.unset placed
    have left := @RunRows.flushed_empty _ true empty
    rw [arrived]
    rw [left] at told
    refine ⟨?_, ?_, by simp, by simp, by simp⟩
    · dsimp only
      rw [RunRows.flushRows_queue, left]
      rfl
    · dsimp only
      rw [RunRows.flushRows_queue, left]
      exact told
  | some o =>
    obtain ⟨done, nothing⟩ := (begun.queue o placed (noTies o placed)).finish s.run.fillRow
    have left : s.run.flushed true = s.run.queue.finish s.run.fillRow := ReorderQueue.drain_empty nothing _
    have running := begun.running
    refine ⟨?_, ?_, ?_, ?_, ?_⟩
    · dsimp only
      rw [RunRows.flushRows_queue, left, done.length]
      exact done.numbered
    · dsimp only
      rw [RunRows.flushRows_queue]
      exact told
    · intro p row i o' member inside offset fits
      dsimp only at inside offset fits ⊢
      rw [RunRows.flushRows_cutter] at inside
      rw [RunRows.flushRows_gridOffset, placed] at offset
      obtain rfl := Option.some.inj offset
      obtain ⟨after, -, index⟩ := running.inside_iff.mp inside
      have nonneg : 0 ≤ rowNumber i o slice :=
        rowNumber_nonneg (begun.above o placed p i after (begun.aligned _ member) index)
      have cast : ((rowNumber i o slice).toNat : ℤ) = rowNumber i o slice := Int.toNat_of_nonneg nonneg
      refine ⟨(rowNumber i o slice).toNat, cast, ?_⟩
      rw [RunRows.flushRows_queue, left]
      have fits' : rowNumber i o slice < s.run.lastRow o slice := by
        rw [← @RunRows.flushRows_lastRow s.run true accepts]
        exact fits
      refine (done.kept _ row ⟨p, i, member, inside, cast, by rw [cast]; exact fits'⟩).resolve_right fun held => ?_
      rw [nothing] at held
      cases held
    · intro p row i p' row' i' o' member member' inside inside' offset fits fits' less
      dsimp only at inside inside' offset
      rw [RunRows.flushRows_cutter] at inside inside'
      rw [RunRows.flushRows_gridOffset, placed] at offset
      obtain rfl := Option.some.inj offset
      refine running.number_lt positive (noTies o placed) member member'
        ((begun.aligned _ member).trans (begun.aligned _ member').symm) less inside inside' ?_
      have last : s.run.lastRow o slice = (s.run.cutter.spec.nSamples - o) / slice := rfl
      rw [← last, ← @RunRows.flushRows_lastRow s.run true accepts]
      exact fits
    · intro p row i o' member inside offset
      exact rowNumber_near positive i o'

theorem Waiting.grid (waiting : Waiting spec s) (g : PsdGrid) (chunkStart : Nat) (cal : Option ℚ) (accepts : Bool) :
    Waiting spec ⟨s.run.onGrid g chunkStart slice cal accepts, s.next,
      if s.run.closed ∨ s.run.firstChunk = none then s.arrived else s.arrived ++ rowsFrom slice chunkStart g.grid⟩ := by
  have same : ∀ a : RunRows, a.cutter = s.run.cutter → a.placeRows g.grid chunkStart slice = a := by
    intro a cutter
    unfold RunRows.placeRows
    rw [cutter, waiting.unplaced]
  have open_ : ¬ s.run.closed = true := by simp [waiting.notClosed]
  rw [if_pos (Or.inr waiting.firstChunk)]
  unfold RunRows.onGrid
  rw [if_neg open_]
  generalize seenEq : ({ s.run with
      gridSeen := max s.run.gridSeen (chunkStart + g.grid.length * slice)
      gridMeta := some (s.run.gridMeta.getD ⟨g.freqAxis, g.timeRes, slice, cal⟩) } : RunRows) = seen
  have cutter : seen.cutter = s.run.cutter := by rw [← seenEq]
  dsimp only
  rw [same seen cutter]
  obtain ⟨queue, puts⟩ := waiting.flushed false accepts (show seen.queue = s.run.queue by rw [← seenEq])
    (show seen.puts = s.run.puts by rw [← seenEq])
  exact {
    firstChunk := by
      rw [RunRows.flushRows_firstChunk, ← seenEq]
      exact waiting.firstChunk
    unplaced := by
      rw [RunRows.flushRows_cutter, cutter]
      exact waiting.unplaced
    notStarted := by
      rw [RunRows.flushRows_cutter, cutter]
      exact waiting.notStarted
    pending := by
      rw [RunRows.flushRows_cutter, cutter]
      exact waiting.pending
    gridOffset := by
      rw [RunRows.flushRows_gridOffset, ← seenEq]
      exact waiting.gridOffset
    queue := queue
    puts := puts
    arrived := waiting.arrived
    notClosed := by
      rw [RunRows.flushRows_closed, ← seenEq]
      exact waiting.notClosed }

/-- A run in progress, or closed with its rows in place as far as none tie. -/
def Sound (spec : RunSpec) (stamp : α → Nat) (slice : Nat) (s : RowsRun) : Prop :=
  (Waiting spec s ∨ ∃ first start offered, Begun spec stamp slice s first start offered) ∨
    (s.run.closed = true ∧
      (Placed s.run slice s.arrived ↔ ∀ o, s.run.gridOffset = some o → NoTies s.run.cutter o slice s.arrived))

/-- Nothing happens to a closed run. -/
theorem step_closed (closed : s.run.closed = true) {act : RowsAct α} (taken : step slice s act = some s') :
    s'.run = s.run ∧ s'.arrived = s.arrived := by
  cases act with
  | call k =>
    cases taken
    exact ⟨if_pos closed, rfl⟩
  | grid g chunkStart cal accepts =>
    cases taken
    exact ⟨if_pos closed, if_pos (Or.inl closed)⟩
  | close accepts =>
    cases taken
    exact ⟨if_pos closed, rfl⟩

theorem Sound.step (sound : Sound spec stamp slice s) (positive : 0 < slice) (wide : 0 < width) {act : RowsAct α}
    (allowed : Allowed stamp slice width s act) (taken : RowsRun.step slice s act = some s') :
    Sound spec stamp slice s' := by
  rcases sound with active | ⟨closed, settled⟩
  · cases act with
    | call k =>
      cases taken
      rcases active with waiting | ⟨first, start, offered, begun⟩
      · exact Or.inl (waiting.call allowed)
      · obtain ⟨more, later⟩ := begun.call positive allowed
        exact Or.inl (Or.inr ⟨first, start, _, later⟩)
    | grid g chunkStart cal accepts =>
      cases taken
      rcases active with waiting | ⟨first, start, offered, begun⟩
      · exact Or.inl (Or.inl (waiting.grid g chunkStart cal accepts))
      · exact Or.inl (Or.inr ⟨first, start, offered, begun.grid positive wide allowed cal accepts⟩)
    | close accepts =>
      cases taken
      have open_ : ¬ s.run.closed = true := by
        rcases active with waiting | ⟨_, _, _, begun⟩
        · simp [waiting.notClosed]
        · simp [begun.notClosed]
      have shape : s.run.close accepts = { s.run.flushRows true accepts with closed := true } := if_neg open_
      refine Or.inr ⟨by rw [shape], fun placed => placed.noTies positive, fun noTies => ?_⟩
      dsimp only at noTies ⊢
      rw [shape] at noTies ⊢
      dsimp only at noTies
      rw [RunRows.flushRows_gridOffset, RunRows.flushRows_cutter] at noTies
      rcases active with waiting | ⟨first, start, offered, begun⟩
      · obtain ⟨queue, puts⟩ := @Waiting.flushed _ _ waiting true accepts _ rfl rfl
        rw [waiting.arrived]
        exact placed_nothing queue puts
      · exact begun.placed positive accepts noTies
  · obtain ⟨run, arrived⟩ := step_closed closed taken
    refine Or.inr ?_
    rw [run, arrived]
    exact ⟨closed, settled⟩

/-- A scheduled run's PSD rows are neither lost nor misplaced, in whatever
order its chunks' grids come, if and only if no two of them tie. -/
theorem Reach.rows_placed_iff (positive : 0 < slice) (wide : 0 < width)
    (reach : Runs.Reach (step slice) (RowsRun.start spec) (Allowed stamp slice width) s) (closed : s.run.closed = true) :
    Placed s.run slice s.arrived ↔ ∀ o, s.run.gridOffset = some o → NoTies s.run.cutter o slice s.arrived := by
  have sound : Sound spec stamp slice s :=
    reach.invariant (I := Sound spec stamp slice) (Or.inl (Or.inl ⟨rfl, rfl, rfl, fun _ => rfl, rfl, rfl, rfl, rfl, rfl⟩))
      fun _ _ _ holds allowed taken => holds.step positive wide allowed taken
  rcases sound with (waiting | ⟨_, _, _, begun⟩) | ⟨-, settled⟩
  · rw [waiting.notClosed] at closed
    cases closed
  · rw [begun.notClosed] at closed
    cases closed
  · exact settled

section Example

/-- Six samples with rows of two: those from `lost` on are pushed out by one
lost sample, or by none. -/
def shortRun (gaps : LossyStream.Gaps) : RowsRun :=
  let begun := (RunRows.create ⟨"s", 0, 0, 8, 1000, 100, ""⟩).onCall (.feed ⟨[0, 1, 2, 3, 4, 5], 0, 0, gaps, 100, none⟩)
  let gridded := begun.onGrid ⟨[[1], [2], [3]], [0], [0, 1, 2]⟩ 0 2 none true
  ⟨(gridded.onCall (.endRun "stopped" : CutterCall Nat)).close true, 6,
    if begun.closed ∨ begun.firstChunk = none then [] else [] ++ rowsFrom 2 0 [[1], [2], [3]]⟩

theorem shortRun_reach (gaps : LossyStream.Gaps) (inside : ∀ g ∈ gaps, g.1 ≤ 6)
    (begins : ∀ first ∈ ((RunRows.create ⟨"s", 0, 0, 8, 1000, 100, ""⟩).onCall
      (.feed ⟨[0, 1, 2, 3, 4, 5], 0, 0, gaps, 100, none⟩ : CutterCall Nat)).firstChunk, 0 % 2 = first % 2) :
    Runs.Reach (step 2) (RowsRun.start ⟨"s", 0, 0, 8, 1000, 100, ""⟩) (Allowed id 2 1) (shortRun gaps) := by
  refine .next (.next (.next (.next .start (a := .call (.feed ⟨[0, 1, 2, 3, 4, 5], 0, 0, gaps, 100, none⟩)) ?_ rfl)
    (a := .grid ⟨[[1], [2], [3]], [0], [0, 1, 2]⟩ 0 none true) ?_ rfl) (a := .call (.endRun "stopped")) trivial rfl)
    (a := .close true) trivial rfl
  · exact ⟨le_rfl, rfl, inside, by simp [HoldsStream], trivial⟩
  · exact ⟨le_refl 6, begins, by simp [RowsRun.start], by decide⟩

/-- With the third sample lost the second and the third row begin one and a
half and two and a half rows into the file. -/
theorem rows_placed_collides :
    ¬ ∀ (spec : RunSpec) (s : RowsRun), Runs.Reach (step 2) (RowsRun.start spec) (Allowed id 2 1) s →
      s.run.closed = true → Placed s.run 2 s.arrived := by
  intro claim
  have placed := claim _ _ (shortRun_reach [(2, 1)] (by decide) (by decide +kernel)) (by decide +kernel)
  have inside : Inside (shortRun [(2, 1)]).run.cutter 2 2 3 :=
    ⟨0, 6, by decide +kernel, by decide +kernel, by decide, by decide, by decide +kernel⟩
  have inside' : Inside (shortRun [(2, 1)]).run.cutter 2 4 5 :=
    ⟨0, 6, by decide +kernel, by decide +kernel, by decide, by decide, by decide +kernel⟩
  have less := placed.order 2 [2] 3 4 [3] 5 0 (by decide +kernel) (by decide +kernel) inside inside' (by decide +kernel)
    (by decide +kernel) (by decide +kernel) (by decide)
  exact absurd less (by decide +kernel)

theorem rows_placed_iff_lossless : Placed (shortRun []).run 2 (shortRun []).arrived := by
  have arrived : (shortRun []).arrived = [(0, [1]), (2, [2]), (4, [3])] := by decide +kernel
  have offset : (shortRun []).run.gridOffset = some 0 := by decide +kernel
  have index : ∀ p ∈ [0, 2, 4], (shortRun []).run.cutter.fileIndex p = some (p : ℤ) := by decide +kernel
  refine (Reach.rows_placed_iff (by decide) (by decide)
    (shortRun_reach [] (by decide) (by decide +kernel)) (by decide +kernel)).mpr ?_
  intro o placed p row row' i i' m member member' ⟨_, _, _, _, _, _, at_p⟩ _ _ half
  obtain rfl := Option.some.inj (placed.symm.trans offset)
  have listed : p ∈ [0, 2, 4] := by
    rw [arrived] at member
    exact List.mem_map_of_mem (f := Prod.fst) member
  have whole := Option.some.inj (at_p.symm.trans (index p listed))
  have even : p % 2 = 0 := (by decide : ∀ p ∈ [0, 2, 4], p % 2 = 0) p listed
  omega

end Example

end RowsRun
end RFObserver
