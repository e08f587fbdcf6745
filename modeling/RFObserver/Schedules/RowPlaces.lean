import RFObserver.Pipeline.GridPlacement
import RFObserver.Schedules.CutterPositions
import RFObserver.Schedules.RunRows

namespace RFObserver

variable {α : Type*}

/-- The rows from stream position `pos` on, each with its own. -/
def rowsFrom (slice : Nat) : Nat → List PsdRow → List (Nat × PsdRow)
  | _, [] => []
  | pos, row :: rows => (pos, row) :: rowsFrom slice (pos + slice) rows

section Rows
variable {slice pos p : Nat} {rows : List PsdRow} {row : PsdRow}

theorem mem_rowsFrom : (p, row) ∈ rowsFrom slice pos rows ↔ ∃ j : Nat, rows[j]? = some row ∧ p = pos + j * slice := by
  induction rows generalizing pos with
  | nil => simp [rowsFrom]
  | cons first rows ih =>
    rw [rowsFrom, List.mem_cons, ih, Prod.mk.injEq]
    constructor
    · rintro (⟨rfl, rfl⟩ | ⟨j, here, rfl⟩)
      · exact ⟨0, rfl, by simp⟩
      · exact ⟨j + 1, here, by ring⟩
    · rintro ⟨j, here, rfl⟩
      cases j with
      | zero => exact Or.inl ⟨by simp, (Option.some.inj here).symm⟩
      | succ j => exact Or.inr ⟨j, here, by ring⟩

theorem rowsFrom_rising (positive : 0 < slice) (pos : Nat) (rows : List PsdRow) :
    ((rowsFrom slice pos rows).map Prod.fst).Pairwise (· < ·) := by
  induction rows generalizing pos with
  | nil => exact List.Pairwise.nil
  | cons first rows ih =>
    refine List.pairwise_cons.mpr ⟨fun q member => ?_, ih (pos + slice)⟩
    obtain ⟨⟨q, row⟩, here, rfl⟩ := List.mem_map.mp member
    obtain ⟨j, -, rfl⟩ := mem_rowsFrom.mp here
    change pos < pos + slice + j * slice
    omega

/-- The rows kept are those wholly between the two positions. -/
theorem mem_trimmed {grid : List PsdRow} {chunkStart start stop first : Nat} (positive : 0 < slice)
    (kept : trimGridRows grid chunkStart slice start stop = some (rows, first)) :
    (p, row) ∈ rowsFrom slice first rows ↔
      (p, row) ∈ rowsFrom slice chunkStart grid ∧ start ≤ p ∧ p + slice ≤ stop := by
  unfold trimGridRows at kept
  split_ifs at kept with nothing
  dsimp only at kept
  split_ifs at kept with empty
  obtain ⟨rfl, rfl⟩ := Prod.mk.inj (Option.some.inj kept)
  have last : ∀ i, i < min ((stop - chunkStart) / slice) grid.length ↔
      chunkStart + i * slice + slice ≤ stop ∧ i < grid.length := by
    intro i
    rw [lt_min_iff, ← Nat.succ_le_iff, Nat.le_div_iff_mul_le positive, Nat.succ_mul]
    omega
  rw [mem_rowsFrom, mem_rowsFrom]
  constructor
  · rintro ⟨j, here, rfl⟩
    rw [List.getElem?_drop, List.getElem?_take] at here
    split_ifs at here with inside
    have within := (last _).mp inside
    have after := (firstRowFrom_le positive (firstRowFrom start chunkStart slice + j)).mp (Nat.le_add_right _ _)
    exact ⟨⟨_, here, by ring⟩, by rw [Nat.add_mul] at after; omega, by rw [Nat.add_mul] at within; omega⟩
  · rintro ⟨⟨i, here, rfl⟩, after, within⟩
    have above := (firstRowFrom_le positive i).mpr after
    have below := (last i).mpr ⟨within, (List.getElem?_eq_some_iff.mp here).1⟩
    refine ⟨i - firstRowFrom start chunkStart slice, ?_, ?_⟩
    · rw [List.getElem?_drop, Nat.add_sub_cancel' above, List.getElem?_take, if_pos below]
      exact here
    · rw [Nat.add_assoc, ← Nat.add_mul, Nat.add_sub_cancel' above]

theorem not_mem_trimmed {grid : List PsdRow} {chunkStart start stop : Nat} (positive : 0 < slice)
    (none : trimGridRows grid chunkStart slice start stop = none) (member : (p, row) ∈ rowsFrom slice chunkStart grid) :
    ¬ (start ≤ p ∧ p + slice ≤ stop) := by
  rintro ⟨after, within⟩
  obtain ⟨i, here, rfl⟩ := mem_rowsFrom.mp member
  have inside := (List.getElem?_eq_some_iff.mp here).1
  have above := (firstRowFrom_le positive i).mpr after
  have below : i < (stop - chunkStart) / slice := by
    rw [← Nat.succ_le_iff, Nat.le_div_iff_mul_le positive, Nat.succ_mul]
    omega
  unfold trimGridRows at none
  rw [if_neg (by omega)] at none
  dsimp only at none
  split_ifs at none with empty
  omega

end Rows

/-- The row at stream position `p` lies wholly inside the run, its first
sample at file index `i`. -/
def Inside (c : RunCutter) (slice p : Nat) (i : ℤ) : Prop :=
  ∃ start stop, c.streamStart = some start ∧ c.streamEnd = some stop ∧ start ≤ p ∧ p + slice ≤ stop ∧
    c.fileIndex p = some i

section Numbers
variable {i i' offset : ℤ} {slice : Nat}

theorem rowNumber_apart (positive : 0 < slice) (apart : i + slice ≤ i') :
    ((i - offset : ℤ) : ℚ) / slice + 1 ≤ ((i' - offset : ℤ) : ℚ) / slice := by
  have width : (0 : ℚ) < slice := by exact_mod_cast positive
  have apart' : ((i - offset : ℤ) : ℚ) + slice ≤ ((i' - offset : ℤ) : ℚ) := by
    have : (i - offset) + slice ≤ i' - offset := by omega
    exact_mod_cast this
  rw [div_add_one width.ne']
  exact div_le_div_of_nonneg_right apart' width.le

theorem rowNumber_le (positive : 0 < slice) (apart : i + slice ≤ i') : rowNumber i offset slice ≤ rowNumber i' offset slice :=
  RoundHalfEven.le_of_apart (rowNumber_apart positive apart)

/-- Rows that follow each other get one number when they begin half a row
after an odd row of the file and after the even one that follows it. -/
theorem rowNumber_eq_iff (positive : 0 < slice) (apart : i + slice ≤ i') :
    rowNumber i offset slice = rowNumber i' offset slice ↔
      ∃ m : ℤ, m % 2 = 1 ∧ 2 * (i - offset) = (2 * m + 1) * slice ∧ i' = i + slice := by
  have width : (slice : ℚ) ≠ 0 := by exact_mod_cast positive.ne'
  refine (RoundHalfEven.eq_iff_of_apart (rowNumber_apart positive apart)).trans (exists_congr fun m => ?_)
  refine and_congr_right fun _ => and_congr ?_ ?_
  · rw [div_eq_iff width]
    constructor
    · intro half
      have doubled : (2 : ℚ) * ((i - offset : ℤ) : ℚ) = (2 * m + 1) * slice := by
        rw [half]
        ring
      exact_mod_cast doubled
    · intro doubled
      have doubled' : (2 : ℚ) * ((i - offset : ℤ) : ℚ) = (2 * m + 1) * slice := by exact_mod_cast doubled
      linarith
  · rw [div_add_one width, div_left_inj' width]
    constructor
    · intro same
      have same' : i' - offset = i - offset + slice := by exact_mod_cast same
      omega
    · rintro rfl
      push_cast
      ring

theorem rowNumber_of_half (m : ℤ) (positive : 0 < slice) (half : 2 * (i - offset) = (2 * m + 1) * slice)
    (odd : m % 2 = 1) : rowNumber i offset slice = m + 1 := by
  have width : (slice : ℚ) ≠ 0 := by exact_mod_cast positive.ne'
  have doubled : (2 : ℚ) * ((i - offset : ℤ) : ℚ) = (2 * m + 1) * slice := by exact_mod_cast half
  have place : ((i - offset : ℤ) : ℚ) / slice = m + 1 / 2 := by
    rw [div_eq_iff width]
    linarith
  rw [rowNumber, place, RoundHalfEven.of_half, if_neg (by omega)]

theorem rowNumber_nonneg (after : offset ≤ i) : 0 ≤ rowNumber i offset slice := by
  have near := abs_le.mp (RoundHalfEven.abs_error_le (((i - offset : ℤ) : ℚ) / slice))
  have positive : (0 : ℚ) ≤ ((i - offset : ℤ) : ℚ) / slice := by
    have : (0 : ℚ) ≤ ((i - offset : ℤ) : ℚ) := by exact_mod_cast (by omega : (0 : ℤ) ≤ i - offset)
    positivity
  have above : (-1 : ℚ) < rowNumber i offset slice := by
    unfold rowNumber
    linarith
  have above' : -1 < rowNumber i offset slice := by exact_mod_cast above
  omega

/-- A row starts within half a row of its number. -/
theorem rowNumber_near (positive : 0 < slice) (i offset : ℤ) :
    2 * |rowNumber i offset slice * slice - (i - offset)| ≤ slice := by
  have width : (0 : ℚ) < slice := by exact_mod_cast positive
  have near := RoundHalfEven.abs_error_le (((i - offset : ℤ) : ℚ) / slice)
  have scaled : ((rowNumber i offset slice * slice - (i - offset) : ℤ) : ℚ) =
      -((((i - offset : ℤ) : ℚ) / slice - roundHalfEven (((i - offset : ℤ) : ℚ) / slice)) * slice) := by
    rw [sub_mul, div_mul_cancel₀ _ width.ne']
    unfold rowNumber
    push_cast
    ring
  have size : |((rowNumber i offset slice * slice - (i - offset) : ℤ) : ℚ)| ≤ 1 / 2 * slice := by
    rw [scaled, abs_neg, abs_mul, abs_of_pos width]
    exact mul_le_mul_of_nonneg_right near width.le
  have doubled : (2 : ℚ) * |((rowNumber i offset slice * slice - (i - offset) : ℤ) : ℚ)| ≤ slice := by linarith
  exact_mod_cast doubled

end Numbers

/-- The rows `arrived` that lie inside the run and fit, under their numbers. -/
def NumberedRows (c : RunCutter) (offset last : ℤ) (slice : Nat) (arrived : List (Nat × PsdRow)) (k : Nat) (row : PsdRow) :
    Prop :=
  ∃ p i, (p, row) ∈ arrived ∧ Inside c slice p i ∧ (k : ℤ) = rowNumber i offset slice ∧ (k : ℤ) < last

/-- A number between those of two rows that follow each other. -/
def ZeroFill (c : RunCutter) (offset : ℤ) (slice first : Nat) (k : Nat) : Prop :=
  ∃ p i j, p % slice = first % slice ∧ Inside c slice p j ∧ Inside c slice (p + slice) i ∧
    rowNumber j offset slice < k ∧ (k : ℤ) < rowNumber i offset slice

/-- No two rows that follow each other begin at an odd row and a half and at
the next even row and a half of the file, as far as both fit. -/
def NoTies (c : RunCutter) (offset : ℤ) (slice : Nat) (arrived : List (Nat × PsdRow)) : Prop :=
  ∀ p row row' i i' (m : ℤ), (p, row) ∈ arrived → (p + slice, row') ∈ arrived → Inside c slice p i →
    Inside c slice (p + slice) i' → m % 2 = 1 → 2 * (i - offset) = (2 * m + 1) * slice → i' = i + slice →
    c.spec.nSamples - offset < (m + 2) * slice

theorem add_le_of_aligned {p p' slice : Nat} (aligned : p % slice = p' % slice) (less : p < p') : p + slice ≤ p' := by
  have divides : slice ∣ p' - p := (Nat.modEq_iff_dvd' less.le).mp aligned
  have := Nat.le_of_dvd (by omega) divides
  omega

namespace RunCutter
variable {spec : RunSpec} {stamp : α → Nat} {start next next' : Nat} {c c' : RunCutter} {offered more : List (Cell α)}
  {slice p p' : Nat} {i i' offset : ℤ} {arrived : List (Nat × PsdRow)} {row row' : PsdRow} {first : Nat}

theorem Running.ofSpec (running : Running spec stamp start next c offered) : c.spec = spec := by
  obtain ⟨before, c', books, same⟩ := running.books
  rw [same]
  exact books.ofSpec

theorem Running.inside_iff (running : Running spec stamp start next c offered) : Inside c slice p i ↔ start ≤ p ∧
    p + slice ≤ start + (positions stamp (offered.take spec.nSamples)).length ∧ c.fileIndex p = some i := by
  unfold Inside
  rw [running.streamStart, running.streamEnd]
  constructor
  · rintro ⟨_, _, ⟨⟩, ⟨⟩, after, within, index⟩
    exact ⟨after, within, index⟩
  · rintro ⟨after, within, index⟩
    exact ⟨_, _, rfl, rfl, after, within, index⟩

theorem Running.inside_of (running : Running spec stamp start next c offered) (positive : 0 < slice) (after : start ≤ p)
    (within : p + slice ≤ start + (positions stamp (offered.take spec.nSamples)).length) :
    ∃ i, Inside c slice p i := by
  obtain ⟨i, -, -, -, index⟩ := running.fileIndex_inside after (by omega)
  exact ⟨i, running.inside_iff.mpr ⟨after, within, index⟩⟩

theorem Running.inside_grow (running : Running spec stamp start next c offered)
    (later : Running spec stamp start next' c' (offered ++ more)) (positive : 0 < slice) (inside : Inside c slice p i) :
    Inside c' slice p i := by
  obtain ⟨after, within, index⟩ := running.inside_iff.mp inside
  have grown := @positions_take_le _ spec stamp offered more
  refine later.inside_iff.mpr ⟨after, by omega, ?_⟩
  rw [running.fileIndex_stable later after (by omega), index]

/-- A row that the stream has passed does not come inside later. -/
theorem Running.inside_back (running : Running spec stamp start next c offered) {k : CutterCall α}
    (later : Running spec stamp start next' (c.call k).1 (offered ++ more)) (positive : 0 < slice)
    (settled : c.done = false → p + slice ≤ next) (inside : Inside (c.call k).1 slice p i) : Inside c slice p i := by
  by_cases done : c.done = true
  · rwa [call_done done] at inside
  · obtain ⟨-, nextEq, length⟩ := running.awaits (by simpa using done)
    have passed := settled (by simpa using done)
    obtain ⟨after, -, index⟩ := later.inside_iff.mp inside
    have within : p + slice ≤ start + (positions stamp (offered.take spec.nSamples)).length := by
      rw [List.take_of_length_le length.le]
      omega
    refine running.inside_iff.mpr ⟨after, within, ?_⟩
    rw [← running.fileIndex_stable later after (by omega), index]

theorem Running.rows_apart (running : Running spec stamp start next c offered) (aligned : p % slice = p' % slice)
    (less : p < p') (inside : Inside c slice p i) (inside' : Inside c slice p' i') : i + slice ≤ i' := by
  have apart := running.fileIndex_mono less (running.inside_iff.mp inside).2.2 (running.inside_iff.mp inside').2.2
  have := add_le_of_aligned aligned less
  omega

/-- Without ties the rows that fit have numbers in the order of the stream. -/
theorem Running.number_lt (running : Running spec stamp start next c offered) (positive : 0 < slice)
    (noTies : NoTies c offset slice arrived) (member : (p, row) ∈ arrived) (member' : (p', row') ∈ arrived)
    (aligned : p % slice = p' % slice) (less : p < p') (inside : Inside c slice p i) (inside' : Inside c slice p' i')
    (fits : rowNumber i offset slice < (c.spec.nSamples - offset) / slice) :
    rowNumber i offset slice < rowNumber i' offset slice := by
  have apart := running.rows_apart aligned less inside inside'
  refine lt_of_le_of_ne (rowNumber_le positive apart) fun same => ?_
  obtain ⟨m, odd, half, next⟩ := (rowNumber_eq_iff positive apart).mp same
  have moved := running.fileIndex_mono less (running.inside_iff.mp inside).2.2 (running.inside_iff.mp inside').2.2
  have reach := add_le_of_aligned aligned less
  obtain rfl : p' = p + slice := by omega
  have beyond := noTies p row row' i i' m member member' inside inside' odd half next
  rw [rowNumber_of_half m positive half odd, Int.lt_iff_add_one_le, Int.le_ediv_iff_mul_le (by exact_mod_cast positive)]
    at fits
  linarith

/-- The numbers over zero fill are no row's. -/
theorem Running.zeroFill_free (running : Running spec stamp start next c offered) (positive : 0 < slice) {k : Nat}
    (fill : ZeroFill c offset slice first k) (aligned : p % slice = first % slice) (inside : Inside c slice p i) :
    (k : ℤ) ≠ rowNumber i offset slice := by
  obtain ⟨q, i', j, alignedQ, insideQ, insideNext, above, below⟩ := fill
  intro same
  rcases Nat.lt_or_ge p (q + slice) with before | after
  · have le : rowNumber i offset slice ≤ rowNumber j offset slice := by
      rcases Nat.lt_trichotomy p q with less | rfl | more
      · exact rowNumber_le positive (running.rows_apart (aligned.trans alignedQ.symm) less inside insideQ)
      · have index := (running.inside_iff.mp inside).2.2.symm.trans (running.inside_iff.mp insideQ).2.2
        rw [Option.some.inj index]
      · have := add_le_of_aligned (alignedQ.trans aligned.symm) more
        omega
    omega
  · have le : rowNumber i' offset slice ≤ rowNumber i offset slice := by
      rcases Nat.eq_or_lt_of_le after with rfl | more
      · have index := (running.inside_iff.mp inside).2.2.symm.trans (running.inside_iff.mp insideNext).2.2
        rw [Option.some.inj index]
      · have alignedNext : (q + slice) % slice = p % slice := by
          rw [Nat.add_mod_right, alignedQ, aligned]
        exact rowNumber_le positive (running.rows_apart alignedNext more insideNext inside)
    omega

end RunCutter
end RFObserver
