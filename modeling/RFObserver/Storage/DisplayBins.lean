import RFObserver.Storage.Waterfall

/-! The native bins that a display bin of a waterfall stands for. -/

namespace RFObserver
open Tally

/-- The mean of the values of a group of native bins. -/
def meanOver (group : List ℕ) (value : ℕ → ℚ) : ℚ := (group.map value).sum / group.length

/-- The native bins of a display bin. -/
def displayGroup (numBins maxBins bin : Nat) : List ℕ :=
  if maxBins < numBins then (List.range (numBins / maxBins)).map fun k => bin * (numBins / maxBins) + k else [bin]

section Groups

variable {numBins maxBins bin : Nat}

theorem factor_pos (positive : 0 < maxBins) (wide : maxBins < numBins) : 0 < numBins / maxBins :=
  Nat.div_pos wide.le positive

theorem length_displayGroup :
    (displayGroup numBins maxBins bin).length = if maxBins < numBins then numBins / maxBins else 1 := by
  unfold displayGroup
  split <;> simp

theorem displayGroup_ne_nil (positive : 0 < maxBins) : displayGroup numBins maxBins bin ≠ [] := by
  rw [← List.length_pos_iff, length_displayGroup]
  split
  case isTrue wide => exact factor_pos positive wide
  case isFalse => exact Nat.one_pos

theorem mem_displayGroup_wide (positive : 0 < maxBins) (wide : maxBins < numBins) {i : ℕ} :
    i ∈ displayGroup numBins maxBins bin ↔ i / (numBins / maxBins) = bin := by
  have factor := factor_pos positive wide
  rw [displayGroup, if_pos wide, List.mem_map, Nat.div_eq_iff factor]
  constructor
  · rintro ⟨k, inRange, rfl⟩
    have less := List.mem_range.mp inRange
    omega
  · rintro ⟨low, high⟩
    exact ⟨i - bin * (numBins / maxBins), List.mem_range.mpr (by omega), by omega⟩

theorem binMean_eq {p : List ℚ} (width : p.length = numBins) :
    binMean maxBins bin p = meanOver (displayGroup numBins maxBins bin) fun i => p.getD i 0 := by
  unfold binMean meanOver displayGroup
  rw [width]
  split
  · rw [List.map_map, List.length_map, List.length_range]
    rfl
  · simp

theorem sum_uniform (start step : ℚ) (first n : ℕ) :
    ((List.range n).map fun k => start + ((first + k : ℕ) : ℚ) * step).sum =
      n * (start + first * step + (n - 1) * step / 2) := by
  induction n with
  | zero => simp
  | succ n ih =>
    rw [List.range_succ, List.map_append, List.sum_append, ih]
    simp only [List.map_cons, List.map_nil, List.sum_cons, List.sum_nil]
    push_cast
    ring

/-- The native bins of a display bin are centred on the reported axis. -/
theorem meanOver_axis (positive : 0 < maxBins) {start step : ℚ} (rising : 0 ≤ step) :
    meanOver (displayGroup numBins maxBins bin) (fun i => start + i * step) =
      (displayAxis numBins start step maxBins).1 + bin * (displayAxis numBins start step maxBins).2 := by
  unfold meanOver displayGroup displayAxis
  by_cases wide : maxBins < numBins
  · have factor : ((numBins / maxBins : ℕ) : ℚ) ≠ 0 := by exact_mod_cast (factor_pos positive wide).ne'
    have mean : ((List.map (fun i : ℕ => start + (i : ℚ) * step)
          ((List.range (numBins / maxBins)).map fun k => bin * (numBins / maxBins) + k)).sum : ℚ) /
        ((numBins / maxBins : ℕ) : ℚ) =
        start + ((bin * (numBins / maxBins) : ℕ) : ℚ) * step + ((numBins / maxBins : ℕ) - 1) * step / 2 := by
      rw [List.map_map]
      have total := sum_uniform start step (bin * (numBins / maxBins)) (numBins / maxBins)
      rw [show ((fun i : ℕ => start + (i : ℚ) * step) ∘ fun k => bin * (numBins / maxBins) + k) =
        fun k : ℕ => start + ((bin * (numBins / maxBins) + k : ℕ) : ℚ) * step from rfl, total]
      field_simp
    rw [if_pos wide, List.length_map, List.length_range, mean]
    rcases rising.eq_or_lt with rfl | above
    · simp
    · rw [if_pos ⟨wide, above⟩]
      push_cast
      ring
  · simp [wide]

end Groups

/-- A chunk of rows that a fold takes in. -/
inductive FoldPart
  | windows (rows : List AvgWindow)
  | tiers (rows : List StoredRow)

namespace FoldPart

def addTo (f : WaterfallFold) : FoldPart → WaterfallFold
  | windows rows => f.addWindows rows
  | tiers rows => f.addTiers rows

/-- The chunk is in time order. -/
def Sorted : FoldPart → Prop
  | windows rows => rows.Pairwise fun v w => v.startTime ≤ w.startTime
  | tiers rows => rows.Pairwise fun r r' => r.bucketEpoch ≤ r'.bucketEpoch

/-- The tunings and the PSD rows of the chunk. -/
def rows : FoldPart → List (Tuning × Option (List ℚ))
  | windows rows => rows.map fun w => (w.tuning, w.powers)
  | tiers rows => rows.map fun r => (r.tuning, r.psd)

/-- The PSD rows that the chunk adds to a bucket, with how many windows each stands for. -/
def entries (grid : Grid) (i : Nat) : FoldPart → List (List ℚ × ℕ)
  | windows rows => (rows.filter fun w => grid.index w.startTime = i).filterMap fun w => w.powers.map (·, 1)
  | tiers rows => (rows.filter fun r => grid.index r.bucketEpoch = i).filterMap fun r => r.psd.map (·, r.nPsd)

end FoldPart

/-- Every row has the width and the axis. -/
def Uniform (numBins : Nat) (start step : ℚ) (rows : List (Tuning × Option (List ℚ))) : Prop :=
  ∀ row ∈ rows, row.1.numBins = numBins ∧ row.1.freqStartHz = start ∧ row.1.freqStepHz = step ∧
    ∀ p ∈ row.2, p.length = numBins

section Fold

variable {grid : Grid} {maxBins numBins : Nat} {start step : ℚ}

/-- What the rows of one bucket add to a bin. -/
theorem tally_entries {β M : Type*} [NonAssocSemiring M] (h : Option (List ℚ) → M) (none_ : h none = 0)
    (at_ : β → ℕ) (psd : β → Option (List ℚ)) (weight : β → ℕ) (i : ℕ) (rows : List β) :
    tally (· + ·) 0 (fun x => if i = at_ x then h (psd x) * weight x else 0) rows =
      (((rows.filter fun x => at_ x = i).filterMap fun x => (psd x).map (·, weight x)).map
        fun e => h (some e.1) * e.2).sum := by
  induction rows with
  | nil => rfl
  | cons x rows ih =>
    rw [tally_cons, ih]
    by_cases here : at_ x = i
    · rw [List.filter_cons_of_pos (p := fun x => decide (at_ x = i)) (decide_eq_true here), if_pos here.symm]
      cases row : psd x with
      | none => rw [List.filterMap_cons_none (by rw [row]; rfl), none_, zero_mul, zero_add]
      | some p => rw [List.filterMap_cons_some (by rw [row]; rfl), List.map_cons, List.sum_cons]
    · rw [List.filter_cons_of_neg (p := fun x => decide (at_ x = i)) (by simpa using here), if_neg (Ne.symm here), zero_add]

theorem single_apply {M : Type*} (i at_ : ℕ) (x : ℕ → M) (e : M) (bin : ℕ) :
    single (fun _ => e) at_ x i bin = if i = at_ then x bin else e := by
  unfold single
  split <;> rfl

/-- What a chunk adds to the sum and the count of a bin of a bucket. -/
theorem FoldPart.adds (positive : 0 < grid.bucketSec) (part : FoldPart) (sorted : part.Sorted) {f : WaterfallFold}
    (on : f.On grid maxBins) (i bin : ℕ) : (part.addTo f).On grid maxBins ∧
      (part.addTo f).psdSum i bin =
        f.psdSum i bin + ((part.entries grid i).map fun e => binValue maxBins bin (some e.1) * e.2).sum ∧
      (part.addTo f).psdCnt i bin =
        f.psdCnt i bin + ((part.entries grid i).map fun e => binCount maxBins bin (some e.1) * e.2).sum := by
  have sums := @WaterfallFold.observes_psdSum grid maxBins positive
  have counts := @WaterfallFold.observes_psdCnt grid maxBins positive
  cases part with
  | windows rows =>
    obtain ⟨onNext, sum⟩ := sums.windows rows f on sorted
    obtain ⟨-, count⟩ := counts.windows rows f on sorted
    have sumAt := tally_entries (binValue maxBins bin) (binValue_none maxBins bin)
      (fun w : AvgWindow => grid.index w.startTime) AvgWindow.powers (fun _ => 1) i rows
    have countAt := tally_entries (binCount maxBins bin) (binCount_none maxBins bin)
      (fun w : AvgWindow => grid.index w.startTime) AvgWindow.powers (fun _ => 1) i rows
    simp only [Nat.cast_one, mul_one, Nat.cast_id] at sumAt countAt
    refine ⟨onNext, ?_, ?_⟩
    · rw [FoldPart.addTo, sum, pointwise, pointwise, tally_apply, tally_apply]
      simp only [single_apply, sumAt, FoldPart.entries]
    · rw [FoldPart.addTo, count, pointwise, pointwise, tally_apply, tally_apply]
      simp only [single_apply, countAt, FoldPart.entries]
  | tiers rows =>
    obtain ⟨onNext, sum⟩ := sums.tiers rows f on sorted
    obtain ⟨-, count⟩ := counts.tiers rows f on sorted
    have sumAt := tally_entries (binValue maxBins bin) (binValue_none maxBins bin)
      (fun r : StoredRow => grid.index r.bucketEpoch) StoredRow.psd StoredRow.nPsd i rows
    have countAt := tally_entries (binCount maxBins bin) (binCount_none maxBins bin)
      (fun r : StoredRow => grid.index r.bucketEpoch) StoredRow.psd StoredRow.nPsd i rows
    simp only [Nat.cast_id] at countAt
    refine ⟨onNext, ?_, ?_⟩
    · rw [FoldPart.addTo, sum, pointwise, pointwise, tally_apply, tally_apply]
      simp only [single_apply, sumAt, FoldPart.entries]
    · rw [FoldPart.addTo, count, pointwise, pointwise, tally_apply, tally_apply]
      simp only [single_apply, countAt, FoldPart.entries]

theorem parts_add (positive : 0 < grid.bucketSec) (i bin : ℕ) {parts : List FoldPart}
    (sorted : ∀ part ∈ parts, part.Sorted) {f : WaterfallFold} (on : f.On grid maxBins) :
    (parts.foldl FoldPart.addTo f).On grid maxBins ∧
      (parts.foldl FoldPart.addTo f).psdSum i bin = f.psdSum i bin +
        ((parts.flatMap (FoldPart.entries grid i)).map fun e => binValue maxBins bin (some e.1) * e.2).sum ∧
      (parts.foldl FoldPart.addTo f).psdCnt i bin = f.psdCnt i bin +
        ((parts.flatMap (FoldPart.entries grid i)).map fun e => binCount maxBins bin (some e.1) * e.2).sum := by
  induction parts generalizing f with
  | nil => simpa using on
  | cons part parts ih =>
    obtain ⟨onNext, sum, count⟩ := part.adds positive (sorted part List.mem_cons_self) on i bin
    obtain ⟨onLast, sums, counts⟩ := ih (fun later member => sorted later (List.mem_cons_of_mem _ member)) onNext
    refine ⟨onLast, ?_, ?_⟩
    · rw [List.foldl_cons, sums, sum, List.flatMap_cons, List.map_append, List.sum_append, add_assoc]
    · rw [List.foldl_cons, counts, count, List.flatMap_cons, List.map_append, List.sum_append, add_assoc]

/-- The rows that a bucket was fed are among those of the chunks, and each stands for a window at least. -/
theorem mem_entries {part : FoldPart} {i : ℕ} {e : List ℚ × ℕ} (member : e ∈ part.entries grid i) :
    (∃ tuning, (tuning, some e.1) ∈ part.rows) ∧ 0 < e.2 := by
  cases part with
  | windows rows =>
    obtain ⟨w, inBucket, given⟩ := List.mem_filterMap.mp member
    obtain ⟨p, isRow, rfl⟩ := Option.map_eq_some_iff.mp given
    exact ⟨⟨w.tuning, List.mem_map.mpr ⟨w, List.mem_of_mem_filter inBucket, by rw [isRow]⟩⟩, Nat.one_pos⟩
  | tiers rows =>
    obtain ⟨r, inBucket, given⟩ := List.mem_filterMap.mp member
    obtain ⟨p, isRow, rfl⟩ := Option.map_eq_some_iff.mp given
    refine ⟨⟨r.tuning, List.mem_map.mpr ⟨r, List.mem_of_mem_filter inBucket, by rw [isRow]⟩⟩, ?_⟩
    exact (Option.ite_none_right_eq_some.mp isRow).1

/-- The axis of a fold is that of the first row it takes in. -/
theorem addTo_axis {part : FoldPart} (uniform : Uniform numBins start step part.rows) {f : WaterfallFold}
    (known : ∀ axis ∈ f.axis, axis = (numBins, start, step)) :
    (∀ axis ∈ (part.addTo f).axis, axis = (numBins, start, step)) ∧
      (f.axis.isSome ∨ part.rows ≠ [] → (part.addTo f).axis.isSome) := by
  have kept : ∀ tuning : Tuning, tuning.numBins = numBins ∧ tuning.freqStartHz = start ∧ tuning.freqStepHz = step →
      f.axis.getD (tuning.numBins, tuning.freqStartHz, tuning.freqStepHz) = (numBins, start, step) := by
    rintro tuning ⟨rfl, rfl, rfl⟩
    cases axis : f.axis with
    | none => rfl
    | some axis' => exact known axis' axis
  cases part with
  | windows rows =>
    cases rows with
    | nil => exact ⟨known, fun some_ => some_.resolve_right (not_not.mpr rfl)⟩
    | cons w rows =>
      obtain ⟨bins, first, width, -⟩ := uniform (w.tuning, w.powers) List.mem_cons_self
      have axis : (FoldPart.addTo f (.windows (w :: rows))).axis = some (numBins, start, step) :=
        congrArg some (kept w.tuning ⟨bins, first, width⟩)
      rw [axis]
      exact ⟨fun _ same => (Option.some.inj same).symm, fun _ => rfl⟩
  | tiers rows =>
    cases rows with
    | nil => exact ⟨known, fun some_ => some_.resolve_right (not_not.mpr rfl)⟩
    | cons r rows =>
      obtain ⟨bins, first, width, -⟩ := uniform (r.tuning, r.psd) List.mem_cons_self
      have axis : (FoldPart.addTo f (.tiers (r :: rows))).axis = some (numBins, start, step) :=
        congrArg some (kept r.tuning ⟨bins, first, width⟩)
      rw [axis]
      exact ⟨fun _ same => (Option.some.inj same).symm, fun _ => rfl⟩

theorem parts_axis {parts : List FoldPart} (uniform : ∀ part ∈ parts, Uniform numBins start step part.rows)
    {f : WaterfallFold} (known : ∀ axis ∈ f.axis, axis = (numBins, start, step))
    (some_ : f.axis.isSome ∨ ∃ part ∈ parts, part.rows ≠ []) :
    (parts.foldl FoldPart.addTo f).axis = some (numBins, start, step) := by
  induction parts generalizing f with
  | nil =>
    obtain ⟨axis, isAxis⟩ := Option.isSome_iff_exists.mp (some_.resolve_right (by simp))
    rw [List.foldl_nil, isAxis, known axis isAxis]
  | cons part parts ih =>
    obtain ⟨knownNext, given⟩ := addTo_axis (uniform part List.mem_cons_self) known
    refine ih (fun later member => uniform later (List.mem_cons_of_mem _ member)) knownNext ?_
    rcases some_ with already | ⟨p, member, rows⟩
    · exact .inl (given (.inl already))
    · rcases List.mem_cons.mp member with rfl | later
      · exact .inl (given (.inr rows))
      · exact .inr ⟨p, later, rows⟩

/-- A mean in which each row counts for its windows. -/
def weightedMean (entries : List (List ℚ × ℕ)) (value : List ℚ → ℚ) : ℚ :=
  (entries.map fun e => value e.1 * e.2).sum / ((entries.map Prod.snd).sum : ℕ)

/-- A bin of a bucket is the mean over its rows of the mean of its native bins. -/
theorem psdRow_bin {f : WaterfallFold} (width : f.maxBins = maxBins) {i bin : ℕ} {entries : List (List ℚ × ℕ)}
    (sum : f.psdSum i bin = (entries.map fun e => binValue maxBins bin (some e.1) * e.2).sum)
    (count : f.psdCnt i bin = (entries.map fun e => binCount maxBins bin (some e.1) * e.2).sum)
    (wide : ∀ e ∈ entries, e.1.length = numBins ∧ 0 < e.2) (some_ : entries ≠ []) (inside : bin < min numBins maxBins) :
    (f.psdRow i).getD bin none =
      some (weightedMean entries fun p => meanOver (displayGroup numBins maxBins bin) fun k => p.getD k 0) := by
  have within := lt_min_iff.mp inside
  have values : (entries.map fun e => binValue maxBins bin (some e.1) * e.2) =
      entries.map fun e => meanOver (displayGroup numBins maxBins bin) (fun k => e.1.getD k 0) * e.2 := by
    refine List.map_congr_left fun e member => ?_
    obtain ⟨length, -⟩ := wide e member
    rw [binValue_some, length, if_pos within.symm, binMean_eq length]
  have counts : (entries.map fun e => binCount maxBins bin (some e.1) * e.2) = entries.map Prod.snd := by
    refine List.map_congr_left fun e member => ?_
    rw [binCount_some, (wide e member).1, if_pos within.symm, one_mul]
  have weighed : (entries.map Prod.snd).sum ≠ 0 := by
    obtain ⟨e, rest, rfl⟩ := List.exists_cons_of_ne_nil some_
    have atLeast := (wide e List.mem_cons_self).2
    rw [List.map_cons, List.sum_cons]
    omega
  have shown : (f.psdRow i)[bin]? =
      some (if f.psdCnt i bin = 0 then none else some (f.psdSum i bin / f.psdCnt i bin)) := by
    rw [WaterfallFold.psdRow, List.getElem?_map, width, List.getElem?_range within.2, Option.map_some]
  rw [List.getD_eq_getElem?_getD, shown, Option.getD_some, count, counts, if_neg weighed, sum, values]
  rfl

end Fold

end RFObserver
