import RFObserver.Storage.DisplayBins

/-! The capture viewer's rows, and what of the band the three waterfalls show. -/

namespace RFObserver

/-- `rows[start:start + count]` with both ends held to the rows; a stop below
zero counts from the end. -/
def sliceRows {α : Type*} (rows : List α) (start count : ℤ) : List α :=
  let total : ℤ := rows.length
  let start := max 0 (min start total)
  let stop := min (start + count) total
  let stop := if stop < 0 then max 0 (stop + total) else stop
  (rows.take stop.toNat).drop start.toNat

/-- The means of `bins` groups of `factor` adjacent values. -/
def groupMeans (factor bins : Nat) (p : List ℚ) : List ℚ :=
  (List.range bins).map fun m => ((List.range factor).map fun k => p.getD (m * factor + k) 0).sum / factor

/-- `_slice_psd`: the rows, the axis and the number of bins. -/
def slicePsd (grid : List (List ℚ)) (freqAxis : List ℚ) (numBins : Nat) (start count : ℤ) (maxBins : Nat) :
    List (List ℚ) × List ℚ × Nat :=
  let sliced := sliceRows grid start count
  if maxBins < numBins then
    let factor := numBins / maxBins
    (sliced.map (groupMeans factor maxBins), groupMeans factor maxBins freqAxis, maxBins)
  else (sliced, freqAxis, numBins)

section Bands

variable (numBins maxBins : Nat) (groups : ℕ → List ℕ)

/-- Each display bin with a value is a group of native bins, and each native bin
is in the group of one display bin. -/
structure Partition : Prop where
  nonempty : ∀ j < min numBins maxBins, groups j ≠ []
  distinct : ∀ j < min numBins maxBins, (groups j).Nodup
  inside : ∀ j < min numBins maxBins, ∀ i ∈ groups j, i < numBins
  whole : ∀ i < numBins, ∃! j, j < min numBins maxBins ∧ i ∈ groups j

/-- The groups are centred on the axis. -/
def Centred (start step axisStart axisStep : ℚ) : Prop :=
  ∀ j < min numBins maxBins, meanOver (groups j) (fun i => start + i * step) = axisStart + j * axisStep

/-- The raw waterfall shows the means of the groups, on its axis. -/
def RawShows : Prop :=
  ∀ (start step bucketSec : ℚ) (rows : List TimedWindow), 0 ≤ step → rows ≠ [] →
    Uniform numBins start step (rows.map fun w => (w.tuning, w.powers)) →
    Centred numBins maxBins groups start step (waterfallRaw bucketSec maxBins rows).freqStartHz
        (waterfallRaw bucketSec maxBins rows).freqStepHz ∧
      ∀ k w p, rows[k]? = some w → w.powers = some p → ∀ j < min numBins maxBins,
        ((waterfallRaw bucketSec maxBins rows).psdRows.getD k []).getD j none =
          some (meanOver (groups j) fun i => p.getD i 0)

/-- So does the folded one, with the means over the rows of each bucket. -/
def FoldShows : Prop :=
  ∀ (start step since until_ bucketSec : ℚ) (parts : List FoldPart), 0 ≤ step → 0 < bucketSec →
    (∀ part ∈ parts, part.Sorted ∧ Uniform numBins start step part.rows) →
    ∀ i < (Grid.create since until_ bucketSec).n,
      parts.flatMap (FoldPart.entries (Grid.create since until_ bucketSec) i) ≠ [] →
      Centred numBins maxBins groups start step
          (parts.foldl FoldPart.addTo (WaterfallFold.create since until_ bucketSec maxBins)).result.freqStartHz
          (parts.foldl FoldPart.addTo (WaterfallFold.create since until_ bucketSec maxBins)).result.freqStepHz ∧
        ∀ j < min numBins maxBins,
          ((parts.foldl FoldPart.addTo (WaterfallFold.create since until_ bucketSec maxBins)).result.psdRows.getD i
            []).getD j none = some (weightedMean (parts.flatMap (FoldPart.entries (Grid.create since until_ bucketSec) i))
              fun p => meanOver (groups j) fun k => p.getD k 0)

/-- And so does the viewer, whose axis is a list. -/
def ViewerShows : Prop :=
  ∀ (grid : List (List ℚ)) (first step : ℚ) (start count : ℤ), (∀ p ∈ grid, p.length = numBins) → 0 ≤ step →
    ∀ freqAxis, freqAxis = (List.range numBins).map (fun i : ℕ => first + i * step) →
      (slicePsd grid freqAxis numBins start count maxBins).2.2 = min numBins maxBins ∧
      (slicePsd grid freqAxis numBins start count maxBins).1 = (sliceRows grid start count).map (fun p =>
        (List.range (min numBins maxBins)).map fun j => meanOver (groups j) fun i => p.getD i 0) ∧
      ∃ axisStart axisStep, Centred numBins maxBins groups first step axisStart axisStep ∧
        (slicePsd grid freqAxis numBins start count maxBins).2.1 =
          (List.range (min numBins maxBins)).map fun j : ℕ => axisStart + j * axisStep

/-- A row has the same value on each display bin of the three: where it has
none, it is NaN in the Dashboard's and left out of the viewer's. -/
def SameValues : Prop :=
  ∀ (p freqAxis : List ℚ), p.length = numBins → ∀ j,
    (dsPsd p maxBins).1.getD j none = binOf (decodePsdRow maxBins (some p)) j ∧
      ((slicePsd [p] freqAxis numBins 0 1 maxBins).1.getD 0 [])[j]? = (dsPsd p maxBins).1.getD j none

/-- The three waterfalls show the whole band at the right frequencies. -/
structure ShowsBand : Prop where
  partition : Partition numBins maxBins groups
  raw : RawShows numBins maxBins groups
  folded : FoldShows numBins maxBins groups
  viewer : ViewerShows numBins maxBins groups
  same : SameValues numBins maxBins

end Bands

section Shows

variable {numBins maxBins : Nat}

theorem dsPsd_bin {p : List ℚ} (width : p.length = numBins) (some_ : 0 < numBins) (j : ℕ) :
    (dsPsd p maxBins).1.getD j none = binOf (decodePsdRow maxBins (some p)) j := by
  have full : ¬ p.length = 0 := by omega
  unfold dsPsd binOf decodePsdRow
  simp only [full, if_false]
  split <;> rfl

theorem dsPsd_mean {p : List ℚ} (width : p.length = numBins) (some_ : 0 < numBins) {j : ℕ}
    (inside : j < min numBins maxBins) :
    (dsPsd p maxBins).1.getD j none = some (meanOver (displayGroup numBins maxBins j) fun i => p.getD i 0) := by
  have within := lt_min_iff.mp inside
  rw [dsPsd_bin width some_, binOf_decode, width, if_pos within.symm, binMean_eq width]

theorem centred (positive : 0 < maxBins) {start step : ℚ} (rising : 0 ≤ step) :
    Centred numBins maxBins (displayGroup numBins maxBins) start step (displayAxis numBins start step maxBins).1
      (displayAxis numBins start step maxBins).2 := fun _ _ => meanOver_axis positive rising

theorem rawShows (positive : 0 < maxBins) (some_ : 0 < numBins) :
    RawShows numBins maxBins (displayGroup numBins maxBins) := by
  intro start step bucketSec rows rising given uniform
  constructor
  · obtain ⟨w, rest, rfl⟩ := List.exists_cons_of_ne_nil given
    obtain ⟨bins, first, width, -⟩ := uniform (w.tuning, w.powers) List.mem_cons_self
    have axis : Centred numBins maxBins _ start step _ _ := centred positive rising
    simp only at bins first width
    simpa only [waterfallRaw, List.head?_cons, Option.elim_some, bins, first, width] using axis
  · intro k w p isRow isPsd j inside
    have length := (uniform (w.tuning, w.powers) (List.mem_map.mpr ⟨w, List.mem_of_getElem? isRow, rfl⟩)).2.2.2 p isPsd
    have shown : (waterfallRaw bucketSec maxBins rows).psdRows.getD k [] = (dsPsd p maxBins).1 := by
      rw [waterfallRaw, List.getD_eq_getElem?_getD, List.getElem?_map, isRow, Option.map_some, Option.getD_some,
        TimedWindow.display, isPsd, Option.elim_some]
    rw [shown, dsPsd_mean length some_ inside]

theorem foldShows (positive : 0 < maxBins) : FoldShows numBins maxBins (displayGroup numBins maxBins) := by
  intro start step since until_ bucketSec parts rising bucketPos good i inGrid given
  have on : (WaterfallFold.create since until_ bucketSec maxBins).On (Grid.create since until_ bucketSec) maxBins :=
    ⟨rfl, rfl⟩
  have sums (bin : ℕ) := parts_add bucketPos i bin (fun part member => (good part member).1) on
  obtain ⟨e, isEntry⟩ := List.exists_mem_of_ne_nil _ given
  obtain ⟨part, isPart, inPart⟩ := List.mem_flatMap.mp isEntry
  obtain ⟨⟨tuning, isRow⟩, -⟩ := mem_entries inPart
  have axis := parts_axis (fun part member => (good part member).2)
    (f := WaterfallFold.create since until_ bucketSec maxBins) (by simp [WaterfallFold.create])
    (.inr ⟨part, isPart, List.ne_nil_of_mem isRow⟩)
  have width : (parts.foldl FoldPart.addTo (WaterfallFold.create since until_ bucketSec maxBins)).maxBins = maxBins :=
    (sums 0).1.2
  have wide : ∀ e ∈ parts.flatMap (FoldPart.entries (Grid.create since until_ bucketSec) i),
      e.1.length = numBins ∧ 0 < e.2 := by
    intro e isEntry
    obtain ⟨part, isPart, inPart⟩ := List.mem_flatMap.mp isEntry
    obtain ⟨⟨tuning, isRow⟩, weight⟩ := mem_entries inPart
    exact ⟨((good part isPart).2 _ isRow).2.2.2 e.1 rfl, weight⟩
  constructor
  · have shown : Centred numBins maxBins _ start step _ _ := centred positive rising
    simpa only [WaterfallFold.result, axis, Option.getD_some, width] using shown
  · intro j inside
    have row : (parts.foldl FoldPart.addTo (WaterfallFold.create since until_ bucketSec maxBins)).result.psdRows.getD i
        [] = (parts.foldl FoldPart.addTo (WaterfallFold.create since until_ bucketSec maxBins)).psdRow i := by
      rw [WaterfallFold.result, List.getD_eq_getElem?_getD, List.getElem?_map, (sums 0).1.1,
        List.getElem?_range inGrid, Option.map_some, Option.getD_some]
    obtain ⟨-, sum, count⟩ := sums j
    rw [row]
    exact psdRow_bin width (by simpa [WaterfallFold.create] using sum) (by simpa [WaterfallFold.create] using count)
      wide given inside

theorem meanOver_congr {group : List ℕ} {f g : ℕ → ℚ} (same : ∀ i ∈ group, f i = g i) :
    meanOver group f = meanOver group g := by
  rw [meanOver, meanOver, List.map_congr_left same]

theorem groupMeans_eq (wide : maxBins < numBins) (p : List ℚ) :
    groupMeans (numBins / maxBins) maxBins p =
      (List.range maxBins).map fun j => meanOver (displayGroup numBins maxBins j) fun i => p.getD i 0 := by
  refine List.map_congr_left fun j _ => ?_
  rw [meanOver, length_displayGroup, if_pos wide, displayGroup, if_pos wide, List.map_map]
  rfl

theorem eq_bins {p : List ℚ} (width : p.length = numBins) (narrow : numBins ≤ maxBins) :
    p = (List.range numBins).map fun j => meanOver (displayGroup numBins maxBins j) fun i => p.getD i 0 := by
  refine List.ext_getElem (by simp [width]) fun j inside _ => ?_
  simp [displayGroup, not_lt.mpr narrow, meanOver, inside]

theorem displayGroup_inside (positive : 0 < maxBins) {j i : ℕ} (inside : j < min numBins maxBins)
    (member : i ∈ displayGroup numBins maxBins j) : i < numBins := by
  have within := lt_min_iff.mp inside
  by_cases wide : maxBins < numBins
  · have group := (mem_displayGroup_wide positive wide).mp member
    have factor := factor_pos positive wide
    have below : i < maxBins * (numBins / maxBins) := by
      rw [← Nat.div_lt_iff_lt_mul factor, group]
      exact within.2
    exact below.trans_le (Nat.mul_div_le numBins maxBins)
  · rw [displayGroup, if_neg wide, List.mem_singleton] at member
    exact member ▸ within.1

theorem viewerShows (positive : 0 < maxBins) : ViewerShows numBins maxBins (displayGroup numBins maxBins) := by
  intro grid first step start count widths rising freqAxis isAxis
  have axis : Centred numBins maxBins _ first step _ _ := centred positive rising
  have native {i : ℕ} (inside : i < numBins) : freqAxis.getD i 0 = first + i * step := by
    rw [isAxis, List.getD_eq_getElem?_getD, List.getElem?_map, List.getElem?_range inside]
    rfl
  have sliced : ∀ p ∈ sliceRows grid start count, p ∈ grid := fun p member =>
    List.mem_of_mem_take (List.mem_of_mem_drop member)
  have shownAxis : ∀ j < min numBins maxBins,
      meanOver (displayGroup numBins maxBins j) (fun i => freqAxis.getD i 0) =
        (displayAxis numBins first step maxBins).1 + j * (displayAxis numBins first step maxBins).2 := fun j inside =>
    (meanOver_congr fun i member => native (displayGroup_inside positive inside member)).trans (axis j inside)
  by_cases wide : maxBins < numBins
  · have bins : min numBins maxBins = maxBins := min_eq_right wide.le
    refine ⟨?_, ?_, _, _, axis, ?_⟩
    · rw [slicePsd, if_pos wide, bins]
    · rw [slicePsd, if_pos wide, bins]
      exact List.map_congr_left fun p _ => groupMeans_eq wide p
    · rw [slicePsd, if_pos wide]
      dsimp only
      rw [groupMeans_eq wide, bins]
      refine List.map_congr_left fun j inside => shownAxis j ?_
      rw [bins]
      exact List.mem_range.mp inside
  · have bins : min numBins maxBins = numBins := min_eq_left (not_lt.mp wide)
    refine ⟨?_, ?_, _, _, axis, ?_⟩
    · rw [slicePsd, if_neg wide, bins]
    · rw [slicePsd, if_neg wide, bins]
      refine (List.map_id _).symm.trans (List.map_congr_left fun p member => ?_)
      exact eq_bins (widths p (sliced p member)) (not_lt.mp wide)
    · rw [slicePsd, if_neg wide, bins]
      dsimp only
      refine (eq_bins (p := freqAxis) (by simp [isAxis]) (not_lt.mp wide)).trans ?_
      refine List.map_congr_left fun j inside => shownAxis j ?_
      rw [bins]
      exact List.mem_range.mp inside

theorem sameValues (some_ : 0 < numBins) : SameValues numBins maxBins := by
  intro p freqAxis width j
  refine ⟨dsPsd_bin width some_ j, ?_⟩
  have one : sliceRows [p] 0 1 = [p] := rfl
  by_cases wide : maxBins < numBins
  · have wide' : maxBins < p.length := width ▸ wide
    have same : groupMeans (numBins / maxBins) maxBins p = groupMean p maxBins := by rw [← width]; rfl
    rw [slicePsd, if_pos wide, one, dsPsd]
    simp only [if_pos wide', List.map_cons, List.map_nil, List.getD_cons_zero, same]
    rw [List.getD_eq_getElem?_getD, List.getElem?_map]
    cases (groupMean p maxBins)[j]? <;> rfl
  · have narrow : ¬ maxBins < p.length := width ▸ wide
    rw [slicePsd, if_neg wide, one, dsPsd]
    simp only [if_neg narrow, List.getD_cons_zero]
    rw [List.getD_eq_getElem?_getD]
    by_cases inside : j < p.length
    · rw [List.getElem?_append_left (by simpa using inside), List.getElem?_map, List.getElem?_eq_getElem inside]
      rfl
    · rw [List.getElem?_append_right (by simpa using inside), List.getElem?_eq_none (not_lt.mp inside)]
      by_cases padded : j - (p.map some).length < maxBins - p.length
      · rw [List.getElem?_replicate, if_pos padded]
        rfl
      · rw [List.getElem?_replicate, if_neg padded]
        rfl

theorem partition (positive : 0 < maxBins) (divides : numBins ≤ maxBins ∨ maxBins ∣ numBins) :
    Partition numBins maxBins (displayGroup numBins maxBins) := by
  refine ⟨fun j _ => displayGroup_ne_nil positive, fun j _ => ?_, fun j inside i => displayGroup_inside positive inside,
    fun i inside => ?_⟩
  · unfold displayGroup
    split
    · exact (List.nodup_range).map fun k l same => Nat.add_left_cancel same
    · exact List.nodup_singleton j
  · by_cases wide : maxBins < numBins
    · have exact_ : maxBins * (numBins / maxBins) = numBins :=
        Nat.mul_div_cancel' (divides.resolve_left (not_le.mpr wide))
      refine ⟨i / (numBins / maxBins), ⟨?_, (mem_displayGroup_wide positive wide).mpr rfl⟩, fun j both => ?_⟩
      · rw [min_eq_right wide.le, Nat.div_lt_iff_lt_mul (factor_pos positive wide), exact_]
        exact inside
      · exact ((mem_displayGroup_wide positive wide).mp both.2).symm
    · refine ⟨i, ⟨?_, ?_⟩, fun j both => ?_⟩
      · rw [min_eq_left (not_lt.mp wide)]
        exact inside
      · rw [displayGroup, if_neg wide]
        exact List.mem_singleton_self i
      · have member := both.2
        rw [displayGroup, if_neg wide, List.mem_singleton] at member
        exact member.symm

/-- The last native bin alone is a signal. -/
def lastOnly (numBins : Nat) : List ℚ := (List.range numBins).map fun i => if i + 1 = numBins then 1 else 0

def lastOnlyWindow (numBins : Nat) : TimedWindow :=
  { startTime := 0, tuning := ⟨0, 1, none, numBins, 0, 1⟩, pwrAvg := 0, pwrMax := none, pwrMedian := 0, pwrStd := 0,
    kurtosis := 0, powers := some (lastOnly numBins), durationSec := 1 }

theorem lastOnly_getD {i : ℕ} (inside : i < numBins) :
    (lastOnly numBins).getD i 0 = if i + 1 = numBins then 1 else 0 := by
  rw [lastOnly, List.getD_eq_getElem?_getD, List.getElem?_map, List.getElem?_range inside]
  rfl

/-- Where the groups do not come out even, the last native bin is in none. -/
theorem last_uncovered (positive : 0 < maxBins) (wide : maxBins < numBins) (uneven : ¬ maxBins ∣ numBins) {j : ℕ}
    (inside : j < min numBins maxBins) :
    meanOver (displayGroup numBins maxBins j) (fun i => (lastOnly numBins).getD i 0) = 0 := by
  have factor := factor_pos positive wide
  have short : maxBins * (numBins / maxBins) < numBins :=
    lt_of_le_of_ne (Nat.mul_div_le numBins maxBins) fun same => uneven ⟨_, same.symm⟩
  have zero : ∀ i ∈ displayGroup numBins maxBins j, (lastOnly numBins).getD i 0 = 0 := by
    intro i member
    have group := (mem_displayGroup_wide positive wide).mp member
    have below : i < maxBins * (numBins / maxBins) := by
      rw [← Nat.div_lt_iff_lt_mul factor, group]
      exact (lt_min_iff.mp inside).2
    rw [lastOnly_getD (below.trans short), if_neg (by omega)]
  rw [meanOver_congr zero, meanOver]
  simp

theorem not_showsBand (positive : 0 < maxBins) (wide : maxBins < numBins) (uneven : ¬ maxBins ∣ numBins)
    (groups : ℕ → List ℕ) : ¬ ShowsBand numBins maxBins groups := by
  intro shows
  obtain ⟨j, ⟨inside, member⟩, -⟩ := shows.partition.whole (numBins - 1) (by omega)
  have length : (lastOnly numBins).length = numBins := by simp [lastOnly]
  have uniform : Uniform numBins 0 1 ([lastOnlyWindow numBins].map fun w => (w.tuning, w.powers)) := by
    simp [Uniform, lastOnlyWindow, length]
  obtain ⟨-, values⟩ := shows.raw 0 1 1 [lastOnlyWindow numBins] zero_le_one (List.cons_ne_nil _ _) uniform
  have value := values 0 (lastOnlyWindow numBins) (lastOnly numBins) rfl rfl j inside
  have shown : (waterfallRaw 1 maxBins [lastOnlyWindow numBins]).psdRows.getD 0 [] = (dsPsd (lastOnly numBins) maxBins).1 :=
    rfl
  rw [shown, dsPsd_mean length (by omega) inside, last_uncovered positive wide uneven inside] at value
  have mean : 0 = meanOver (groups j) fun i => (lastOnly numBins).getD i 0 := Option.some.inj value
  -- a group with the last bin has a mean above zero
  have one : (lastOnly numBins).getD (numBins - 1) 0 = 1 := by rw [lastOnly_getD (by omega), if_pos (by omega)]
  have nonneg : ∀ x ∈ (groups j).map fun i => (lastOnly numBins).getD i 0, 0 ≤ x := by
    intro x isValue
    obtain ⟨i, isIn, rfl⟩ := List.mem_map.mp isValue
    rw [lastOnly_getD (shows.partition.inside j inside i isIn)]
    split <;> simp
  have sum := List.single_le_sum nonneg 1 (one ▸ List.mem_map_of_mem member)
  have count : (0 : ℚ) < (groups j).length := by exact_mod_cast List.length_pos_of_mem member
  have above := div_pos (zero_lt_one.trans_le sum) count
  rw [meanOver] at mean
  exact absurd mean above.ne

/-- The waterfalls show the whole band exactly when a row is no wider than the
display or a whole number of times as wide. -/
theorem showsBand_iff (numBins maxBins : Nat) (some_ : 1 ≤ numBins) (two : 2 ≤ maxBins) :
    (∃ groups, ShowsBand numBins maxBins groups) ↔ numBins ≤ maxBins ∨ maxBins ∣ numBins := by
  have positive : 0 < maxBins := by omega
  constructor
  · rintro ⟨groups, shows⟩
    by_contra neither
    obtain ⟨wide, uneven⟩ := not_or.mp neither
    exact not_showsBand positive (not_le.mp wide) uneven groups shows
  · intro divides
    exact ⟨_, partition positive divides, rawShows positive some_, foldShows positive, viewerShows positive,
      sameValues some_⟩

theorem showsBand_iff_even : ∃ groups, ShowsBand 1024 512 groups :=
  (showsBand_iff 1024 512 (by decide) (by decide)).mpr (.inr (by decide))

/-- Of a thousand native bins the display of 512 leaves out 488. -/
theorem showsBand_fails : ¬ ∀ numBins maxBins : Nat, 1 ≤ numBins → 2 ≤ maxBins →
    ∃ groups, ShowsBand numBins maxBins groups := by
  intro all
  obtain ⟨groups, shows⟩ := all 1000 512 (by decide) (by decide)
  exact not_showsBand (by decide) (by decide) (by decide) groups shows

end Shows

end RFObserver
