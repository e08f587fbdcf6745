import RFObserver.Processing.BurstExtraction

namespace RFObserver
open SegmentReduce

section LabelTable

variable {l : Nat}

theorem getD_setAll (valid : List Nat) (lut : List Bool) :
    (valid.foldl (fun lut l => lut.set l true) lut).length = lut.length ∧
      ((valid.foldl (fun lut l => lut.set l true) lut).getD l false = true ↔
        lut.getD l false = true ∨ l ∈ valid ∧ l < lut.length) := by
  induction valid generalizing lut with
  | nil => simp
  | cons v valid ih =>
    obtain ⟨length, known⟩ := ih (lut.set v true)
    rw [List.length_set] at length known
    refine ⟨length, known.trans ?_⟩
    rw [List.getD_eq_getElem?_getD, List.getD_eq_getElem?_getD, List.mem_cons]
    by_cases here : v = l
    · subst here
      by_cases bound : v < lut.length
      · simp [bound]
      · simp [bound]
    · rw [List.getElem?_set_ne here]
      have other : l ≠ v := fun same => here same.symm
      simp [other]

theorem le_foldl_max (valid : List Nat) (a : Nat) : a ≤ valid.foldl max a ∧ ∀ l ∈ valid, l ≤ valid.foldl max a := by
  induction valid generalizing a with
  | nil => exact ⟨le_rfl, nofun⟩
  | cons v valid ih =>
    obtain ⟨above, all⟩ := ih (max a v)
    refine ⟨(le_max_left ..).trans above, fun l member => ?_⟩
    rcases List.mem_cons.mp member with rfl | later
    · exact (le_max_right ..).trans above
    · exact all l later

/-- The table keeps exactly the valid labels, also beside labels past its end. -/
theorem keepsLabel_iff (valid : List Nat) : keepsLabel (labelTable valid) l = true ↔ l ∈ valid := by
  obtain ⟨length, known⟩ := getD_setAll (l := min l ((labelTable valid).length - 1)) valid
    (List.replicate (valid.foldl max 0 + 1) false)
  rw [List.length_replicate] at length known
  have size : (labelTable valid).length = valid.foldl max 0 + 1 := length
  have blank : ¬ (List.replicate (valid.foldl max 0 + 1) false).getD (min l ((labelTable valid).length - 1)) false = true := by
    rw [List.getD_eq_getElem?_getD, List.getElem?_replicate]
    split <;> decide
  rw [keepsLabel, Bool.and_eq_true, decide_eq_true_eq, size]
  rw [size, Nat.add_sub_cancel] at known blank
  constructor
  · rintro ⟨set, bound⟩
    rw [Nat.add_sub_cancel, min_eq_left (by omega)] at set
    rw [min_eq_left (by omega)] at known blank
    exact ((known.mp set).resolve_left blank).1
  · intro member
    have below := (le_foldl_max valid 0).2 l member
    rw [min_eq_left below] at known
    rw [Nat.add_sub_cancel, min_eq_left below]
    exact ⟨known.mpr (Or.inr ⟨member, by omega⟩), by omega⟩

end LabelTable

namespace LabeledGrid

variable (g : LabeledGrid)

def label (i : Nat) : Nat := g.labels.getD i 0

def row (i : Nat) : Nat := i / g.nCols

def col (i : Nat) : Nat := i % g.nCols

def power (i : Nat) : ℚ := g.powers.getD i 0

/-- A label's cells in row-major order. -/
def cellsOf (l : Nat) : List Nat := (List.range g.labels.length).filter fun i => g.label i = l

/-- The valid labels, rising, each with its cells. -/
def groups (valid : List Nat) : List (Nat × List Nat) :=
  (valid.dedup.insertionSort (· ≤ ·)).map fun l => (l, g.cellsOf l)

/-- A region measured by itself, from its own cells. -/
def regionOf (cells : List Nat) : Option Region := do
  let rowMin ← reduce min (cells.map g.row)
  let rowMax ← reduce max (cells.map g.row)
  let colMin ← reduce min (cells.map g.col)
  let colMax ← reduce max (cells.map g.col)
  let peak ← reduce max (cells.map g.power)
  let first ← (cells.filter fun i => g.power i = peak).head?
  return ⟨rowMin, rowMax, colMin, colMax, peak, g.col first⟩

variable {g} {valid : List Nat}

theorem mem_cellsOf {l i : Nat} : i ∈ g.cellsOf l ↔ i < g.labels.length ∧ g.label i = l := by
  rw [cellsOf, List.mem_filter, List.mem_range, decide_eq_true_eq]

theorem mem_sortedLabels {l : Nat} : l ∈ valid.dedup.insertionSort (· ≤ ·) ↔ l ∈ valid := by
  rw [List.mem_insertionSort, List.mem_dedup]

theorem sortedLabels_rising : (valid.dedup.insertionSort (· ≤ ·)).Pairwise (· < ·) := by
  have sorted := List.pairwise_insertionSort (α := Nat) (· ≤ ·) valid.dedup
  have nodup := (List.perm_insertionSort (· ≤ ·) valid.dedup).nodup_iff.mpr valid.nodup_dedup
  exact (sorted.and nodup).imp fun both => lt_of_le_of_ne both.1 both.2

theorem separate_groups (occurs : ∀ l ∈ valid, l ∈ g.labels) : Separate (g.groups valid) where
  filled p member := by
    obtain ⟨l, isValid, rfl⟩ := List.mem_map.mp member
    obtain ⟨i, bound, at_⟩ := List.mem_iff_getElem.mp (occurs l (mem_sortedLabels.mp isValid))
    refine List.ne_nil_of_mem (mem_cellsOf.mpr ⟨bound, ?_⟩)
    rw [label, List.getD_eq_getElem _ _ bound, at_]
  distinct := by
    have labels : (g.groups valid).map Prod.fst = valid.dedup.insertionSort (· ≤ ·) := by
      rw [groups, List.map_map]
      exact List.map_id' _
    rw [labels]
    exact sortedLabels_rising.imp fun less => less.ne

theorem flatnonzero_mask : flatnonzero g.mask = (List.range g.labels.length).filter fun i => 0 < g.label i := by
  rw [flatnonzero_eq, g.masked, List.length_map]
  refine List.filter_congr fun i _ => ?_
  rw [label, List.getD_eq_getElem?_getD, List.getD_eq_getElem?_getD, List.getElem?_map]
  cases g.labels[i]? <;> simp

/-- The cells of the valid labels. -/
theorem kept_cells (positive : ∀ l ∈ valid, 0 < l) :
    (flatnonzero g.mask).filter (fun i => keepsLabel (labelTable valid) (g.label i)) =
      (List.range g.labels.length).filter fun i => g.label i ∈ valid := by
  rw [flatnonzero_mask, List.filter_filter]
  refine List.filter_congr fun i _ => ?_
  have keeps := keepsLabel_iff (l := g.label i) valid
  by_cases member : g.label i ∈ valid
  · simp [keeps.mpr member, member, positive _ member]
  · have dropped : keepsLabel (labelTable valid) (g.label i) = false := by
      rw [← Bool.not_eq_true, keeps]
      exact member
    simp [dropped, member]

theorem groupedCells_eq (positive : ∀ l ∈ valid, 0 < l) :
    g.groupedCells valid = (values (g.groups valid), keys (g.groups valid)) := by
  have inside : ∀ i ∈ flatnonzero g.mask, i < g.labels.length := fun i member => by
    rw [flatnonzero_mask] at member
    exact List.mem_range.mp (List.mem_filter.mp member).1
  have labels : takeAt g.labels (flatnonzero g.mask) = (flatnonzero g.mask).map g.label := takeAt_eq_map 0 inside
  let kept := (List.range g.labels.length).filter fun i => g.label i ∈ valid
  have cells : select (flatnonzero g.mask) ((takeAt g.labels (flatnonzero g.mask)).map
      (keepsLabel (labelTable valid))) = kept := by
    rw [labels, List.map_map, select_map]
    exact kept_cells positive
  have cellLabels : select (takeAt g.labels (flatnonzero g.mask)) ((takeAt g.labels (flatnonzero g.mask)).map
      (keepsLabel (labelTable valid))) = kept.map g.label := by
    rw [← cells, labels, map_select]
  have sorted : takeAt kept (argsort (kept.map g.label)) = values (g.groups valid) := by
    rw [takeAt_argsort]
    have known : ∀ i ∈ kept.insertionSort (fun a b => g.label a ≤ g.label b),
        g.label i ∈ valid.dedup.insertionSort (· ≤ ·) := fun i member => by
      rw [mem_sortedLabels]
      exact of_decide_eq_true (List.mem_filter.mp ((List.mem_insertionSort _).mp member)).2
    rw [← flatMap_filter sortedLabels_rising (List.pairwise_insertionSort _ kept) known, values, groups,
      List.flatMap_map]
    refine List.flatMap_congr fun l member => ?_
    rw [filter_insertionSort, List.filter_filter]
    refine List.filter_congr fun i _ => ?_
    by_cases same : g.label i = l
    · simp [same, mem_sortedLabels.mp member]
    · simp [same]
  have sortedLabels : takeAt (kept.map g.label) (argsort (kept.map g.label)) = keys (g.groups valid) := by
    rw [← map_takeAt, sorted, values, keys, List.map_flatMap]
    refine List.flatMap_congr fun p member => ?_
    obtain ⟨l, _, rfl⟩ := List.mem_map.mp member
    exact List.map_congr_left fun i inside => (mem_cellsOf.mp inside).2
  unfold groupedCells
  simp only [cells, cellLabels, sorted, sortedLabels]

section Arrays

variable {groups : List (Nat × List Nat)}

/-- The largest power of some cells. -/
def peakOf (g : LabeledGrid) (cells : List Nat) : ℚ := (reduce max (cells.map g.power)).getD 0

theorem reduce_peak {cells : List Nat} (nonempty : cells ≠ []) :
    reduce max (cells.map g.power) = some (g.peakOf cells) := by
  obtain ⟨peak, reduced⟩ := Option.isSome_iff_exists.mp
    (reduce_isSome (f := max) (fun empty => nonempty (List.map_eq_nil_iff.mp empty)) :
      (reduce max (cells.map g.power)).isSome)
  rw [peakOf, reduced]
  rfl

/-- A region has cells of its largest power. -/
theorem peak_attained {cells : List Nat} (nonempty : cells ≠ []) :
    (cells.filter fun i => g.power i = g.peakOf cells) ≠ [] := by
  obtain ⟨member, _⟩ := reduce_max (reduce_peak (g := g) nonempty)
  obtain ⟨i, inside, attains⟩ := List.mem_map.mp member
  exact List.ne_nil_of_mem (List.mem_filter.mpr ⟨inside, decide_eq_true attains⟩)

/-- The measures of a region's cells. -/
theorem regionOf_measures {cells : List Nat} (nonempty : cells ≠ []) : ∃ rowMin rowMax colMin colMax first,
    reduce min (cells.map g.row) = some rowMin ∧ reduce max (cells.map g.row) = some rowMax ∧
    reduce min (cells.map g.col) = some colMin ∧ reduce max (cells.map g.col) = some colMax ∧
    (cells.filter fun i => g.power i = g.peakOf cells).head? = some first ∧
    g.regionOf cells = some ⟨rowMin, rowMax, colMin, colMax, g.peakOf cells, g.col first⟩ := by
  have measured : ∀ (f : Nat → Nat → Nat) (v : Nat → Nat), ∃ m, reduce f (cells.map v) = some m := fun f v =>
    Option.isSome_iff_exists.mp (reduce_isSome fun empty => nonempty (List.map_eq_nil_iff.mp empty))
  obtain ⟨rowMin, rowMin'⟩ := measured min g.row
  obtain ⟨rowMax, rowMax'⟩ := measured max g.row
  obtain ⟨colMin, colMin'⟩ := measured min g.col
  obtain ⟨colMax, colMax'⟩ := measured max g.col
  obtain ⟨first, rest, attains⟩ := List.exists_cons_of_ne_nil (peak_attained (g := g) nonempty)
  have head : (cells.filter fun i => g.power i = g.peakOf cells).head? = some first := by
    rw [attains]
    rfl
  refine ⟨rowMin, rowMax, colMin, colMax, first, rowMin', rowMax', colMin', colMax', head, ?_⟩
  simp only [regionOf, rowMin', rowMax', colMin', colMax', reduce_peak nonempty, head, Option.bind_eq_bind,
    Option.bind_some]
  rfl

/-- The columns read at the first peak cells are those of each region's first one. -/
theorem peakCols_eq (separate : Separate groups) :
    let gs := groups.map Prod.snd
    let group := repeatEach (List.range gs.length) (gs.map List.length)
    let atPeak := flatnonzero (marks g.power g.peakOf gs)
    takeAt (gs.flatten.map g.col) (select atPeak (changes (takeAt group atPeak))) =
      gs.filterMap fun cells => ((cells.filter fun i => g.power i = g.peakOf cells).head?).map g.col := by
  intro gs group atPeak
  have marked : (marks g.power g.peakOf gs).length = gs.flatten.length := by
    simp [marks, List.length_flatMap, List.length_flatten]
  have numbered : group.length = gs.flatten.length := by
    have general : ∀ (numbers : List Nat) (gs : List (List Nat)), numbers.length = gs.length →
        (repeatEach numbers (gs.map List.length)).length = gs.flatten.length := by
      intro numbers gs
      induction gs generalizing numbers with
      | nil =>
        intro same
        rw [List.length_eq_zero_iff.mp same]
        rfl
      | cons cells gs ih =>
        intro same
        cases numbers with
        | nil => cases same
        | cons number numbers =>
          rw [List.map_cons, repeatEach, List.length_append, List.length_replicate, ih numbers (Nat.succ.inj same),
            List.flatten_cons, List.length_append]
    exact general _ gs List.length_range
  have inside : ∀ i ∈ atPeak, i < (gs.flatten.map g.col).length := fun i member => by
    have := mem_nonzeroFrom member
    rw [List.length_map]
    omega
  let peaks := (List.range gs.length).zip (gs.map fun cells => cells.filter fun i => g.power i = g.peakOf cells)
  have same : (List.range gs.length).length =
      (gs.map fun cells => cells.filter fun i => g.power i = g.peakOf cells).length :=
    List.length_range.trans (List.length_map ..).symm
  have peaksSeparate : Separate peaks := by
    refine ⟨fun p member => ?_, ?_⟩
    · obtain ⟨cells, ofGroup, attains⟩ := List.mem_map.mp (List.of_mem_zip member).2
      obtain ⟨entry, inGroups, rfl⟩ := List.mem_map.mp ofGroup
      rw [← attains]
      exact peak_attained (separate.filled entry inGroups)
    · rw [List.map_fst_zip same.le]
      exact List.nodup_range
  rw [takeAt_select inside, takeAt_flatnonzero (by rw [marked, List.length_map]), takeAt_flatnonzero (by rw [marked, numbered]),
    select_group g.power g.peakOf _ gs List.length_range, ← map_select, select_marks,
    ← values_zip (List.range gs.length) _ same, ← map_select, select_changes peaksSeparate, List.map_filterMap]
  have heads : peaks.filterMap (fun p => (p.2.head?).map g.col) =
      (peaks.map Prod.snd).filterMap fun cells => cells.head?.map g.col := by
    rw [List.filterMap_map]
    rfl
  rw [heads, List.map_snd_zip same.ge, List.filterMap_map]
  rfl

/-- The vectorised measures are those of each region by itself. -/
theorem regions_eq (separate : Separate groups) (nonempty : groups ≠ [])
    (inside : ∀ i ∈ values groups, i < g.labels.length) :
    g.regions (values groups) (keys groups) = groups.filterMap fun p => g.regionOf p.2 := by
  have starts := flatnonzero_changes separate nonempty
  have peakCols := peakCols_eq (g := g) separate
  have regions : (groups.filterMap fun p => g.regionOf p.2) = (groups.map Prod.snd).filterMap g.regionOf := by
    rw [List.filterMap_map]
    rfl
  have filled : ∀ cells ∈ groups.map Prod.snd, cells ≠ [] := fun cells member => by
    obtain ⟨p, inGroups, rfl⟩ := List.mem_map.mp member
    exact separate.filled p inGroups
  have flat : values groups = (groups.map Prod.snd).flatten := List.flatMap_def ..
  generalize groups.map Prod.snd = gs at starts peakCols regions filled flat
  have rows : (values groups).map (fun i => i / g.nCols) = gs.flatten.map g.row := by rw [flat]; rfl
  have cols : (values groups).map (fun i => i % g.nCols) = gs.flatten.map g.col := by rw [flat]; rfl
  have powers : takeAt g.powers (values groups) = gs.flatten.map g.power := by
    rw [takeAt_eq_map 0 fun i member => by rw [g.powered]; exact inside i member, flat]
    rfl
  have peaks : reduceat max (gs.flatten.map g.power) (offsets 0 gs) = gs.map g.peakOf :=
    ((reduceat_eq max g.power gs).trans (List.filterMap_congr fun cells member => reduce_peak (filled cells member))).trans
      (congrFun List.filterMap_eq_map gs)
  have lengths : diff (offsets 0 gs ++ [(values groups).length]) = gs.map List.length := by
    have total := diff_offsets 0 gs
    rwa [Nat.zero_add, ← flat] at total
  have read := takeAt_group (gs.map g.peakOf) (gs.map List.length)
  rw [List.length_map] at read
  dsimp only at peakCols
  unfold LabeledGrid.regions
  simp only [starts, rows, cols, powers, peaks, offsets_length, lengths, read, compare_repeatEach, peakCols, reduceat_eq]
  rw [regions, ← filterMap_range g.regionOf gs]
  refine List.filterMap_congr fun k _ => ?_
  have measured : ∀ (f : Nat → Nat → Nat) (v : Nat → Nat), ∀ cells ∈ gs, (reduce f (cells.map v)).isSome :=
    fun f v cells member => reduce_isSome fun empty => filled cells member (List.map_eq_nil_iff.mp empty)
  have peaked : ∀ cells ∈ gs, (((cells.filter fun i => g.power i = g.peakOf cells).head?).map g.col).isSome := by
    intro cells member
    rw [Option.isSome_map, List.isSome_head?]
    exact peak_attained (filled cells member)
  rw [getElem?_filterMap (measured min g.row), getElem?_filterMap (measured max g.row),
    getElem?_filterMap (measured min g.col), getElem?_filterMap (measured max g.col), getElem?_filterMap peaked,
    List.getElem?_map]
  cases at_ : gs[k]? with
  | none => rfl
  | some cells =>
    have nonempty := filled cells (List.mem_of_getElem? at_)
    obtain ⟨rowMin, rowMax, colMin, colMax, first, rowMin', rowMax', colMin', colMax', first', region⟩ :=
      regionOf_measures (g := g) nonempty
    simp only [Option.bind_some, Option.map_some, rowMin', rowMax', colMin', colMax', first', region]
    rfl

end Arrays

/-- The region of a label: its own least and greatest row and column, its own
largest power, and the column of the first of its cells that has it. -/
structure IsRegion (g : LabeledGrid) (l : Nat) (r : Region) : Prop where
  rowMin : IsLeast (g.row '' {i | g.labels[i]? = some l}) r.rowMin
  rowMax : IsGreatest (g.row '' {i | g.labels[i]? = some l}) r.rowMax
  colMin : IsLeast (g.col '' {i | g.labels[i]? = some l}) r.colMin
  colMax : IsGreatest (g.col '' {i | g.labels[i]? = some l}) r.colMax
  peak : IsGreatest (g.power '' {i | g.labels[i]? = some l}) r.peak
  peakCol : ∃ i, IsLeast {i | g.labels[i]? = some l ∧ g.power i = r.peak} i ∧ r.peakCol = g.col i

theorem mem_cellsOf_iff {l i : Nat} : i ∈ g.cellsOf l ↔ g.labels[i]? = some l := by
  rw [mem_cellsOf, List.getElem?_eq_some_iff]
  constructor
  · rintro ⟨bound, same⟩
    exact ⟨bound, by rwa [label, List.getD_eq_getElem _ _ bound] at same⟩
  · rintro ⟨bound, same⟩
    exact ⟨bound, by rwa [label, List.getD_eq_getElem _ _ bound]⟩

theorem image_cellsOf {β : Type*} (v : Nat → β) (l : Nat) :
    {x | x ∈ (g.cellsOf l).map v} = v '' {i | g.labels[i]? = some l} := by
  ext x
  simp only [Set.mem_ofPred_eq, List.mem_map, Set.mem_image, mem_cellsOf_iff]

theorem regionOf_isRegion {l : Nat} {r : Region} (region : g.regionOf (g.cellsOf l) = some r) : g.IsRegion l r := by
  have nonempty : g.cellsOf l ≠ [] := by
    intro empty
    rw [empty] at region
    cases region
  obtain ⟨rowMin, rowMax, colMin, colMax, first, rowMin', rowMax', colMin', colMax', first', measured⟩ :=
    regionOf_measures (g := g) nonempty
  obtain rfl := Option.some.inj (region.symm.trans measured)
  refine ⟨?_, ?_, ?_, ?_, ?_, first, ⟨?_, ?_⟩, rfl⟩
  · rw [← image_cellsOf]; exact reduce_min rowMin'
  · rw [← image_cellsOf]; exact reduce_max rowMax'
  · rw [← image_cellsOf]; exact reduce_min colMin'
  · rw [← image_cellsOf]; exact reduce_max colMax'
  · rw [← image_cellsOf]; exact reduce_max (reduce_peak nonempty)
  · obtain ⟨inside, attains⟩ := List.mem_filter.mp (List.mem_of_head? first')
    exact ⟨mem_cellsOf_iff.mp inside, of_decide_eq_true attains⟩
  · rintro i ⟨inside, attains⟩
    have member : i ∈ (g.cellsOf l).filter fun i => g.power i = g.peakOf (g.cellsOf l) :=
      List.mem_filter.mpr ⟨mem_cellsOf_iff.mpr inside, decide_eq_true attains⟩
    have sorted : ((g.cellsOf l).filter fun i => g.power i = g.peakOf (g.cellsOf l)).Pairwise (· < ·) :=
      (List.pairwise_lt_range.filter _).filter _
    obtain ⟨rest, split⟩ : ∃ rest, ((g.cellsOf l).filter fun i => g.power i = g.peakOf (g.cellsOf l)) = first :: rest :=
      List.head?_eq_some_iff.mp first'
    rw [split] at member sorted
    rcases List.mem_cons.mp member with rfl | later
    · exact le_rfl
    · exact ((List.pairwise_cons.mp sorted).1 i later).le

theorem regionOf_isSome {l : Nat} (occurs : l ∈ g.labels) : (g.regionOf (g.cellsOf l)).isSome := by
  obtain ⟨i, at_⟩ := List.getElem?_of_mem occurs
  obtain ⟨_, _, _, _, _, _, _, _, _, _, region⟩ :=
    regionOf_measures (g := g) (List.ne_nil_of_mem (mem_cellsOf_iff.mpr at_))
  rw [region]
  rfl

/-- Every label with the region measured from its cells alone. -/
def references (g : LabeledGrid) (valid : List Nat) : List (Nat × Region) :=
  (g.groups valid).filterMap fun p => (g.regionOf p.2).map fun r => (p.1, r)

/-- Vectorised extraction is extraction region by region. -/
theorem extract_reference (valid : List Nat) (nonempty : valid ≠ []) (occurs : ∀ l ∈ valid, 0 < l ∧ l ∈ g.labels)
    (centerFreqHz : ℚ) (captureTime : ℤ) (minDurationSec : ℚ) :
    g.extractFingerprints valid centerFreqHz captureTime minDurationSec =
      ((g.references valid).filterMap fun p =>
        g.fingerprint centerFreqHz captureTime minDurationSec p.2).insertionSort
          fun a b => a.startTime ≤ b.startTime := by
  have separate := separate_groups fun l member => (occurs l member).2
  have filled : g.groups valid ≠ [] := by
    obtain ⟨l, rest, rfl⟩ := List.exists_cons_of_ne_nil nonempty
    have member : l ∈ (l :: rest).dedup.insertionSort (· ≤ ·) := mem_sortedLabels.mpr (List.mem_cons_self ..)
    exact List.ne_nil_of_mem (List.mem_map_of_mem member)
  have inside : ∀ i ∈ values (g.groups valid), i < g.labels.length := by
    intro i member
    obtain ⟨p, inGroups, member⟩ := List.mem_flatMap.mp member
    obtain ⟨l, _, rfl⟩ := List.mem_map.mp inGroups
    exact (mem_cellsOf.mp member).1
  rw [extractFingerprints, groupedCells_eq fun l member => (occurs l member).1]
  dsimp only
  rw [regions_eq separate filled inside, references, List.filterMap_filterMap, List.filterMap_filterMap]
  congr 1
  refine List.filterMap_congr fun p _ => ?_
  cases g.regionOf p.2 <;> rfl

theorem references_labels (occurs : ∀ l ∈ valid, l ∈ g.labels) :
    (g.references valid).map Prod.fst = valid.dedup.insertionSort (· ≤ ·) := by
  rw [references, List.map_filterMap, groups, List.filterMap_map]
  have every : ∀ l ∈ valid.dedup.insertionSort (· ≤ ·),
      (((fun p => Option.map Prod.fst ((g.regionOf p.2).map fun r => (p.1, r))) ∘ fun l => (l, g.cellsOf l)) l) =
        some l := by
    intro l member
    obtain ⟨r, region⟩ := Option.isSome_iff_exists.mp (regionOf_isSome (occurs l (mem_sortedLabels.mp member)))
    simp only [Function.comp_apply, region, Option.map_some]
  rw [List.filterMap_congr every]
  exact List.filterMap_some

/-- Regions whose cells interleave in row-major order, two of them valid, with
the largest power of one in two cells. -/
def interleavedRegions : LabeledGrid where
  nCols := 3
  labels := [1, 0, 3, 1, 2, 3, 0, 2, 3, 4, 0, 0]
  mask := [true, false, true, true, true, true, false, true, true, true, false, false]
  powers := [-30, -90, -20, -30, -10, -20, -90, -10, -25, -5, -90, -90]
  timeAxis := [0, 1 / 1000, 2 / 1000, 3 / 1000]
  freqAxis := [-10, 0, 10]
  masked := rfl
  size := rfl
  powered := rfl
  banded := rfl
  rising := by decide +kernel

/-- The labels that the high mask gives occur in the grid. -/
theorem validLabels_occur {labels : List Nat} {maskHigh : List Bool} :
    ∀ l ∈ validLabels labels maskHigh, 0 < l ∧ l ∈ labels := by
  intro l member
  obtain ⟨selected, positive⟩ := List.mem_filter.mp member
  rw [List.mem_insertionSort, List.mem_dedup] at selected
  exact ⟨of_decide_eq_true positive, select_sublist.subset selected⟩

theorem timeAxis_mono (g : LabeledGrid) {i j : Nat} (le : i ≤ j) (bound : j < g.timeAxis.length) :
    g.timeAxis.getD i 0 ≤ g.timeAxis.getD j 0 := by
  rw [List.getD_eq_getElem _ _ bound, List.getD_eq_getElem _ _ (by omega)]
  rcases le.eq_or_lt with rfl | less
  · exact le_rfl
  · exact (List.pairwise_iff_getElem.mp g.rising i j (by omega) bound less).le

/-- A region's fingerprint does not stop before it starts. -/
theorem IsRegion.ordered {l : Nat} {r : Region} (region : g.IsRegion l r) {centerFreqHz : ℚ} {captureTime : ℤ}
    {minDurationSec : ℚ} {b : BurstValues ℚ}
    (found : g.fingerprint centerFreqHz captureTime minDurationSec r = some b) :
    b.startTime ≤ b.stopTime ∧ 0 ≤ b.bandwidthHz := by
  obtain ⟨i, inside, last⟩ := region.rowMax.1
  have bound : r.rowMax < g.timeAxis.length := by
    rw [← last]
    have cell := (List.getElem?_eq_some_iff.mp inside).1
    rw [g.size, Nat.mul_comm] at cell
    exact Nat.div_lt_of_lt_mul cell
  have order : r.rowMin ≤ r.rowMax := region.rowMin.2 region.rowMax.1
  unfold fingerprint at found
  dsimp only at found
  split at found
  · cases found
  · obtain rfl := Option.some.inj found
    refine ⟨?_, le_max_right ..⟩
    have times := g.timeAxis_mono (show r.rowMin ≤ min (r.rowMax + 1) (g.timeAxis.length - 1) by omega) (by omega)
    have rounded := RoundHalfEven.mono (mul_le_mul_of_nonneg_right times (by norm_num : (0 : ℚ) ≤ 1000000))
    dsimp only
    omega

/-- Extraction gives `_merge_bursts` what it expects: bursts that do not stop
before they start, in start order. -/
theorem extract_mergeable (g : LabeledGrid) {maskHigh : List Bool} (some_ : validLabels g.labels maskHigh ≠ [])
    (centerFreqHz : ℚ) (captureTime : ℤ) (minDurationSec : ℚ) :
    ∃ bursts : List (RawBurst ℚ), bursts.Pairwise StartOrder ∧ bursts.map RawBurst.toBurstValues =
      g.extractFingerprints (validLabels g.labels maskHigh) centerFreqHz captureTime minDurationSec := by
  have extracted := extract_reference (g := g) _ some_ validLabels_occur centerFreqHz captureTime minDurationSec
  have sorted : (g.extractFingerprints (validLabels g.labels maskHigh) centerFreqHz captureTime minDurationSec).Pairwise
      fun a b => a.startTime ≤ b.startTime := by
    rw [extracted]
    exact List.pairwise_insertionSort ..
  have valid : ∀ b ∈ g.extractFingerprints (validLabels g.labels maskHigh) centerFreqHz captureTime minDurationSec,
      b.startTime ≤ b.stopTime ∧ 0 ≤ b.bandwidthHz := by
    intro b member
    rw [extracted, List.mem_insertionSort] at member
    obtain ⟨p, isReference, found⟩ := List.mem_filterMap.mp member
    obtain ⟨entry, inGroups, measured⟩ := List.mem_filterMap.mp isReference
    obtain ⟨l, _, rfl⟩ := List.mem_map.mp inGroups
    obtain ⟨r, region, rfl⟩ := Option.map_eq_some_iff.mp measured
    exact (regionOf_isRegion region).ordered found
  let bursts : List (RawBurst ℚ) :=
    (g.extractFingerprints (validLabels g.labels maskHigh) centerFreqHz captureTime minDurationSec).attach.map
      fun b => { b.1 with ordered := (valid b.1 b.2).1, bandwidth_nonneg := (valid b.1 b.2).2 }
  have same : bursts.map RawBurst.toBurstValues =
      g.extractFingerprints (validLabels g.labels maskHigh) centerFreqHz captureTime minDurationSec := by
    rw [List.map_map]
    exact List.attach_map_subtype_val _
  refine ⟨bursts, ?_, same⟩
  rw [← same, List.pairwise_map] at sorted
  exact sorted

end LabeledGrid
end RFObserver
