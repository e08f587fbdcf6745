import RFObserver.Storage.FoldFields

namespace RFObserver
open Tally

/-- A row without values adds none to an extreme. -/
theorem extreme_has {β : Type*} (op : ℚ → ℚ → ℚ) [Std.Associative op] (values : β → Option (List (Option ℚ)))
    (l : List β) :
    ((l.filter fun x => (values x).isSome).flatMap fun x => (values x).getD []).foldl (Option.merge op) none =
      tally (Option.merge op) none (fun x => ((values x).getD []).foldl (Option.merge op) none) l := by
  have total : tally (Option.merge op) none (fun x => ((values x).getD []).foldl (Option.merge op) none)
      (l.filter fun x => (values x).isSome) = _ :=
    tally_flatMap (f := id) (Option.merge op) none fun _ _ => rfl
  refine total.symm.trans ((tally_filter _ _ _ _ _).trans (tally_congr _ _ fun x _ => ?_))
  cases values x <;> rfl

namespace WaterfallFold

/-- The grid and the width of a fold, which it keeps. -/
def On (grid : Grid) (maxBins : Nat) (fold : WaterfallFold) : Prop := fold.grid = grid ∧ fold.maxBins = maxBins

variable {grid : Grid} {maxBins : Nat}

theorem On.addWindows (rows : List AvgWindow) (fold : WaterfallFold) (on : fold.On grid maxBins) :
    (fold.addWindows rows).On grid maxBins := by
  cases rows <;> exact on

theorem On.addTiers (rows : List StoredRow) (fold : WaterfallFold) (on : fold.On grid maxBins) :
    (fold.addTiers rows).On grid maxBins := by
  cases rows <;> exact on

section Buckets

variable (positive : 0 < grid.bucketSec)
include positive

theorem observes_statN : Observes addWindows addTiers (On grid maxBins) (pointwise (· + ·)) (fun _ => 0) statN
    (fun w => single 0 (grid.index w.startTime) 1) fun r => single 0 (grid.index r.bucketEpoch) r.n := by
  refine Observes.ofRows positive On.addWindows On.addTiers ?_ ?_
  · rintro rows fold ⟨rfl, rfl⟩ sorted
    rw [addRuns_eq_addRunsAt _ _ ((runs_distinct (Observes.sorted_windows positive sorted)).imp ne_of_lt)]
    cases rows <;> rfl
  · rintro (_ | _) fold ⟨rfl, rfl⟩ <;> rfl

/-- A stat that the runs of all rows are added to. -/
theorem observes_stat {M : Type*} (op : M → M → M) (e : M) [Std.Associative op] [Std.LawfulIdentity op e]
    (get : WaterfallFold → Nat → M) (f : AvgWindow → M) (g : StoredRow → M)
    (windows : ∀ rows fold, get (addWindows rows fold) =
      addRuns op f (runs (fun w : AvgWindow => fold.grid.index w.startTime) rows) (get fold))
    (tiers : ∀ rows fold, get (addTiers rows fold) =
      addRuns op g (runs (fun r : StoredRow => fold.grid.index r.bucketEpoch) rows) (get fold)) :
    Observes addWindows addTiers (On grid maxBins) (pointwise op) (fun _ => e) get
      (fun w => single e (grid.index w.startTime) (f w)) fun r => single e (grid.index r.bucketEpoch) (g r) := by
  refine Observes.ofRows positive On.addWindows On.addTiers ?_ ?_
  · rintro rows fold ⟨rfl, rfl⟩ _
    exact windows rows fold
  · rintro rows fold ⟨rfl, rfl⟩
    exact tiers rows fold

theorem observes_psdSum : Observes addWindows addTiers (On grid maxBins) (pointwise (pointwise (· + ·)))
    (fun _ _ => 0) psdSum (fun w => single (fun _ => 0) (grid.index w.startTime) fun bin => binValue maxBins bin w.powers)
    fun r => single (fun _ => 0) (grid.index r.bucketEpoch) fun bin => binValue maxBins bin r.psd * r.nPsd := by
  refine Observes.ofRuns (p := fun w => (windowPsd maxBins w).isSome) (q := fun r => (tierPsd maxBins r).isSome)
    positive On.addWindows On.addTiers (fun w no => ?_) (fun r no => ?_) ?_ ?_
  · have none : decodePsdRow maxBins w.powers = none := Option.isNone_iff_eq_none.mp (by simpa [windowPsd] using no)
    simp [binValue, none, binOf]
  · have none : decodePsdRow maxBins r.psd = none :=
      Option.isNone_iff_eq_none.mp (by simpa [StoredRow.tierPsd_eq] using no)
    simp [binValue, none, binOf]
  · rintro (_ | _) fold ⟨rfl, rfl⟩ _ <;> rfl
  · rintro rows fold ⟨rfl, rfl⟩
    simp only [binValue, ← StoredRow.tierPsd_eq]
    cases rows <;> rfl

theorem observes_psdCnt : Observes addWindows addTiers (On grid maxBins) (pointwise (pointwise (· + ·)))
    (fun _ _ => 0) psdCnt (fun w => single (fun _ => 0) (grid.index w.startTime) fun bin => binCount maxBins bin w.powers)
    fun r => single (fun _ => 0) (grid.index r.bucketEpoch) fun bin => binCount maxBins bin r.psd * r.nPsd := by
  refine Observes.ofRuns (p := fun w => (windowPsd maxBins w).isSome) (q := fun r => (tierPsd maxBins r).isSome)
    positive On.addWindows On.addTiers (fun w no => ?_) (fun r no => ?_) ?_ ?_
  · have none : decodePsdRow maxBins w.powers = none := Option.isNone_iff_eq_none.mp (by simpa [windowPsd] using no)
    simp [binCount, none, binOf]
  · have none : decodePsdRow maxBins r.psd = none :=
      Option.isNone_iff_eq_none.mp (by simpa [StoredRow.tierPsd_eq] using no)
    simp [binCount, none, binOf]
  · rintro (_ | _) fold ⟨rfl, rfl⟩ _ <;> rfl
  · rintro rows fold ⟨rfl, rfl⟩
    simp only [binCount, ← StoredRow.tierPsd_eq]
    cases rows <;> rfl

end Buckets

theorem observes_totalWindows : Observes addWindows addTiers (On grid maxBins) (· + ·) 0 totalWindows
    (fun w => if (decodePsdRow maxBins w.powers).isSome then 1 else 0)
    fun r => if (decodePsdRow maxBins r.psd).isSome then r.nPsd else 0 := by
  refine ⟨fun rows fold on _ => ⟨On.addWindows rows fold on, ?_⟩, fun rows fold on _ => ⟨On.addTiers rows fold on, ?_⟩⟩
  · obtain ⟨rfl, rfl⟩ := on
    rw [← tally_filter (fun a b : Nat => a + b) 0 (fun w : AvgWindow => (decodePsdRow fold.maxBins w.powers).isSome) fun _ => 1,
      ← length_eq_tally]
    cases rows <;> rfl
  · obtain ⟨rfl, rfl⟩ := on
    simp only [← StoredRow.tierPsd_eq]
    rw [← tally_filter (fun a b : Nat => a + b) 0 (fun r => (tierPsd fold.maxBins r).isSome) fun r : StoredRow => r.nPsd,
      ← sum_map_eq_tally]
    cases rows <;> rfl

theorem observes_gmin : Observes addWindows addTiers (On grid maxBins) (Option.merge min) none gmin
    (fun w => leastOf ((decodePsdRow maxBins w.powers).getD [])) fun r => r.psdMin := by
  refine ⟨fun rows fold on _ => ⟨On.addWindows rows fold on, ?_⟩, fun rows fold on _ => ⟨On.addTiers rows fold on, ?_⟩⟩
  · obtain ⟨rfl, rfl⟩ := on
    have total := extreme_has min (windowPsd fold.maxBins) rows
    cases rows with
    | nil => exact Option.merge_none_right.symm
    | cons w rows => exact congrArg (Option.merge min fold.gmin) total
  · rw [← foldl_eq_op_tally (Option.merge min) none]
    cases rows <;> rfl

theorem observes_gmax : Observes addWindows addTiers (On grid maxBins) (Option.merge max) none gmax
    (fun w => greatestOf ((decodePsdRow maxBins w.powers).getD [])) fun r => r.psdMax := by
  refine ⟨fun rows fold on _ => ⟨On.addWindows rows fold on, ?_⟩, fun rows fold on _ => ⟨On.addTiers rows fold on, ?_⟩⟩
  · obtain ⟨rfl, rfl⟩ := on
    have total := extreme_has max (windowPsd fold.maxBins) rows
    cases rows with
    | nil => exact Option.merge_none_right.symm
    | cons w rows => exact congrArg (Option.merge max fold.gmax) total
  · rw [← foldl_eq_op_tally (Option.merge max) none]
    cases rows <;> rfl

section Tiered

variable {db : SensorDatabase} {level : Nat} {since : ℚ} (covers : db.Covers level since)
  (aligned : grid.Aligned level) (filter : TuningFilter) (until_ : ℚ) {fold : WaterfallFold} (on : fold.On grid maxBins)
include covers aligned on

theorem foldTiered_statN : (db.foldTiered addWindows addTiers filter since until_ level fold).statN =
    (db.foldWindows addWindows filter since until_ fold).statN :=
  (observes_statN (aligned.bucketSec_pos covers.positive)).buckets_eq covers aligned filter until_
    (fun r member => by
      rw [← length_eq_tally]
      exact TierRow.Exact.n (covers.exact member)) on

theorem foldTiered_stat {M : Type*} (op : M → M → M) (e : M) [Std.Associative op] [Std.Commutative op]
    [Std.LawfulIdentity op e] (get : WaterfallFold → Nat → M) (f : AvgWindow → M) (g : StoredRow → M)
    (windows : ∀ rows fold, get (addWindows rows fold) =
      addRuns op f (runs (fun w : AvgWindow => fold.grid.index w.startTime) rows) (get fold))
    (tiers : ∀ rows fold, get (addTiers rows fold) =
      addRuns op g (runs (fun r : StoredRow => fold.grid.index r.bucketEpoch) rows) (get fold))
    (sums : ∀ r : StoredRow, r.Exact level → g r = tally op e f r.windows) :
    get (db.foldTiered addWindows addTiers filter since until_ level fold) =
      get (db.foldWindows addWindows filter since until_ fold) :=
  (observes_stat (aligned.bucketSec_pos covers.positive) op e get f g windows tiers).buckets_eq covers aligned filter
    until_ (fun r member => sums r (covers.exact member)) on

theorem foldTiered_on : (db.foldTiered addWindows addTiers filter since until_ level fold).On grid maxBins ∧
    (db.foldWindows addWindows filter since until_ fold).On grid maxBins := by
  have observes := @observes_statN grid maxBins (aligned.bucketSec_pos covers.positive)
  refine ⟨(observes.foldTiered covers filter until_ (fun r member => ?_) on).1,
    (observes.foldWindows db filter since until_ on).1⟩
  refine Observes.row_bucket (f := fun _ => 1) (g := StoredRow.n) covers.positive aligned (covers.exact member) ?_
  rw [← length_eq_tally]
  exact TierRow.Exact.n (covers.exact member)

omit aligned in
/-- The colour range does not depend on the rows' widths, only on the fold's. -/
theorem foldTiered_range (color : maxBins = colorBins) :
    (db.foldTiered addWindows addTiers filter since until_ level fold).gmin =
        (db.foldWindows addWindows filter since until_ fold).gmin ∧
      (db.foldTiered addWindows addTiers filter since until_ level fold).gmax =
        (db.foldWindows addWindows filter since until_ fold).gmax := by
  subst color
  constructor
  · refine observes_gmin.foldTiered_eq covers filter until_ (fun r member => ?_) on
    refine (TierRow.Exact.psdMin (covers.exact member)).trans (tally_congr _ _ fun w _ => ?_)
    unfold AvgWindow.range
    cases w.powers with
    | none => rfl
    | some p => exact (leastOf_decode p).symm
  · refine observes_gmax.foldTiered_eq covers filter until_ (fun r member => ?_) on
    refine (TierRow.Exact.psdMax (covers.exact member)).trans (tally_congr _ _ fun w _ => ?_)
    unfold AvgWindow.range
    cases w.powers with
    | none => rfl
    | some p => exact (greatestOf_decode p).symm

section Wide

variable (wide : ∀ r ∈ db.tierRange filter since until_ level, ∃ width, AvgWindow.Wide width r.windows)
include wide

theorem foldTiered_psdSum : (db.foldTiered addWindows addTiers filter since until_ level fold).psdSum =
    (db.foldWindows addWindows filter since until_ fold).psdSum := by
  refine (observes_psdSum (aligned.bucketSec_pos covers.positive)).buckets_eq covers aligned filter until_
    (fun r member => funext fun bin => ?_) on
  obtain ⟨width, wide⟩ := wide r member
  rw [tally_apply, StoredRow.psd_value (covers.exact member) wide]

theorem foldTiered_psdCnt : (db.foldTiered addWindows addTiers filter since until_ level fold).psdCnt =
    (db.foldWindows addWindows filter since until_ fold).psdCnt := by
  refine (observes_psdCnt (aligned.bucketSec_pos covers.positive)).buckets_eq covers aligned filter until_
    (fun r member => funext fun bin => ?_) on
  obtain ⟨width, wide⟩ := wide r member
  rw [tally_apply]
  exact StoredRow.psd_shape (k := fun length => if bin < maxBins ∧ bin < length then 1 else 0) (covers.exact member) wide
    (binCount_none maxBins bin) (binCount_some maxBins bin)

omit aligned in
theorem foldTiered_totalWindows : (db.foldTiered addWindows addTiers filter since until_ level fold).totalWindows =
    (db.foldWindows addWindows filter since until_ fold).totalWindows := by
  refine observes_totalWindows.foldTiered_eq covers filter until_ (fun r member => ?_) on
  obtain ⟨width, wide⟩ := wide r member
  have shape := StoredRow.psd_shape (h := fun row => if (decodePsdRow maxBins row).isSome then 1 else 0)
    (k := fun length => if length ≠ 0 then 1 else 0) (covers.exact member) wide rfl
    fun p => by simp only [decode_isSome, decide_eq_true_eq]
  simpa only [ite_mul, one_mul, zero_mul] using shape

end Wide
end Tiered

/-- The folds agree on every bucket and on their totals. -/
structure Agrees (f f' : WaterfallFold) : Prop where
  grid : f.grid = f'.grid
  maxBins : f.maxBins = f'.maxBins
  statN : f.statN = f'.statN
  statAvg : f.statAvg = f'.statAvg
  statMed : f.statMed = f'.statMed
  statStd : f.statStd = f'.statStd
  statKurt : f.statKurt = f'.statKurt
  statMax : f.statMax = f'.statMax
  psdSum : f.psdSum = f'.psdSum
  psdCnt : f.psdCnt = f'.psdCnt
  totalWindows : f.totalWindows = f'.totalWindows

/-- A tiered read of rows of one width each agrees with the read of the windows. -/
theorem foldTiered_agrees {grid : Grid} {maxBins level : Nat} {db : SensorDatabase} {since : ℚ}
    (covers : db.Covers level since) (aligned : grid.Aligned level) (filter : TuningFilter) (until_ : ℚ)
    {fold : WaterfallFold} (on : fold.On grid maxBins)
    (wide : ∀ r ∈ db.tierRange filter since until_ level, ∃ width, AvgWindow.Wide width r.windows) :
    (db.foldTiered addWindows addTiers filter since until_ level fold).Agrees
      (db.foldWindows addWindows filter since until_ fold) := by
  obtain ⟨tiered, raw⟩ := foldTiered_on covers aligned filter until_ on
  refine ⟨tiered.1.trans raw.1.symm, tiered.2.trans raw.2.symm, foldTiered_statN covers aligned filter until_ on,
    ?_, ?_, ?_, ?_, ?_, foldTiered_psdSum covers aligned filter until_ on wide,
    foldTiered_psdCnt covers aligned filter until_ on wide, foldTiered_totalWindows covers filter until_ on wide⟩
  · exact foldTiered_stat covers aligned filter until_ on (· + ·) 0 statAvg AvgWindow.pwrAvg StoredRow.sumAvg
      (fun rows fold => by cases rows <;> rfl) (fun rows fold => by cases rows <;> rfl) fun r exact => exact.sumAvg
  · exact foldTiered_stat covers aligned filter until_ on (· + ·) 0 statMed AvgWindow.pwrMedian StoredRow.sumMedian
      (fun rows fold => by cases rows <;> rfl) (fun rows fold => by cases rows <;> rfl) fun r exact => exact.sumMedian
  · exact foldTiered_stat covers aligned filter until_ on (· + ·) 0 statStd AvgWindow.pwrStd StoredRow.sumStd
      (fun rows fold => by cases rows <;> rfl) (fun rows fold => by cases rows <;> rfl) fun r exact => exact.sumStd
  · exact foldTiered_stat covers aligned filter until_ on (· + ·) 0 statKurt AvgWindow.kurtosis StoredRow.sumKurtosis
      (fun rows fold => by cases rows <;> rfl) (fun rows fold => by cases rows <;> rfl) fun r exact => exact.sumKurtosis
  · exact foldTiered_stat covers aligned filter until_ on (Option.merge max) none statMax AvgWindow.pwrMax StoredRow.maxMax
      (fun rows fold => by cases rows <;> rfl) (fun rows fold => by cases rows <;> rfl) fun r exact => exact.maxMax

theorem Agrees.bucket {f f' : WaterfallFold} (agrees : f.Agrees f') (i : Nat) : f.bucket i = f'.bucket i := by
  unfold WaterfallFold.bucket
  rw [agrees.grid, agrees.statN, agrees.statAvg, agrees.statMed, agrees.statStd, agrees.statKurt, agrees.statMax]

end WaterfallFold

namespace StatsFold

def On (grid : Grid) (fold : StatsFold) : Prop := fold.grid = grid

variable {grid : Grid}

theorem On.addWindows (rows : List AvgWindow) (fold : StatsFold) (on : fold.On grid) : (fold.addWindows rows).On grid :=
  on

theorem On.addTiers (rows : List StoredRow) (fold : StatsFold) (on : fold.On grid) : (fold.addTiers rows).On grid := on

section Buckets

variable (positive : 0 < grid.bucketSec)
include positive

theorem observes_stat {M : Type*} (op : M → M → M) (e : M) [Std.Associative op] [Std.LawfulIdentity op e]
    (get : StatsFold → Nat → M) (f : AvgWindow → M) (g : StoredRow → M)
    (windows : ∀ rows fold, get (addWindows rows fold) =
      addRuns op f (runs (fun w : AvgWindow => fold.grid.index w.startTime) rows) (get fold))
    (tiers : ∀ rows fold, get (addTiers rows fold) =
      addRuns op g (runs (fun r : StoredRow => fold.grid.index r.bucketEpoch) rows) (get fold)) :
    Observes addWindows addTiers (On grid) (pointwise op) (fun _ => e) get
      (fun w => single e (grid.index w.startTime) (f w)) fun r => single e (grid.index r.bucketEpoch) (g r) := by
  refine Observes.ofRows positive On.addWindows On.addTiers ?_ ?_
  · rintro rows fold rfl _
    exact windows rows fold
  · rintro rows fold rfl
    exact tiers rows fold

theorem observes_n : Observes addWindows addTiers (On grid) (pointwise (· + ·)) (fun _ => 0) n
    (fun w => single 0 (grid.index w.startTime) 1) fun r => single 0 (grid.index r.bucketEpoch) r.n :=
  observes_stat positive (· + ·) 0 n (fun _ => 1) StoredRow.n (fun _ _ => rfl) fun _ _ => rfl

end Buckets

theorem observes_gmin : Observes addWindows addTiers (On grid) (Option.merge min) none gmin AvgWindow.floorAvg
    fun r => if r.maxMax.isSome ∧ r.minAvg.isSome then r.minAvg else none := by
  refine ⟨fun rows fold on _ => ⟨on, congrArg (Option.merge min fold.gmin) ?_⟩, fun rows fold on _ => ⟨on, ?_⟩⟩
  · have total := tally_map (Option.merge min) none id (fun w : AvgWindow => some w.pwrAvg)
      (rows.filter fun w => w.pwrMax.isSome)
    refine total.trans ((tally_filter _ _ _ _ _).trans (tally_congr _ _ fun w _ => ?_))
    unfold AvgWindow.floorAvg
    cases w.pwrMax <;> rfl
  · refine (foldl_eq_op_tally (Option.merge min) none _ _ _).trans (congrArg (Option.merge min fold.gmin) ?_)
    exact (tally_filter _ _ _ _ _).trans (tally_congr _ _ fun r _ => by simp only [decide_eq_true_eq])

theorem observes_gmax : Observes addWindows addTiers (On grid) (Option.merge max) none gmax AvgWindow.pwrMax
    fun r => if r.maxMax.isSome ∧ r.minAvg.isSome then r.maxMax else none := by
  refine ⟨fun rows fold on _ => ⟨on, congrArg (Option.merge max fold.gmax) ?_⟩, fun rows fold on _ => ⟨on, ?_⟩⟩
  · have total := tally_map (Option.merge max) none id AvgWindow.pwrMax (rows.filter fun w => w.pwrMax.isSome)
    refine total.trans ((tally_filter _ _ _ _ _).trans (tally_congr _ _ fun w _ => ?_))
    simp only [id]
    cases w.pwrMax <;> rfl
  · refine (foldl_eq_op_tally (Option.merge max) none _ _ _).trans (congrArg (Option.merge max fold.gmax) ?_)
    exact (tally_filter _ _ _ _ _).trans (tally_congr _ _ fun r _ => by simp only [decide_eq_true_eq])

/-- A row has a floor when it has a maximum. -/
theorem isSome_minAvg {level : Nat} {r : StoredRow} (exact : r.Exact level) : r.minAvg.isSome = r.maxMax.isSome := by
  have floor : r.minAvg = tally (Option.merge min) none AvgWindow.floorAvg r.windows := exact.minAvg
  have top : r.maxMax = tally (Option.merge max) none AvgWindow.pwrMax r.windows := exact.maxMax
  rw [floor, top, tally_hom _ _ fun _ _ => Option.isSome_merge, tally_hom _ _ fun _ _ => Option.isSome_merge]
  exact tally_congr _ _ fun w _ => Option.isSome_map

section Tiered

variable {level : Nat} {db : SensorDatabase} {since : ℚ} (covers : db.Covers level since)
  (aligned : grid.Aligned level) (filter : TuningFilter) (until_ : ℚ) {fold : StatsFold} (on : fold.On grid)
include covers aligned on

theorem foldTiered_stat {M : Type*} (op : M → M → M) (e : M) [Std.Associative op] [Std.Commutative op]
    [Std.LawfulIdentity op e] (get : StatsFold → Nat → M) (f : AvgWindow → M) (g : StoredRow → M)
    (windows : ∀ rows fold, get (addWindows rows fold) =
      addRuns op f (runs (fun w : AvgWindow => fold.grid.index w.startTime) rows) (get fold))
    (tiers : ∀ rows fold, get (addTiers rows fold) =
      addRuns op g (runs (fun r : StoredRow => fold.grid.index r.bucketEpoch) rows) (get fold))
    (sums : ∀ r : StoredRow, r.Exact level → g r = tally op e f r.windows) :
    get (db.foldTiered addWindows addTiers filter since until_ level fold) =
      get (db.foldWindows addWindows filter since until_ fold) :=
  (observes_stat (aligned.bucketSec_pos covers.positive) op e get f g windows tiers).buckets_eq covers aligned filter
    until_ (fun r member => sums r (covers.exact member)) on

/-- A tiered read of the timelines is the read of the windows. -/
theorem foldTiered_eq : db.foldTiered addWindows addTiers filter since until_ level fold =
    db.foldWindows addWindows filter since until_ fold := by
  have floors : ∀ r ∈ db.tierRange filter since until_ level,
      (if r.maxMax.isSome ∧ r.minAvg.isSome then r.minAvg else none) =
        tally (Option.merge min) none AvgWindow.floorAvg r.windows := fun r member => by
    refine Eq.trans ?_ (TierRow.Exact.minAvg (covers.exact member))
    have both := isSome_minAvg (covers.exact member)
    change _ = r.minAvg
    cases floor : r.minAvg <;> simp_all
  have tops : ∀ r ∈ db.tierRange filter since until_ level,
      (if r.maxMax.isSome ∧ r.minAvg.isSome then r.maxMax else none) =
        tally (Option.merge max) none AvgWindow.pwrMax r.windows := fun r member => by
    refine Eq.trans ?_ (TierRow.Exact.maxMax (covers.exact member))
    have both := isSome_minAvg (covers.exact member)
    change _ = r.maxMax
    cases top : r.maxMax <;> simp_all
  have tiered := (observes_gmin.foldTiered covers filter until_ floors on).1
  have raw := (observes_gmin.foldWindows db filter since until_ on).1
  refine StatsFold.ext (tiered.trans raw.symm) ?_ ?_ ?_ ?_ ?_ ?_
    (observes_gmin.foldTiered_eq covers filter until_ floors on)
    (observes_gmax.foldTiered_eq covers filter until_ tops on)
  · refine foldTiered_stat covers aligned filter until_ on (· + ·) 0 n (fun _ => 1) StoredRow.n (fun _ _ => rfl)
      (fun _ _ => rfl) fun r exact => ?_
    rw [← length_eq_tally]
    exact exact.n
  · exact foldTiered_stat covers aligned filter until_ on (· + ·) 0 avg AvgWindow.pwrAvg StoredRow.sumAvg (fun _ _ => rfl)
      (fun _ _ => rfl) fun r exact => exact.sumAvg
  · exact foldTiered_stat covers aligned filter until_ on (· + ·) 0 med AvgWindow.pwrMedian StoredRow.sumMedian
      (fun _ _ => rfl) (fun _ _ => rfl) fun r exact => exact.sumMedian
  · exact foldTiered_stat covers aligned filter until_ on (· + ·) 0 std AvgWindow.pwrStd StoredRow.sumStd (fun _ _ => rfl)
      (fun _ _ => rfl) fun r exact => exact.sumStd
  · exact foldTiered_stat covers aligned filter until_ on (· + ·) 0 kurt AvgWindow.kurtosis StoredRow.sumKurtosis
      (fun _ _ => rfl) (fun _ _ => rfl) fun r exact => exact.sumKurtosis
  · exact foldTiered_stat covers aligned filter until_ on (Option.merge max) none mx AvgWindow.pwrMax StoredRow.maxMax
      (fun _ _ => rfl) (fun _ _ => rfl) fun r exact => exact.maxMax

end Tiered
end StatsFold
end RFObserver
