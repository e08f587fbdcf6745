import RFObserver.Storage.FoldReads
import RFObserver.Storage.TierRuns

namespace RFObserver
open Tally

namespace SensorDatabase

variable {db : SensorDatabase} {level : Nat} {since until_ : ℚ}

theorem chooseTier_spec {span bucketSec : ℚ} {maxRows : Nat} {forced : Option ℚ}
    (chosen : chooseTier span maxRows forced = some (level, bucketSec)) : level ∈ tierSeconds ∧ 0 < bucketSec := by
  unfold chooseTier at chosen
  cases given : forced.filter fun bucket => 0 < bucket with
  | some bucket =>
    rw [given] at chosen
    obtain ⟨found, isFound, eq⟩ := Option.map_eq_some_iff.mp chosen
    obtain ⟨rfl, rfl⟩ := Prod.mk.inj eq
    obtain ⟨-, positive⟩ := Option.filter_eq_some_iff.mp given
    exact ⟨List.mem_reverse.mp (List.mem_of_find?_eq_some isFound), of_decide_eq_true positive⟩
  | none =>
    rw [given] at chosen
    obtain ⟨found, isTier, meets⟩ := List.exists_of_findSome?_eq_some chosen
    simp only at meets
    split_ifs at meets with small near
    obtain ⟨rfl, rfl⟩ := Prod.mk.inj (Option.some.inj meets)
    have tier := List.mem_reverse.mp isTier
    have positive : (0 : ℚ) < found := by exact_mod_cast tierSeconds_pos tier
    refine ⟨tier, mul_pos ?_ positive⟩
    have ratio : 1 ≤ span / maxRows / found := (one_le_div positive).mpr (not_lt.mp small)
    have ceil : 0 < ⌈span / maxRows / found - 1 / 10 ^ 9⌉ := Int.ceil_pos.mpr (by linarith)
    exact_mod_cast ceil

theorem coveringTier_spec {span bucketSec : ℚ} {maxRows : Nat} {forced : Option ℚ}
    (covering : db.coveringTier since span maxRows forced = some (level, bucketSec)) :
    level ∈ tierSeconds ∧ 0 < bucketSec ∧ ∃ cover ∈ db.coverage level, (cover : ℚ) ≤ since := by
  obtain ⟨chosen, covered⟩ := Option.filter_eq_some_iff.mp covering
  obtain ⟨tier, positive⟩ := chooseTier_spec chosen
  exact ⟨tier, positive, of_decide_eq_true covered⟩

theorem Sound.covers (sound : db.Sound) (tier : level ∈ tierSeconds)
    (covered : ∃ cover ∈ db.coverage level, (cover : ℚ) ≤ since) : db.Covers level since :=
  ⟨tierSeconds_pos tier, (sound.2 level tier).1, (sound.2 level tier).2, covered⟩

/-- The tiered read of a range counts each of its windows once: all buckets
together, and bucket by bucket where these are whole numbers of periods. -/
def CountsOnce (filter : TuningFilter) (since until_ : ℚ) (level : Nat) (bucketSec : ℚ) (maxBins : Nat)
    (db : SensorDatabase) : Prop :=
  let grid := Grid.create since until_ bucketSec
  let range := db.rangeWindows filter since until_
  let waterfall := db.foldTiered WaterfallFold.addWindows WaterfallFold.addTiers filter since until_ level
    (WaterfallFold.create since until_ bucketSec maxBins)
  let stats := db.foldTiered StatsFold.addWindows StatsFold.addTiers filter since until_ level
    (StatsFold.create since until_ bucketSec)
  ∑ i ∈ Finset.range grid.n, waterfall.statN i = range.length ∧
    ∑ i ∈ Finset.range grid.n, stats.n i = range.length ∧
    ∀ m : Nat, bucketSec = m * level → ∀ i,
      waterfall.statN i = (range.filter fun w => grid.index w.startTime = i).length ∧
        stats.n i = (range.filter fun w => grid.index w.startTime = i).length

/-- Every query that the coverage check sends to a tier counts each window once. -/
def TieredReadsComplete (db : SensorDatabase) : Prop :=
  ∀ (since until_ : ℚ) (maxRows : Nat) (forced : Option ℚ) (level : Nat) (bucketSec : ℚ),
    db.coveringTier since (until_ - since) maxRows forced = some (level, bucketSec) →
    ∀ (filter : TuningFilter) (maxBins : Nat), db.CountsOnce filter since until_ level bucketSec maxBins

theorem Covers.countsOnce (covers : db.Covers level since) (filter : TuningFilter) (until_ : ℚ) {bucketSec : ℚ}
    (positive : 0 < bucketSec) (maxBins : Nat) : db.CountsOnce filter since until_ level bucketSec maxBins := by
  have nonempty := Grid.create_n_pos since until_ bucketSec
  have waterfallOn : (WaterfallFold.create since until_ bucketSec maxBins).On (Grid.create since until_ bucketSec) maxBins :=
    ⟨rfl, rfl⟩
  have statsOn : (StatsFold.create since until_ bucketSec).On (Grid.create since until_ bucketSec) := rfl
  have rows : ∀ r ∈ db.tierRange filter since until_ level, r.n = tally (· + ·) 0 (fun _ => 1) r.windows :=
    fun r member => by
      rw [← length_eq_tally]
      exact TierRow.Exact.n (covers.exact member)
  have waterfall := @WaterfallFold.observes_statN (Grid.create since until_ bucketSec) maxBins positive
  have stats := @StatsFold.observes_n (Grid.create since until_ bucketSec) positive
  refine ⟨?_, ?_, fun m whole i => ?_⟩
  · refine ((waterfall.total nonempty).foldTiered covers filter until_ rows waterfallOn).2.trans ?_
    rw [← length_eq_tally]
    simp [WaterfallFold.create]
  · refine ((stats.total nonempty).foldTiered covers filter until_ rows statsOn).2.trans ?_
    rw [← length_eq_tally]
    simp [StatsFold.create]
  · have aligned : (Grid.create since until_ bucketSec).Aligned level := by
      refine ⟨m, Nat.pos_of_ne_zero ?_, whole, _, rfl⟩
      rintro rfl
      simp [whole] at positive
    constructor
    · rw [WaterfallFold.foldTiered_statN covers aligned filter until_ waterfallOn,
        waterfall.foldWindows_count db filter since until_ waterfallOn]
      exact Nat.zero_add _
    · rw [StatsFold.foldTiered_eq covers aligned filter until_ statsOn,
        stats.foldWindows_count db filter since until_ statsOn]
      exact Nat.zero_add _

theorem Sound.complete (sound : db.Sound) : db.TieredReadsComplete := by
  intro since until_ maxRows forced level bucketSec covering filter maxBins
  obtain ⟨tier, positive, covered⟩ := coveringTier_spec covering
  exact (sound.covers tier covered).countsOnce filter until_ positive maxBins

theorem insertAll_covers {ws : List AvgWindow} (sorted : ws.Pairwise fun v w => v.startTime ≤ w.startTime)
    (tier : level ∈ tierSeconds) (covered : ∃ cover ∈ (create.insertAll ws).coverage level, (cover : ℚ) ≤ since) :
    (create.insertAll ws).Covers level since := by
  have inOrder : ∃ last, ((create.insertAll ws).tierAt level).Ordered level last := by
    cases ws with
    | nil => exact ⟨0, create_ordered level 0⟩
    | cons w ws =>
      have after : ∀ v ∈ w :: ws, w.startTime ≤ v.startTime :=
        List.forall_mem_cons.mpr ⟨le_refl _, (List.pairwise_cons.mp sorted).1⟩
      exact insertAll_ordered sorted after create_noted (fun level _ => create_ordered level w.startTime) level tier
  obtain ⟨last, ordered⟩ := inOrder
  exact ⟨tierSeconds_pos tier, ordered.kept, ordered.whole, covered⟩

/-- Windows that come in order, with PSD rows of one width for each key that
tier rows are looked up by, are read from a tier as they are read one by one. -/
theorem insertAll_tiered {ws : List AvgWindow} (sorted : ws.Pairwise fun v w => v.startTime ≤ w.startTime)
    (width : StoreKey → Nat) (wide : ∀ w ∈ ws, ∀ p ∈ w.powers, p.length = width w.tuning.key)
    (tier : level ∈ tierSeconds) (covered : ∃ cover ∈ (create.insertAll ws).coverage level, (cover : ℚ) ≤ since)
    (until_ : ℚ) {m : Nat} (positive : 0 < m) (filter : TuningFilter) (maxBins : Nat) :
    let db := create.insertAll ws
    let waterfall := WaterfallFold.create since until_ (m * level) maxBins
    let tiered := db.foldTiered WaterfallFold.addWindows WaterfallFold.addTiers filter since until_ level waterfall
    let raw := db.foldWindows WaterfallFold.addWindows filter since until_ waterfall
    let stats := StatsFold.create since until_ (m * level)
    tiered.Agrees raw ∧ (∀ i, tiered.bucket i = raw.bucket i) ∧
      (maxBins = colorBins → tiered.gmin = raw.gmin ∧ tiered.gmax = raw.gmax) ∧
      db.foldTiered StatsFold.addWindows StatsFold.addTiers filter since until_ level stats =
        db.foldWindows StatsFold.addWindows filter since until_ stats ∧
      db.CountsOnce filter since until_ level (m * level) maxBins := by
  have covers := insertAll_covers sorted tier covered
  have aligned : (Grid.create since until_ (m * level)).Aligned level := Grid.create_aligned positive since until_
  have on : (WaterfallFold.create since until_ (m * level) maxBins).On (Grid.create since until_ (m * level)) maxBins :=
    ⟨rfl, rfl⟩
  have rowsWide : ∀ r ∈ (create.insertAll ws).tierRange filter since until_ level,
      ∃ width, AvgWindow.Wide width r.windows := fun r member => by
    refine ⟨width r.tuning.key, fun w held => ?_⟩
    have stored := (List.mem_filter.mp ((covers.row_windows member).subset held)).1
    rw [insertAll_windows] at stored
    have key : w.tuning.key = r.tuning.key := TierRow.Exact.key (covers.exact member) w held
    exact key ▸ wide w stored
  have agrees := WaterfallFold.foldTiered_agrees covers aligned filter until_ on rowsWide
  refine ⟨agrees, agrees.bucket, fun color => ?_, StatsFold.foldTiered_eq covers aligned filter until_ rfl, ?_⟩
  · exact WaterfallFold.foldTiered_range covers filter until_ on color
  · exact covers.countsOnce filter until_ (aligned.bucketSec_pos covers.positive) maxBins

/-- In a run with clean and abrupt restarts whose steps are admitted every
tiered read counts each window once. -/
theorem Reach.complete_restarts (reach : Reach (fun db act => act.Stores ∧ db.Admits act) db) :
    db.TieredReadsComplete :=
  (reach.sound fun _ _ meets => meets.2).complete

/-- So it does in a run where storing rows raises any number of times. -/
theorem Reach.complete_failures (reach : Reach Admits db) : db.TieredReadsComplete :=
  (reach.sound fun _ _ meets => meets).complete

section Histories

def anyTuning : TuningFilter := ⟨none, none, none⟩

/-- A window of a second, with a PSD row of two bins. -/
def second (startTime freqStartHz : ℚ) : AvgWindow :=
  ⟨startTime, ⟨100, 10, none, 2, freqStartHz, 5⟩, -80, some (-70), -81, 2, 0, some [-90, startTime]⟩

/-- Two frequency axes of one key, and a window without PSD row and maximum. -/
def twoAxes : List AvgWindow :=
  [second 0 95, second 4 96, { second 12 95 with powers := none, pwrMax := none }, second 13 95, second 25 96]

theorem insertAll_tiered_twoAxes : ((create.insertAll twoAxes).tierRange anyTuning 0 27 10).map StoredRow.n = [2, 2] ∧
    ((create.insertAll twoAxes).foldTiered WaterfallFold.addWindows WaterfallFold.addTiers anyTuning 0 27 10
      (WaterfallFold.create 0 27 ((1 : ℕ) * (10 : ℕ)) 2)).Agrees
      ((create.insertAll twoAxes).foldWindows WaterfallFold.addWindows anyTuning 0 27
        (WaterfallFold.create 0 27 ((1 : ℕ) * (10 : ℕ)) 2)) :=
  ⟨by decide +kernel, (insertAll_tiered (by decide +kernel) (fun _ => 2) (by decide +kernel) (by decide)
    ⟨0, by decide +kernel⟩ 27 Nat.one_pos anyTuning 2).1⟩

/-- What a read of 30 seconds counts, and what there is to count. -/
def counts (db : SensorDatabase) : Option (Nat × ℚ) × Nat × Nat :=
  (db.coveringTier 0 (30 - 0) 3 (some 10),
    ∑ i ∈ Finset.range (Grid.create 0 30 10).n, (db.foldTiered WaterfallFold.addWindows WaterfallFold.addTiers anyTuning
      0 30 10 (WaterfallFold.create 0 30 10 2)).statN i, (db.rangeWindows anyTuning 0 30).length)

theorem not_complete {counted stored : Nat} (counts : db.counts = (some (10, 10), counted, stored))
    (differ : counted ≠ stored) : ¬ db.TieredReadsComplete := by
  intro complete
  obtain ⟨covering, counts⟩ := Prod.mk.inj counts
  obtain ⟨counted, stored⟩ := Prod.mk.inj counts
  have once := (complete 0 30 3 (some 10) 10 10 covering anyTuning 2).1
  exact differ (counted ▸ stored ▸ once)

/-- A period that is not covered is lost, and one that is closed early gets no
window after the restart. -/
def harmless : List Act :=
  [.insert (second 5 95) true, .abort, .insert (second 12 95) true, .close true, .insert (second 23 95) true,
    .insert (second 31 95) true]

theorem Reach.complete_restarts_harmless : ∃ db, Runs.follow step create harmless = some db ∧
    (db.tierRange anyTuning 10 40 10).map StoredRow.n = [1, 1] ∧ db.TieredReadsComplete := by
  have rows : (Runs.follow step create harmless).map (fun db => (db.tierRange anyTuning 10 40 10).map StoredRow.n) =
      some [1, 1] := by decide +kernel
  have meets : Runs.Meets step (fun db act => act.Stores ∧ db.Admits act) create harmless := by decide +kernel
  obtain ⟨db, goes, same⟩ := Option.map_eq_some_iff.mp rows
  exact ⟨db, goes, same, Reach.complete_restarts (Runs.Reach.start.follow meets goes)⟩

/-- Either kind of restart hides windows: the clean one those of a period it
stored a part of, the abrupt one those it lost the sums of. -/
theorem complete_restarts_fails :
    (¬ ∀ db, Reach (fun _ act => act.Stores ∧ act ≠ .abort) db → db.TieredReadsComplete) ∧
      ¬ ∀ db, Reach (fun _ act => act.Stores ∧ act ≠ .close true) db → db.TieredReadsComplete := by
  constructor
  · intro claimed
    let acts : List Act := [.insert (second 0 95) true, .close true, .insert (second 5 95) true]
    have hidden : (Runs.follow step create acts).map counts = some (some (10, 10), 1, 2) := by decide +kernel
    have meets : Runs.Meets step (fun _ act => act.Stores ∧ act ≠ .abort) create acts := by decide +kernel
    obtain ⟨db, goes, same⟩ := Option.map_eq_some_iff.mp hidden
    exact not_complete same (by decide) (claimed db (Runs.Reach.start.follow meets goes))
  · intro claimed
    let acts : List Act := [.insert (second 0 95) true, .abort, .insert (second 10 95) true, .insert (second 20 95) true]
    have hidden : (Runs.follow step create acts).map counts = some (some (10, 10), 2, 3) := by decide +kernel
    have meets : Runs.Meets step (fun _ act => act.Stores ∧ act ≠ .close true) create acts := by decide +kernel
    obtain ⟨db, goes, same⟩ := Option.map_eq_some_iff.mp hidden
    exact not_complete same (by decide) (claimed db (Runs.Reach.start.follow meets goes))

/-- The second period is not stored, and no later one after it. -/
def newestFails : List Act :=
  [.insert (second 0 95) true, .insert (second 10 95) true, .insert (second 20 95) false, .insert (second 25 95) true]

theorem Reach.complete_failures_newest : ∃ db, Runs.follow step create newestFails = some db ∧
    db.counts = (some (10, 10), 4, 4) ∧ db.TieredReadsComplete := by
  have read : (Runs.follow step create newestFails).map counts = some (some (10, 10), 4, 4) := by decide +kernel
  have meets : Runs.Meets step Admits create newestFails := by decide +kernel
  obtain ⟨db, goes, same⟩ := Option.map_eq_some_iff.mp read
  exact ⟨db, goes, same, Reach.complete_failures (Runs.Reach.start.follow meets goes)⟩

/-- A period that was not stored is hidden once a later one is. -/
theorem complete_failures_fails : ¬ ∀ db, Reach (fun _ act => act.Inserts) db → db.TieredReadsComplete := by
  intro claimed
  let acts : List Act := [.insert (second 0 95) true, .insert (second 10 95) false, .insert (second 20 95) true]
  have hidden : (Runs.follow step create acts).map counts = some (some (10, 10), 2, 3) := by decide +kernel
  have meets : Runs.Meets step (fun _ act => act.Inserts) create acts := by decide +kernel
  obtain ⟨db, goes, same⟩ := Option.map_eq_some_iff.mp hidden
  exact not_complete same (by decide) (claimed db (Runs.Reach.start.follow meets goes))

end Histories
end SensorDatabase
end RFObserver
