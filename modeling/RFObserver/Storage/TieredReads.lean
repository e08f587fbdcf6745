import RFObserver.Storage.AvgFold
import RFObserver.Storage.TierWhole

namespace RFObserver
open Upsert Tally

/-- The stored row of a key holds what its period's rows hold of that key. -/
theorem storedAt_key {level : Nat} {rows : List StoredRow} (distinct : rows.Pairwise fun r r' => r.slot ≠ r'.slot)
    (exact : ∀ r ∈ rows, r.Exact level) {r : StoredRow} (member : r ∈ rows) :
    (storedAt r.bucketEpoch rows).filter (fun w => w.tuning.key = r.tuning.key) = r.windows := by
  have its : ∀ r' ∈ rows, (if r'.bucketEpoch = r.bucketEpoch then r'.windows else []).filter
      (fun w => w.tuning.key = r.tuning.key) = if r'.slot = r.slot then r'.windows else [] := by
    intro r' member'
    have tier : r'.levelSec = r.levelSec := (exact r' member').tier.trans (exact r member).tier.symm
    have keys : ∀ w ∈ r'.windows, w.tuning.key = r'.tuning.key := (exact r' member').key
    by_cases period : r'.bucketEpoch = r.bucketEpoch
    · by_cases key : r'.tuning.key = r.tuning.key
      · rw [if_pos period, if_pos (by simp [StoredRow.slot, tier, period, key]), List.filter_eq_self]
        exact fun w held => by simp [keys w held, key]
      · rw [if_pos period, if_neg (by simp [StoredRow.slot, key]), List.filter_eq_nil_iff]
        exact fun w held => by simp [keys w held, key]
    · rw [if_neg period, if_neg (by simp [StoredRow.slot, period]), List.filter_nil]
  have total : ∀ l : List StoredRow, (∀ r' ∈ l, r'.slot ≠ r.slot) →
      (l.flatMap fun r' => if r'.slot = r.slot then r'.windows else []) = [] := fun l others =>
    List.flatMap_eq_nil_iff.mpr fun r' here => if_neg (others r' here)
  rw [storedAt, flatMap_filter, List.filter_flatMap]
  simp only [decide_eq_true_eq]
  rw [List.flatMap_congr its]
  obtain ⟨before, after, rfl⟩ := List.append_of_mem member
  rw [List.pairwise_append, List.pairwise_cons] at distinct
  rw [List.flatMap_append, List.flatMap_cons, if_pos rfl,
    total before fun r' here => distinct.2.2 r' here r (List.mem_cons_self ..),
    total after fun r' here => (distinct.2.1.1 r' here).symm]
  simp

namespace SensorDatabase

/-- The windows of `[a, b)` that a filter accepts. -/
def rangeWindows (filter : TuningFilter) (a b : ℚ) (db : SensorDatabase) : List AvgWindow :=
  db.windows.filter fun w => a ≤ w.startTime ∧ w.startTime < b ∧ filter.accepts w.tuning.key

variable {db : SensorDatabase} {level : Nat} {filter : TuningFilter} {since until_ : ℚ}

theorem tierRange_perm (db : SensorDatabase) (filter : TuningFilter) (since until_ : ℚ) (level : Nat) :
    (db.tierRange filter since until_ level).Perm ((db.tierAt level).rows.filter fun r =>
      lo since level ≤ r.bucketEpoch ∧ r.bucketEpoch < hi since until_ level ∧ filter.accepts r.tuning.key) := by
  refine (List.perm_insertionSort ..).trans (List.Perm.of_eq ?_)
  rw [tierAt, List.filter_filter]
  exact List.filter_congr fun r _ => by simp [Bool.and_comm (decide (r.levelSec = level))]

theorem mem_tierRange {r : StoredRow} :
    r ∈ db.tierRange filter since until_ level ↔ r ∈ (db.tierAt level).rows ∧ lo since level ≤ r.bucketEpoch ∧
      r.bucketEpoch < hi since until_ level ∧ filter.accepts r.tuning.key := by
  rw [(tierRange_perm ..).mem_iff, List.mem_filter, decide_eq_true_iff]

theorem tierRange_sorted (db : SensorDatabase) (filter : TuningFilter) (since until_ : ℚ) (level : Nat) :
    (db.tierRange filter since until_ level).Pairwise fun r r' => r.bucketEpoch ≤ r'.bucketEpoch := by
  have : Std.Total fun r r' : StoredRow => r.bucketEpoch ≤ r'.bucketEpoch := ⟨fun r r' => le_total ..⟩
  have : IsTrans StoredRow fun r r' => r.bucketEpoch ≤ r'.bucketEpoch := ⟨fun _ _ _ => le_trans⟩
  exact List.pairwise_insertionSort ..

theorem tierRange_distinct (distinct : (db.tierAt level).rows.Pairwise fun r r' => r.slot ≠ r'.slot) :
    (db.tierRange filter since until_ level).Pairwise fun r r' => r.slot ≠ r'.slot := by
  exact (tierRange_perm ..).symm.pairwise (distinct.filter _) fun different => different.symm

theorem dvd_lo (since : ℚ) (level : Nat) : (level : ℤ) ∣ lo since level := dvd_mul_left ..

theorem dvd_hi (since until_ : ℚ) (level : Nat) : (level : ℤ) ∣ hi since until_ level := by
  rcases max_choice (lo since level) (⌊until_ / level⌋ * level) with eq | eq <;> rw [hi, eq]
  · exact dvd_lo ..
  · exact dvd_mul_left ..

theorem since_le_lo (positive : 0 < level) (since : ℚ) : since ≤ lo since level := by
  have pos : (0 : ℚ) < level := by exact_mod_cast positive
  have above := mul_le_mul_of_nonneg_right (Int.le_ceil (since / level)) pos.le
  rw [div_mul_cancel₀ _ pos.ne'] at above
  simpa [lo] using above

theorem hi_le (positive : 0 < level) (lt : lo since level < hi since until_ level) :
    (hi since until_ level : ℚ) ≤ until_ := by
  have eq : hi since until_ level = bucketEpoch level until_ := by
    unfold hi bucketEpoch at *
    omega
  exact eq ▸ bucketEpoch_le positive until_

/-- Up to the end of the newest stored period there are rows. -/
theorem coverEnd_cases (kept : (db.tierAt level).Kept level) (filter : TuningFilter) (since until_ : ℚ) :
    (db.tierRange filter since until_ level = [] ∧ db.coverEnd filter since until_ level = lo since level) ∨
      ∃ newest ∈ db.tierRange filter since until_ level,
        db.coverEnd filter since until_ level = newest.bucketEpoch + level ∧
        ∀ r ∈ db.tierRange filter since until_ level, r.bucketEpoch ≤ newest.bucketEpoch := by
  have sorted := tierRange_sorted db filter since until_ level
  unfold coverEnd
  rcases List.eq_nil_or_concat (db.tierRange filter since until_ level) with none | ⟨before, newest, split⟩
  · exact Or.inl ⟨none, by simp [none]⟩
  · have isThere : newest ∈ db.tierRange filter since until_ level := by simp [split]
    obtain ⟨stored, -, below, -⟩ := mem_tierRange.mp isThere
    refine Or.inr ⟨newest, isThere, ?_, fun r member => ?_⟩
    · have aligned : (level : ℤ) ∣ newest.bucketEpoch := (kept.stored newest stored).aligned
      have fits := add_le_of_lt aligned (dvd_hi since until_ level) below
      simp [split, fits]
    · rw [split, List.concat_eq_append, List.pairwise_append] at sorted
      rw [split, List.concat_eq_append, List.mem_append] at member
      rcases member with earlier | last
      · exact sorted.2.2 r earlier newest (List.mem_singleton_self newest)
      · rw [List.mem_singleton.mp last]

theorem lo_le_coverEnd (positive : 0 < level) (kept : (db.tierAt level).Kept level) (filter : TuningFilter)
    (since until_ : ℚ) :
    lo since level ≤ db.coverEnd filter since until_ level ∧ (level : ℤ) ∣ db.coverEnd filter since until_ level ∧
      (lo since level < db.coverEnd filter since until_ level →
        (db.coverEnd filter since until_ level : ℚ) ≤ until_) := by
  rcases coverEnd_cases kept filter since until_ with
    ⟨-, atLo⟩ | ⟨newest, isThere, atEnd, -⟩
  · rw [atLo]
    exact ⟨le_refl _, dvd_lo .., fun lt => absurd lt (lt_irrefl _)⟩
  · obtain ⟨stored, from_, below, -⟩ := mem_tierRange.mp isThere
    have aligned : (level : ℤ) ∣ newest.bucketEpoch := (kept.stored newest stored).aligned
    have fits := add_le_of_lt aligned (dvd_hi since until_ level) below
    rw [atEnd]
    refine ⟨by omega, dvd_add_self_right.mpr aligned, fun _ => ?_⟩
    exact le_trans (by exact_mod_cast fits) (hi_le positive (lt_of_le_of_lt from_ below))

/-- A tier that is complete from before `since` on. -/
structure Covers (db : SensorDatabase) (level : Nat) (since : ℚ) : Prop where
  positive : 0 < level
  kept : (db.tierAt level).Kept level
  whole : (db.tierAt level).Whole level
  since : ∃ cover ∈ db.coverage level, (cover : ℚ) ≤ since

namespace Covers

variable (covers : db.Covers level since)
include covers

theorem exact {r : StoredRow} (member : r ∈ db.tierRange filter since until_ level) : r.Exact level :=
  covers.kept.stored r (mem_tierRange.mp member).1

/-- Stored periods of the range, and those before the newest of them, are complete. -/
theorem stored_windows {newest : StoredRow} (member : newest ∈ db.tierRange filter since until_ level) {bucket : ℤ}
    (from_ : lo since level ≤ bucket) (le : bucket ≤ newest.bucketEpoch) :
    (storedAt bucket (db.tierAt level).rows).Perm (windowsAt level bucket db.windows) := by
  obtain ⟨cover, isCover, covered⟩ := covers.since
  have before : cover ≤ lo since level := by exact_mod_cast covered.trans (since_le_lo covers.positive since)
  exact covers.whole cover isCover newest (mem_tierRange.mp member).1 bucket (before.trans from_) le

/-- A stored row in the range holds the windows of its period and key. -/
theorem row_windows {r : StoredRow} (member : r ∈ db.tierRange filter since until_ level) :
    r.windows.Perm (db.windows.filter fun w =>
      bucketEpoch level w.startTime = r.bucketEpoch ∧ w.tuning.key = r.tuning.key) := by
  obtain ⟨stored, from_, -, -⟩ := mem_tierRange.mp member
  have held := covers.stored_windows member from_ (le_refl _)
  have ofKey := held.filter fun w => w.tuning.key = r.tuning.key
  rw [storedAt_key covers.kept.distinct covers.kept.stored stored, windowsAt, List.filter_filter] at ofKey
  refine ofKey.trans (List.Perm.of_eq (List.filter_congr fun w _ => ?_))
  simp [Bool.and_comm]

/-- The stored rows of the range hold what was stored up to the end of the newest. -/
theorem rows_windows (filter : TuningFilter) (until_ : ℚ) : ((db.tierRange filter since until_ level).flatMap StoredRow.windows).Perm
    (db.windows.filter fun w => lo since level ≤ bucketEpoch level w.startTime ∧
      bucketEpoch level w.startTime < db.coverEnd filter since until_ level ∧ filter.accepts w.tuning.key) := by
  have positive := covers.positive
  have kept := covers.kept
  have eachRow := List.Perm.flatMap_left (db.tierRange filter since until_ level) fun r member =>
    covers.row_windows member
  refine eachRow.trans ((flatMap_filter_perm ?_).trans (List.Perm.of_eq (List.filter_congr fun w isWindow => ?_)))
  · refine (tierRange_distinct kept.distinct).imp_of_mem fun {r r'} member member' different w _ taken also => ?_
    have taken := of_decide_eq_true taken
    have also := of_decide_eq_true also
    have tier : r.levelSec = level := (kept.stored r (mem_tierRange.mp member).1).tier
    have tier' : r'.levelSec = level := (kept.stored r' (mem_tierRange.mp member').1).tier
    refine different ?_
    simp only [StoredRow.slot, tier, tier', Prod.mk.injEq, true_and]
    exact ⟨taken.1.symm.trans also.1, taken.2.symm.trans also.2⟩
  · rw [Bool.eq_iff_iff, List.any_eq_true, decide_eq_true_iff]
    rcases coverEnd_cases kept filter since until_ with
      ⟨none, atLo⟩ | ⟨newest, isThere, atEnd, last⟩
    · rw [none, atLo]
      constructor
      · rintro ⟨r, member, -⟩
        cases member
      · rintro ⟨from_, before, -⟩
        omega
    · obtain ⟨newestStored, -, newestBefore, -⟩ := mem_tierRange.mp isThere
      constructor
      · rintro ⟨r, member, taken⟩
        obtain ⟨period, key⟩ := of_decide_eq_true taken
        obtain ⟨-, from_, -, accepted⟩ := mem_tierRange.mp member
        have upToNewest := last r member
        exact ⟨by omega, by omega, key ▸ accepted⟩
      · rintro ⟨from_, before, accepted⟩
        have aligned : (level : ℤ) ∣ newest.bucketEpoch := (kept.stored newest newestStored).aligned
        have le : bucketEpoch level w.startTime ≤ newest.bucketEpoch := not_lt.mp fun later => by
          have past := add_le_of_lt aligned (dvd_bucketEpoch w.startTime) later
          omega
        have held := covers.stored_windows isThere from_ le
        have isHeld := held.mem_iff.mpr (List.mem_filter.mpr ⟨isWindow, decide_eq_true rfl⟩)
        obtain ⟨r, isRow, inRow⟩ := List.mem_flatMap.mp isHeld
        obtain ⟨stored, period⟩ := List.mem_filter.mp isRow
        have period := of_decide_eq_true period
        have key : w.tuning.key = r.tuning.key := (kept.stored r stored).key w inRow
        refine ⟨r, mem_tierRange.mpr ⟨stored, by omega, by omega, key ▸ accepted⟩, decide_eq_true ⟨period.symm, key⟩⟩

/-- The windows before the first whole period, those of the stored rows and
those after the newest stored period are the windows of the range. -/
theorem tiered_windows (filter : TuningFilter) (until_ : ℚ) :
    (db.rangeWindows filter since (min (lo since level) until_) ++
      (db.tierRange filter since until_ level).flatMap StoredRow.windows ++
      db.rangeWindows filter (max (max (db.coverEnd filter since until_ level) (lo since level) : ℤ) since) until_).Perm
      (db.rangeWindows filter since until_) := by
  have positive := covers.positive
  have sinceLo := since_le_lo positive since
  obtain ⟨loEnd, alignedEnd, endUntil⟩ := lo_le_coverEnd positive covers.kept filter since until_
  have mid := covers.rows_windows filter until_
  generalize db.coverEnd filter since until_ level = cut at loEnd alignedEnd endUntil mid ⊢
  have loEnd' : (lo since level : ℚ) ≤ cut := by exact_mod_cast loEnd
  have from_ : max ((max cut (lo since level) : ℤ) : ℚ) since = cut := by
    rw [max_eq_left loEnd, max_eq_left (sinceLo.trans loEnd')]
  have inMid : ∀ w : AvgWindow, (lo since level ≤ bucketEpoch level w.startTime ∧
      bucketEpoch level w.startTime < cut) ↔ ((lo since level : ℚ) ≤ w.startTime ∧ w.startTime < cut) := fun w => by
    rw [le_bucketEpoch positive (dvd_lo since level), ← not_le, le_bucketEpoch positive alignedEnd, not_le]
  unfold rangeWindows
  rw [from_]
  refine ((mid.append_left _).append_right _).trans ?_
  refine ((filter_or_perm fun w _ early also => ?_).append_right _).trans
    ((filter_or_perm fun w _ before late => ?_).trans (List.Perm.of_eq (List.filter_congr fun w _ => ?_)))
  · have early := of_decide_eq_true early
    obtain ⟨start, stop, -⟩ := of_decide_eq_true also
    have also := (inMid w).mp ⟨start, stop⟩
    exact absurd (lt_of_lt_of_le early.2.1 (min_le_left ..)) (not_lt.mpr also.1)
  · have late := of_decide_eq_true late
    rcases Bool.or_eq_true_iff.mp before with early | between
    · have early := of_decide_eq_true early
      exact absurd (lt_of_lt_of_le early.2.1 (min_le_left ..)) (not_lt.mpr (loEnd'.trans late.1))
    · obtain ⟨start, stop, -⟩ := of_decide_eq_true between
      have between := (inMid w).mp ⟨start, stop⟩
      exact absurd between.2 (not_lt.mpr late.1)
  · rw [Bool.eq_iff_iff, Bool.or_eq_true, Bool.or_eq_true, decide_eq_true_iff, decide_eq_true_iff, decide_eq_true_iff,
      decide_eq_true_iff, ← and_assoc (a := lo since level ≤ _), inMid, lt_min_iff]
    constructor
    · rintro ((⟨start, ⟨_, stop⟩, accepted⟩ | ⟨⟨start, stop⟩, accepted⟩) | ⟨start, stop, accepted⟩)
      · exact ⟨start, stop, accepted⟩
      · have lt : lo since level < cut := by exact_mod_cast lt_of_le_of_lt start stop
        exact ⟨sinceLo.trans start, lt_of_lt_of_le stop (endUntil lt), accepted⟩
      · exact ⟨(sinceLo.trans loEnd').trans start, stop, accepted⟩
    · rintro ⟨start, stop, accepted⟩
      by_cases early : w.startTime < lo since level
      · exact Or.inl (Or.inl ⟨start, ⟨early, stop⟩, accepted⟩)
      · by_cases between : w.startTime < cut
        · exact Or.inl (Or.inr ⟨⟨not_lt.mp early, between⟩, accepted⟩)
        · exact Or.inr ⟨not_lt.mp between, stop, accepted⟩

end Covers
end SensorDatabase
end RFObserver
