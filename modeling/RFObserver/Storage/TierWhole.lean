import RFObserver.Storage.TierLedger

namespace RFObserver
namespace TierLevel

/-- The windows of a period that the tier counts, in stored and open rows. -/
def counted (bucket : ℤ) (t : TierLevel) : Nat :=
  ((t.rows.filter fun r => r.bucketEpoch = bucket).map StoredRow.n).sum +
    ((t.openRows.filter fun r => r.bucketEpoch = bucket).map TierRow.n).sum

/-- The tier counts fewer windows of a period than were stored. -/
def Missing (level : Nat) (bucket : ℤ) (t : TierLevel) : Prop :=
  t.counted bucket < (windowsAt level bucket t.windows).length

instance (level : Nat) (bucket : ℤ) (t : TierLevel) : Decidable (t.Missing level bucket) :=
  inferInstanceAs (Decidable (_ < _))

/-- No row to store is of a period at or after a covered one that misses windows. -/
def Storable (level : Nat) (cover : ℤ) (done : List TierRow) (t : TierLevel) : Prop :=
  ∀ r ∈ done, ∀ w ∈ t.windows, cover ≤ bucketEpoch level w.startTime → bucketEpoch level w.startTime ≤ r.bucketEpoch →
    ¬ t.Missing level (bucketEpoch level w.startTime)

instance (level : Nat) (cover : ℤ) (done : List TierRow) (t : TierLevel) : Decidable (t.Storable level cover done) :=
  inferInstanceAs (Decidable (∀ r ∈ done, _))

/-- A window of a covered period comes before any row of its period or a
later one is stored, and the rows that are stored may be. -/
def Admits (level : Nat) (t : TierLevel) : SensorDatabase.Act → Prop
  | .insert w stores => ∀ cover ∈ t.coverage,
      (cover ≤ bucketEpoch level w.startTime → ∀ r ∈ t.rows, r.bucketEpoch < bucketEpoch level w.startTime) ∧
        (stores = true → t.Storable level cover (t.openRows.filter fun r => r.Over w.startTime))
  | .close stores => ∀ cover ∈ t.coverage, stores = true → t.Storable level cover t.openRows
  | .abort => True

instance (level : Nat) (t : TierLevel) : ∀ act, Decidable (t.Admits level act)
  | .insert _ _ => inferInstanceAs (Decidable (∀ cover ∈ t.coverage, _ ∧ _))
  | .close _ => inferInstanceAs (Decidable (∀ cover ∈ t.coverage, _ → _))
  | .abort => inferInstanceAs (Decidable True)

/-- Some of the open rows leave the sums, stored unless storing them raises. -/
def release (p : TierRow → Bool) (stores : Bool) (t : TierLevel) : TierLevel :=
  { t with
    rows := if stores then storeTierRows t.rows (t.openRows.filter p) else t.rows
    openRows := t.openRows.filter fun r => !p r }

/-- A window is stored and added to the row it belongs to. -/
def take (level : Nat) (w : AvgWindow) (t : TierLevel) : TierLevel where
  windows := t.windows ++ [w]
  rows := t.rows
  openRows := addRow level w t.openRows
  coverage := some (t.coverage.getD (⌈w.startTime / level⌉ * level))

variable {level : Nat} {t : TierLevel} {w : AvgWindow}

theorem insert_eq (level : Nat) (w : AvgWindow) (stores : Bool) (t : TierLevel) :
    t.insert level w stores = (t.release (fun r => r.Over w.startTime) stores).take level w := by
  simp only [insert, release, take, decide_not]

theorem close_eq (stores : Bool) (t : TierLevel) : t.close stores = t.release (fun _ => true) stores := by
  simp [close, release]

theorem abort_eq (t : TierLevel) : { t with openRows := [] } = t.release (fun _ => true) false := by
  simp [release]

/-- What every run keeps: rows are exact and of different keys, and no window
is held twice. -/
structure Kept (level : Nat) (t : TierLevel) : Prop where
  distinct : t.rows.Pairwise fun r r' => r.slot ≠ r'.slot
  stored : ∀ r ∈ t.rows, r.Exact level
  opened : ∀ r ∈ t.openRows, r.Exact level
  once : t.openRows.Pairwise fun r r' => r.tuning ≠ r'.tuning
  part : ∀ bucket, (storedAt bucket t.rows ++ openAt bucket t.openRows).Subperm (windowsAt level bucket t.windows)
  unnoted : t.coverage = none → t.rows = [] ∧ t.openRows = []

/-- No window of a covered period up to the newest stored one is missing. -/
def Whole (level : Nat) (t : TierLevel) : Prop :=
  ∀ cover ∈ t.coverage, ∀ r ∈ t.rows, ∀ bucket, cover ≤ bucket → bucket ≤ r.bucketEpoch →
    (storedAt bucket t.rows).Perm (windowsAt level bucket t.windows)

/-- No window is missing at all. -/
def Full (level : Nat) (t : TierLevel) : Prop :=
  ∀ bucket, (storedAt bucket t.rows ++ openAt bucket t.openRows).Perm (windowsAt level bucket t.windows)

theorem release_windows (p : TierRow → Bool) (t : TierLevel) (bucket : ℤ) :
    (storedAt bucket (t.release p true).rows ++ openAt bucket (t.release p true).openRows).Perm
      (storedAt bucket t.rows ++ openAt bucket t.openRows) := by
  refine ((storeTierRows_windows t.rows (t.openRows.filter p) bucket).append_right _).trans ?_
  rw [List.append_assoc]
  exact (openAt_split p t.openRows bucket).append_left _

namespace Kept

theorem release (kept : t.Kept level) (p : TierRow → Bool) (stores : Bool) : (t.release p stores).Kept level where
  distinct := by
    cases stores with
    | false => exact kept.distinct
    | true => exact storeTierRows_distinct _ kept.distinct
  stored := by
    cases stores with
    | false => exact kept.stored
    | true => exact storeTierRows_exact kept.stored fun r member => kept.opened r (List.mem_filter.mp member).1
  opened := fun r member => kept.opened r (List.mem_filter.mp member).1
  once := kept.once.filter _
  part := fun bucket => by
    cases stores with
    | false =>
      have rest := (openAt_split p t.openRows bucket).subperm
      exact ((List.subperm_append_left _).mpr ((List.sublist_append_right ..).subperm.trans rest)).trans
        (kept.part bucket)
    | true => exact (release_windows p t bucket).subperm.trans (kept.part bucket)
  unnoted := fun none => by
    obtain ⟨rows, openRows⟩ := kept.unnoted none
    cases stores <;> simp [TierLevel.release, rows, openRows, storeTierRows]

section Take

variable (kept : t.Kept level) (positive : 0 < level) (unfinished : ∀ r ∈ t.openRows, ¬ r.Over w.startTime)
include kept positive unfinished

theorem take : (t.take level w).Kept level where
  distinct := kept.distinct
  stored := kept.stored
  opened := addRow_exact positive kept.opened kept.once unfinished
  once := addRow_once (fun r member => (kept.opened r member).tier) kept.once
  part := fun bucket => by
    have held := kept.part bucket
    simp only [TierLevel.take, windowsAt, List.filter_append] at held ⊢
    rcases addRow_openAt positive kept.opened kept.once unfinished with ⟨_, _, _, _, same⟩ | added
    · rw [same]
      exact held.trans (List.sublist_append_left ..).subperm
    · refine (((added bucket).append_left _).trans (List.Perm.of_eq (List.append_assoc ..).symm)).subperm.trans ?_
      exact (List.subperm_append_right _).mpr held
  unnoted := fun none => by cases none

/-- Unless the window is late for its row, it is held. -/
theorem full_take (full : t.Full level)
    (inTime : ∀ r ∈ t.openRows, r.tuning = w.tuning → (r.bucketEpoch : ℚ) ≤ w.startTime) :
    (t.take level w).Full level := by
  intro bucket
  simp only [TierLevel.take, windowsAt, List.filter_append]
  rcases addRow_openAt positive kept.opened kept.once unfinished with ⟨r, member, its, late, _⟩ | added
  · exact absurd late (not_lt.mpr (inTime r member its))
  · refine ((added bucket).append_left _).trans ?_
    rw [← List.append_assoc]
    exact (full bucket).append_right _

end Take

theorem counted_eq (kept : t.Kept level) (bucket : ℤ) :
    t.counted bucket = (storedAt bucket t.rows ++ openAt bucket t.openRows).length := by
  rw [counted, storedAt, openAt, List.length_append, List.length_flatMap, List.length_flatMap]
  congr 2
  · exact List.map_congr_left fun r member => (kept.stored r (List.mem_filter.mp member).1).n
  · exact List.map_congr_left fun r member => (kept.opened r (List.mem_filter.mp member).1).n

theorem perm_of_not_missing (kept : t.Kept level) {bucket : ℤ} (found : ¬ t.Missing level bucket) :
    (storedAt bucket t.rows ++ openAt bucket t.openRows).Perm (windowsAt level bucket t.windows) := by
  rw [Missing, kept.counted_eq, not_lt] at found
  exact (kept.part bucket).perm_of_length_le found

end Kept

theorem Full.release {p : TierRow → Bool} (full : t.Full level) : (t.release p true).Full level :=
  fun bucket => (release_windows p t bucket).trans (full bucket)

theorem Full.storable (kept : t.Kept level) (full : t.Full level) (cover : ℤ) (done : List TierRow) :
    t.Storable level cover done := by
  intro _ _ w _ _ _
  rw [Missing, kept.counted_eq, (full _).length_eq]
  exact lt_irrefl _

namespace Whole

/-- Rows leave in the order of their periods, and a stored one leaves no
window behind that it would hide. -/
theorem release (kept : t.Kept level) (whole : t.Whole level) {p : TierRow → Bool} {stores : Bool}
    (order : ∀ r ∈ t.openRows, ∀ r' ∈ t.openRows, p r' = true → r.bucketEpoch ≤ r'.bucketEpoch → p r = true)
    (storable : stores = true → ∀ cover ∈ t.coverage, t.Storable level cover (t.openRows.filter p)) :
    (t.release p stores).Whole level := by
  cases stores with
  | false => exact whole
  | true =>
    intro cover isCover r member bucket covered le
    refine (storeTierRows_windows t.rows (t.openRows.filter p) bucket).trans ?_
    rcases storeTierRows_bucket member with ⟨old, isOld, same⟩ | ⟨done, isDone, same⟩
    · have before := whole cover isCover old isOld bucket covered (same ▸ le)
      have none : openAt bucket t.openRows = [] := by
        have part := (kept.part bucket).length_le
        rw [List.length_append, before.length_eq] at part
        exact List.eq_nil_of_length_eq_zero (by omega)
      have split := openAt_split p t.openRows bucket
      rw [none] at split
      rw [(List.append_eq_nil_iff.mp split.eq_nil).1, List.append_nil]
      exact before
    · have found : ¬ t.Missing level bucket := fun missing => by
        obtain ⟨w, isThere⟩ := List.exists_mem_of_length_pos (Nat.zero_lt_of_lt missing)
        obtain ⟨isWindow, inPeriod⟩ := List.mem_filter.mp isThere
        have inPeriod := of_decide_eq_true inPeriod
        refine storable rfl cover isCover done isDone w isWindow (by rwa [inPeriod]) ?_ (inPeriod ▸ missing)
        rwa [inPeriod, same]
      have all : t.openRows.filter (fun r => r.bucketEpoch = bucket) =
          (t.openRows.filter p).filter fun r => r.bucketEpoch = bucket := by
        rw [List.filter_filter]
        refine List.filter_congr fun r isOpen => ?_
        by_cases here : r.bucketEpoch = bucket
        · obtain ⟨isDone, leaves⟩ := List.mem_filter.mp isDone
          simp [here, order r isOpen done isDone leaves (by rw [here, same]; exact le)]
        · simp [here]
      have perm := kept.perm_of_not_missing found
      rwa [openAt, all] at perm

/-- A covered window comes to a period after all the stored ones. -/
theorem take (whole : t.Whole level) (kept : t.Kept level)
    (after : ∀ cover ∈ t.coverage, cover ≤ bucketEpoch level w.startTime →
      ∀ r ∈ t.rows, r.bucketEpoch < bucketEpoch level w.startTime) : (t.take level w).Whole level := by
  intro cover isCover r member bucket covered le
  cases coverage : t.coverage with
  | none =>
    rw [show (t.take level w).rows = t.rows from rfl, (kept.unnoted coverage).1] at member
    cases member
  | some c =>
    obtain rfl : c = cover := by simpa [TierLevel.take, coverage] using isCover
    have others : bucketEpoch level w.startTime ≠ bucket := by
      rintro rfl
      exact absurd le (not_le.mpr (after c coverage covered r member))
    have before := whole c coverage r member bucket covered le
    simpa [TierLevel.take, windowsAt, List.filter_append, others] using before

end Whole
end TierLevel
end RFObserver
