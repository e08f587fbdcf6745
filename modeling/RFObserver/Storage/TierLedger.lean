import RFObserver.Storage.RowSums
import RFObserver.Storage.TierLevel

namespace RFObserver
open Upsert

/-- What a stored row is looked up by. -/
def StoredRow.slot (r : StoredRow) : Nat × ℤ × StoreKey := (r.levelSec, r.bucketEpoch, r.tuning.key)

/-- The windows that stored rows of a period hold. -/
def storedAt (bucket : ℤ) (rows : List StoredRow) : List AvgWindow :=
  (rows.filter fun r => r.bucketEpoch = bucket).flatMap StoredRow.windows

/-- The windows that open rows of a period hold. -/
def openAt (bucket : ℤ) (rows : List TierRow) : List AvgWindow :=
  (rows.filter fun r => r.bucketEpoch = bucket).flatMap TierRow.windows

def windowsAt (level : Nat) (bucket : ℤ) (ws : List AvgWindow) : List AvgWindow :=
  ws.filter fun w => bucketEpoch level w.startTime = bucket

theorem sameRow_iff {row : TierRow} {r : StoredRow} :
    row.sameRow r = true ↔ r.slot = (row.levelSec, row.bucketEpoch, row.tuning.key) := by
  simp [TierRow.sameRow, StoredRow.slot]

theorem storeTierRow_eq (rows : List StoredRow) (row : TierRow) :
    storeTierRow rows row =
      upsert row.sameRow row.stored (fun old => ((old.reopen row.tuning).merge row).stored) rows := by
  unfold storeTierRow upsert
  cases rows.find? row.sameRow <;> rfl

theorem storeTierRow_distinct {rows : List StoredRow} (row : TierRow)
    (distinct : rows.Pairwise fun r r' => r.slot ≠ r'.slot) :
    (storeTierRow rows row).Pairwise fun r r' => r.slot ≠ r'.slot := by
  rw [storeTierRow_eq]
  refine upsert_distinct (fun r _ => sameRow_iff) rfl (fun old _ same => ?_) distinct
  have slot := sameRow_iff.mp same
  simp only [StoredRow.slot, Prod.mk.injEq] at slot ⊢
  exact ⟨slot.1, slot.2.1, rfl⟩

theorem storeTierRow_exact {level : Nat} {rows : List StoredRow} {row : TierRow} (rowsExact : ∀ r ∈ rows, r.Exact level)
    (exact : row.Exact level) : ∀ r ∈ storeTierRow rows row, r.Exact level := by
  intro r member
  rw [storeTierRow_eq] at member
  rcases mem_upsert member with before | rfl | ⟨old, isOld, same, rfl⟩
  · exact rowsExact r before
  · exact exact.stored
  · have slot := sameRow_iff.mp same
    simp only [StoredRow.slot, Prod.mk.injEq] at slot
    exact (((rowsExact old isOld).reopen slot.2.2).merge exact slot.2.1.symm rfl).stored

/-- Storing a row moves its windows, and loses none. -/
theorem storeTierRow_windows (rows : List StoredRow) (row : TierRow) (bucket : ℤ) :
    (storedAt bucket (storeTierRow rows row)).Perm (storedAt bucket rows ++ openAt bucket [row]) := by
  unfold storedAt openAt
  rw [storeTierRow_eq, flatMap_filter, flatMap_filter, flatMap_filter]
  refine upsert_items ?_ fun old _ same => ?_
  · by_cases here : row.bucketEpoch = bucket <;> simp [TierRow.stored, here]
  · have slot := sameRow_iff.mp same
    simp only [StoredRow.slot, Prod.mk.injEq] at slot
    by_cases here : row.bucketEpoch = bucket <;> simp [TierRow.stored, TierRow.merge, StoredRow.reopen, slot.2.1, here]

theorem storeTierRow_bucket {rows : List StoredRow} {row : TierRow} {r : StoredRow}
    (member : r ∈ storeTierRow rows row) :
    (∃ old ∈ rows, old.bucketEpoch = r.bucketEpoch) ∨ row.bucketEpoch = r.bucketEpoch := by
  rw [storeTierRow_eq] at member
  rcases mem_upsert member with before | rfl | ⟨old, isOld, -, rfl⟩
  · exact Or.inl ⟨r, before, rfl⟩
  · exact Or.inr rfl
  · exact Or.inl ⟨old, isOld, rfl⟩

section Stores

variable {rows : List StoredRow} {done : List TierRow}

theorem storeTierRows_distinct (done : List TierRow) (distinct : rows.Pairwise fun r r' => r.slot ≠ r'.slot) :
    (storeTierRows rows done).Pairwise fun r r' => r.slot ≠ r'.slot := by
  induction done generalizing rows with
  | nil => exact distinct
  | cons row done ih => exact ih (storeTierRow_distinct row distinct)

theorem storeTierRows_exact {level : Nat} (rowsExact : ∀ r ∈ rows, r.Exact level)
    (doneExact : ∀ r ∈ done, r.Exact level) : ∀ r ∈ storeTierRows rows done, r.Exact level := by
  induction done generalizing rows with
  | nil => exact rowsExact
  | cons row done ih =>
    exact ih (storeTierRow_exact rowsExact (doneExact row (List.mem_cons_self ..)))
      fun r later => doneExact r (List.mem_cons_of_mem _ later)

theorem storeTierRows_windows (rows : List StoredRow) (done : List TierRow) (bucket : ℤ) :
    (storedAt bucket (storeTierRows rows done)).Perm (storedAt bucket rows ++ openAt bucket done) := by
  induction done generalizing rows with
  | nil => simp [storeTierRows, openAt]
  | cons row done ih =>
    have rest : openAt bucket (row :: done) = openAt bucket [row] ++ openAt bucket done := by
      rw [openAt, ← List.singleton_append, List.filter_append, List.flatMap_append]
      rfl
    rw [rest, ← List.append_assoc]
    exact (ih _).trans ((storeTierRow_windows rows row bucket).append_right _)

theorem storeTierRows_bucket {r : StoredRow} (member : r ∈ storeTierRows rows done) :
    (∃ old ∈ rows, old.bucketEpoch = r.bucketEpoch) ∨ ∃ row ∈ done, row.bucketEpoch = r.bucketEpoch := by
  induction done generalizing rows with
  | nil => exact Or.inl ⟨r, member, rfl⟩
  | cons row done ih =>
    rcases ih member with ⟨old, isOld, same⟩ | ⟨row', later, same⟩
    · rcases storeTierRow_bucket isOld with ⟨old', isOld', same'⟩ | same'
      · exact Or.inl ⟨old', isOld', same'.trans same⟩
      · exact Or.inr ⟨row, List.mem_cons_self .., same'.trans same⟩
    · exact Or.inr ⟨row', List.mem_cons_of_mem _ later, same⟩

end Stores

/-- The open rows of a period, split by whether they are finished. -/
theorem openAt_split (p : TierRow → Bool) (rows : List TierRow) (bucket : ℤ) :
    (openAt bucket (rows.filter p) ++ openAt bucket (rows.filter fun r => !p r)).Perm (openAt bucket rows) := by
  unfold openAt
  rw [← List.flatMap_append, ← List.filter_append]
  exact ((List.filter_append_perm p rows).filter _).flatMap_right _

namespace TierLevel

variable {level : Nat} {w : AvgWindow}

/-- The row of the window's tuning is new, is ahead of it, or takes it. -/
theorem addRow_cases {rows : List TierRow} (tier : ∀ r ∈ rows, r.levelSec = level)
    (once : rows.Pairwise fun r r' => r.tuning ≠ r'.tuning) :
    ((∀ r ∈ rows, r.tuning ≠ w.tuning) ∧
        addRow level w rows = rows ++ [(TierRow.create level (bucketEpoch level w.startTime) w.tuning).addWindow w]) ∨
      (∃ r ∈ rows, r.tuning = w.tuning ∧ w.startTime < r.bucketEpoch ∧ addRow level w rows = rows) ∨
      ∃ before r after, rows = before ++ r :: after ∧ r.tuning = w.tuning ∧ (r.bucketEpoch : ℚ) ≤ w.startTime ∧
        addRow level w rows = before ++ r.addWindow w :: after := by
  unfold addRow TierAccumulator.addLevel
  cases found : rows.find? fun r => r.levelSec = level ∧ r.tuning = w.tuning with
  | none =>
    have others := List.find?_eq_none.mp found
    exact Or.inl ⟨fun r member same => others r member (by simp [tier r member, same]), rfl⟩
  | some r =>
    obtain ⟨its, before, after, split, earlier⟩ := List.find?_eq_some_iff_append.mp found
    have its : r.levelSec = level ∧ r.tuning = w.tuning := by simpa using its
    by_cases late : w.startTime < r.bucketEpoch
    · simp only [if_pos late]
      exact Or.inr (Or.inl ⟨r, List.mem_of_find?_eq_some found, its.2, late, trivial⟩)
    · simp only [if_neg late]
      refine Or.inr (Or.inr ⟨before, r, after, split, its.2, not_lt.mp late, ?_⟩)
      have kept : ∀ l : List TierRow, (∀ r ∈ l, ¬ (r.levelSec = level ∧ r.tuning = w.tuning)) →
          (l.map fun r => if r.levelSec = level ∧ r.tuning = w.tuning then r.addWindow w else r) = l := by
        intro l others
        conv_rhs => rw [← List.map_id l]
        exact List.map_congr_left fun r member => if_neg (others r member)
      rw [split, List.pairwise_append, List.pairwise_cons] at once
      rw [split, List.map_append, List.map_cons, if_pos its, kept before fun r member both => by simpa [both] using earlier r member,
        kept after fun r' member both => once.2.1.1 r' member (its.2.trans both.2.symm)]

theorem addRow_once {rows : List TierRow} (tier : ∀ r ∈ rows, r.levelSec = level)
    (once : rows.Pairwise fun r r' => r.tuning ≠ r'.tuning) :
    (addRow level w rows).Pairwise fun r r' => r.tuning ≠ r'.tuning := by
  rcases addRow_cases (w := w) tier once with ⟨new, added⟩ | ⟨_, _, _, _, same⟩ |
    ⟨before, r, after, split, _, _, taken⟩
  · rw [added, List.pairwise_append]
    refine ⟨once, List.pairwise_singleton .., fun r member r' last => ?_⟩
    obtain rfl := List.mem_singleton.mp last
    exact new r member
  · rwa [same]
  · rw [split, List.pairwise_append, List.pairwise_cons] at once
    rw [taken, List.pairwise_append, List.pairwise_cons]
    refine ⟨once.1, once.2.1, fun a earlier b member => ?_⟩
    rcases List.mem_cons.mp member with rfl | later
    · exact once.2.2 a earlier r (List.mem_cons_self ..)
    · exact once.2.2 a earlier b (List.mem_cons_of_mem _ later)

section Add

variable {rows : List TierRow} (positive : 0 < level) (exact : ∀ r ∈ rows, r.Exact level)
  (once : rows.Pairwise fun r r' => r.tuning ≠ r'.tuning) (unfinished : ∀ r ∈ rows, ¬ r.Over w.startTime)
include positive exact unfinished

/-- A row that is neither finished nor ahead of a window is of its period. -/
theorem period_of_takes {r : TierRow} (member : r ∈ rows) (le : (r.bucketEpoch : ℚ) ≤ w.startTime) :
    bucketEpoch level w.startTime = r.bucketEpoch := by
  have lt := unfinished r member
  rw [TierRow.Over, (exact r member).tier, not_le] at lt
  exact bucketEpoch_eq positive (exact r member).aligned le lt

include once

theorem addRow_exact : ∀ r ∈ addRow level w rows, r.Exact level := by
  rcases addRow_cases (w := w) (fun r member => (exact r member).tier) once with ⟨_, added⟩ | ⟨_, _, _, _, same⟩ |
    ⟨before, r, after, split, its, le, taken⟩
  · rw [added]
    intro r member
    rcases List.mem_append.mp member with before | last
    · exact exact r before
    · obtain rfl := List.mem_singleton.mp last
      exact (TierRow.Exact.create (dvd_bucketEpoch _) _).addWindow rfl rfl
  · rwa [same]
  · have here : r ∈ rows := split ▸ List.mem_append_right _ (List.mem_cons_self ..)
    have period := period_of_takes positive exact unfinished here le
    subst split
    rw [taken]
    intro r' member
    rcases List.mem_append.mp member with earlier | later
    · exact exact r' (List.mem_append_left _ earlier)
    · rcases List.mem_cons.mp later with rfl | later
      · exact (exact r here).addWindow period (congrArg Tuning.key its.symm)
      · exact exact r' (List.mem_append_right _ (List.mem_cons_of_mem _ later))

/-- The window is held by a row of its period, or was late. -/
theorem addRow_openAt : (∃ r ∈ rows, r.tuning = w.tuning ∧ w.startTime < r.bucketEpoch ∧ addRow level w rows = rows) ∨
    ∀ bucket, (openAt bucket (addRow level w rows)).Perm (openAt bucket rows ++ windowsAt level bucket [w]) := by
  rcases addRow_cases (w := w) (fun r member => (exact r member).tier) once with ⟨_, added⟩ | late |
    ⟨before, r, after, split, its, le, taken⟩
  · refine Or.inr fun bucket => ?_
    rw [added, openAt, List.filter_append, List.flatMap_append]
    by_cases here : bucketEpoch level w.startTime = bucket <;>
      simp [here, TierRow.create, TierRow.addWindow, openAt, windowsAt]
  · exact Or.inl late
  · have here : r ∈ rows := split ▸ List.mem_append_right _ (List.mem_cons_self ..)
    have period := period_of_takes positive exact unfinished here le
    refine Or.inr fun bucket => ?_
    rw [taken, split]
    unfold openAt windowsAt
    rw [flatMap_filter, flatMap_filter]
    simp only [List.flatMap_append, List.flatMap_cons, TierRow.bucketEpoch_addWindow, TierRow.windows_addWindow]
    by_cases same : r.bucketEpoch = bucket
    · simp only [same, decide_true, if_true, period, List.filter_cons, List.filter_nil, List.append_assoc]
      exact (List.perm_append_comm.append_left _).append_left _
    · simp [same, period]

end Add
end TierLevel
end RFObserver
