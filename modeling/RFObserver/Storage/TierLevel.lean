import RFObserver.Storage.TierStore

namespace RFObserver

/-- One tier by itself: all windows, the tier's stored and open rows, and
from when it is complete. -/
structure TierLevel where
  windows : List AvgWindow
  rows : List StoredRow
  openRows : List TierRow
  coverage : Option ℤ

namespace SensorDatabase

def tierAt (level : Nat) (db : SensorDatabase) : TierLevel where
  windows := db.windows
  rows := db.tierRows.filter fun r => r.levelSec = level
  openRows := db.tiers.openRows.filter fun r => r.levelSec = level
  coverage := db.coverage level

/-- A tier whose coverage the process has noted has one. -/
def Noted (db : SensorDatabase) : Prop := ∀ level ∈ db.coverageSet, (db.coverage level).isSome

end SensorDatabase

namespace TierRow

/-- The row's period ended before `epoch`. -/
def Over (epoch : ℚ) (r : TierRow) : Prop := ((r.bucketEpoch + r.levelSec : ℤ) : ℚ) ≤ epoch

instance (epoch : ℚ) : DecidablePred (Over epoch) := fun r =>
  inferInstanceAs (Decidable (((r.bucketEpoch + r.levelSec : ℤ) : ℚ) ≤ epoch))

@[simp] theorem levelSec_addWindow (r : TierRow) (w : AvgWindow) : (r.addWindow w).levelSec = r.levelSec := rfl

@[simp] theorem bucketEpoch_addWindow (r : TierRow) (w : AvgWindow) : (r.addWindow w).bucketEpoch = r.bucketEpoch := rfl

@[simp] theorem tuning_addWindow (r : TierRow) (w : AvgWindow) : (r.addWindow w).tuning = r.tuning := rfl

@[simp] theorem windows_addWindow (r : TierRow) (w : AvgWindow) : (r.addWindow w).windows = r.windows ++ [w] := rfl

end TierRow

namespace TierLevel

/-- The row of one tier that a window belongs to takes it. -/
def addRow (level : Nat) (w : AvgWindow) (rows : List TierRow) : List TierRow :=
  (TierAccumulator.addLevel w ⟨rows⟩ level).openRows

def insert (level : Nat) (w : AvgWindow) (stores : Bool) (t : TierLevel) : TierLevel where
  windows := t.windows ++ [w]
  rows := if stores then storeTierRows t.rows (t.openRows.filter fun r => r.Over w.startTime) else t.rows
  openRows := addRow level w (t.openRows.filter fun r => ¬ r.Over w.startTime)
  coverage := some (t.coverage.getD (⌈w.startTime / level⌉ * level))

def close (stores : Bool) (t : TierLevel) : TierLevel :=
  { t with
    rows := if stores then storeTierRows t.rows t.openRows else t.rows
    openRows := [] }

end TierLevel

namespace TierAccumulator

theorem find_level {rows : List TierRow} {level : Nat} {tuning : Tuning} :
    (rows.filter fun r => r.levelSec = level).find? (fun r => r.levelSec = level ∧ r.tuning = tuning) =
      rows.find? fun r => r.levelSec = level ∧ r.tuning = tuning := by
  rw [List.find?_filter]
  congr 1
  funext r
  by_cases here : r.levelSec = level <;> simp [here]

/-- A tier's rows are touched by that tier's turn only. -/
theorem addLevel_other {level level' : Nat} (other : level' ≠ level) (w : AvgWindow) (acc : TierAccumulator) :
    (addLevel w acc level').openRows.filter (fun r => r.levelSec = level) =
      acc.openRows.filter fun r => r.levelSec = level := by
  unfold addLevel
  split
  · rw [List.filter_append]
    simp [TierRow.create, TierRow.addWindow, other]
  · split
    · rfl
    · rw [List.filter_map]
      have kept : (fun r : TierRow => decide (r.levelSec = level)) ∘
          (fun r => if r.levelSec = level' ∧ r.tuning = w.tuning then r.addWindow w else r) =
          fun r => decide (r.levelSec = level) := by
        funext r
        simp only [Function.comp_apply]
        split <;> rfl
      rw [kept]
      refine (List.map_congr_left fun r member => ?_).trans (List.map_id _)
      have here : r.levelSec = level := by simpa using (List.mem_filter.mp member).2
      rw [if_neg fun both => other (both.1.symm.trans here)]
      rfl

theorem addLevel_own (level : Nat) (w : AvgWindow) (acc : TierAccumulator) :
    (addLevel w acc level).openRows.filter (fun r => r.levelSec = level) =
      TierLevel.addRow level w (acc.openRows.filter fun r => r.levelSec = level) := by
  unfold TierLevel.addRow addLevel
  simp only [find_level]
  split
  · rw [List.filter_append]
    simp [TierRow.create, TierRow.addWindow]
  · split
    · rfl
    · rw [List.filter_map]
      congr 1
      refine List.filter_congr fun r _ => ?_
      simp only [Function.comp_apply]
      split <;> rfl

theorem addLevels {level : Nat} {levels : List Nat} (distinct : levels.Nodup) (member : level ∈ levels)
    (w : AvgWindow) (acc : TierAccumulator) :
    (levels.foldl (addLevel w) acc).openRows.filter (fun r => r.levelSec = level) =
      TierLevel.addRow level w (acc.openRows.filter fun r => r.levelSec = level) := by
  have others : ∀ (levels : List Nat) (acc : TierAccumulator), level ∉ levels →
      (levels.foldl (addLevel w) acc).openRows.filter (fun r => r.levelSec = level) =
        acc.openRows.filter fun r => r.levelSec = level := by
    intro levels
    induction levels with
    | nil => exact fun _ _ => rfl
    | cons level' levels ih =>
      intro acc absent
      rw [List.mem_cons, not_or] at absent
      rw [List.foldl_cons, ih _ absent.2, addLevel_other (Ne.symm absent.1)]
  induction levels generalizing acc with
  | nil => cases member
  | cons level' levels ih =>
    obtain ⟨absent, distinct⟩ := List.nodup_cons.mp distinct
    rw [List.foldl_cons]
    rcases List.mem_cons.mp member with rfl | later
    · rw [others levels _ absent, addLevel_own]
    · rw [ih distinct later, addLevel_other fun same : level' = level => absent (same ▸ later)]

end TierAccumulator

/-- The stored rows of a tier are touched by rows of that tier only. -/
theorem storeTierRow_level (rows : List StoredRow) (row : TierRow) (level : Nat) :
    (storeTierRow rows row).filter (fun r => r.levelSec = level) =
      if row.levelSec = level then storeTierRow (rows.filter fun r => r.levelSec = level) row
      else rows.filter fun r => r.levelSec = level := by
  have sameLevel : ∀ r : StoredRow, row.sameRow r = true → r.levelSec = row.levelSec := fun r same => by
    simp only [TierRow.sameRow, decide_eq_true_eq] at same
    exact same.1
  have erased : (rows.eraseP row.sameRow).filter (fun r => r.levelSec = level) =
      if row.levelSec = level then (rows.filter fun r => r.levelSec = level).eraseP row.sameRow
      else rows.filter fun r => r.levelSec = level := by
    induction rows with
    | nil => simp
    | cons r rows ih =>
      by_cases same : row.sameRow r = true
      · rw [List.eraseP_cons_of_pos same, List.filter_cons, sameLevel r same]
        by_cases here : row.levelSec = level
        · simp [here, same]
        · simp [here]
      · rw [List.eraseP_cons_of_neg same, List.filter_cons, List.filter_cons, ih]
        by_cases here : row.levelSec = level <;> by_cases its : r.levelSec = level <;> simp [here, its, same]
  have found : row.levelSec = level →
      (rows.filter fun r => r.levelSec = level).find? row.sameRow = rows.find? row.sameRow := fun here => by
    rw [List.find?_filter]
    congr 1
    funext r
    by_cases same : row.sameRow r = true
    · simp [same, sameLevel r same, here]
    · simp [same]
  unfold storeTierRow
  by_cases here : row.levelSec = level
  · rw [if_pos here, found here]
    cases old : rows.find? row.sameRow with
    | none => simp [List.filter_append, TierRow.stored, here]
    | some r =>
      have level' : r.levelSec = level := (sameLevel r (List.find?_some old)).trans here
      simp only [List.filter_append, erased, if_pos here]
      simp [TierRow.stored, TierRow.merge, StoredRow.reopen, level']
  · rw [if_neg here]
    cases old : rows.find? row.sameRow with
    | none => simp [List.filter_append, TierRow.stored, here]
    | some r =>
      have level' : r.levelSec ≠ level := fun its => here ((sameLevel r (List.find?_some old)).symm.trans its)
      simp only [List.filter_append, erased, if_neg here]
      simp [TierRow.stored, TierRow.merge, StoredRow.reopen, level']

theorem storeTierRows_level (rows : List StoredRow) (done : List TierRow) (level : Nat) :
    (storeTierRows rows done).filter (fun r => r.levelSec = level) =
      storeTierRows (rows.filter fun r => r.levelSec = level) (done.filter fun r => r.levelSec = level) := by
  unfold storeTierRows
  induction done generalizing rows with
  | nil => rfl
  | cons row done ih =>
    rw [List.foldl_cons, ih, storeTierRow_level, List.filter_cons]
    split <;> rename_i here <;> simp [here]

namespace SensorDatabase

variable {db : SensorDatabase} {level : Nat}

theorem tierSeconds_nodup : tierSeconds.Nodup := by decide

/-- Noting coverage changes nothing else. -/
theorem noteCoverages_frame (epoch : ℚ) (levels : List Nat) (db : SensorDatabase) :
    ∃ coverage coverageSet, levels.foldl (noteCoverage epoch) db =
      { db with coverage := coverage, coverageSet := coverageSet } := by
  induction levels generalizing db with
  | nil => exact ⟨_, _, rfl⟩
  | cons level levels ih =>
    obtain ⟨coverage, coverageSet, noted⟩ := ih (noteCoverage epoch db level)
    refine ⟨coverage, coverageSet, noted.trans ?_⟩
    unfold noteCoverage
    split <;> rfl

theorem Noted.note (noted : db.Noted) (epoch : ℚ) (level : Nat) : (noteCoverage epoch db level).Noted := by
  unfold noteCoverage
  split
  · exact noted
  · intro level' member
    simp only at member ⊢
    rcases List.mem_cons.mp member with rfl | before
    · split
      · simp
      · rename_i some
        simpa [Option.isSome_iff_ne_none] using some
    · have isSome := noted level' before
      split
      · rename_i none
        by_cases same : level' = level
        · subst same
          simp
        · rwa [Function.update_of_ne same]
      · exact isSome

theorem coverage_noteCoverage_self (noted : db.Noted) (epoch : ℚ) (level : Nat) :
    (noteCoverage epoch db level).coverage level = some ((db.coverage level).getD (⌈epoch / level⌉ * level)) := by
  unfold noteCoverage
  split
  · rename_i member
    obtain ⟨c, isC⟩ := Option.isSome_iff_exists.mp (noted level member)
    simp [isC]
  · simp only
    split
    · rename_i none
      simp [Option.isNone_iff_eq_none.mp none]
    · rename_i some
      obtain ⟨c, isC⟩ := Option.ne_none_iff_exists'.mp fun none => some (Option.isNone_iff_eq_none.mpr none)
      simp [isC]

theorem coverage_noteCoverage_other {level level' : Nat} (other : level ≠ level') (epoch : ℚ) (db : SensorDatabase) :
    (noteCoverage epoch db level').coverage level = db.coverage level := by
  unfold noteCoverage
  split
  · rfl
  · simp only
    split
    · exact Function.update_of_ne other ..
    · rfl

theorem Noted.notes (noted : db.Noted) (epoch : ℚ) (levels : List Nat) :
    (levels.foldl (noteCoverage epoch) db).Noted := by
  induction levels generalizing db with
  | nil => exact noted
  | cons level levels ih => exact ih (noted.note epoch level)

theorem coverage_noteCoverages (noted : db.Noted) {levels : List Nat} (distinct : levels.Nodup) (member : level ∈ levels)
    (epoch : ℚ) :
    (levels.foldl (noteCoverage epoch) db).coverage level =
      some ((db.coverage level).getD (⌈epoch / level⌉ * level)) := by
  have others : ∀ (levels : List Nat) (db : SensorDatabase), level ∉ levels →
      (levels.foldl (noteCoverage epoch) db).coverage level = db.coverage level := by
    intro levels
    induction levels with
    | nil => exact fun _ _ => rfl
    | cons level' levels ih =>
      intro db absent
      rw [List.mem_cons, not_or] at absent
      rw [List.foldl_cons, ih _ absent.2, coverage_noteCoverage_other absent.1]
  induction levels generalizing db with
  | nil => cases member
  | cons level' levels ih =>
    obtain ⟨absent, distinct⟩ := List.nodup_cons.mp distinct
    rw [List.foldl_cons]
    rcases List.mem_cons.mp member with rfl | later
    · rw [others levels _ absent, coverage_noteCoverage_self noted]
    · have other : level ≠ level' := fun same => absent (same ▸ later)
      rw [ih (noted.note epoch level') distinct later, coverage_noteCoverage_other other]

theorem Noted.insert (noted : db.Noted) (w : AvgWindow) (stores : Bool) : (db.insertAvgWindow w stores).Noted := by
  have extended : Noted { db with windows := db.windows ++ [w] } := noted
  exact extended.notes w.startTime tierSeconds

theorem Noted.restarted (db : SensorDatabase) : db.restarted.Noted := List.forall_mem_nil _

/-- Each tier goes its own way. -/
theorem tierAt_insert (noted : db.Noted) (member : level ∈ tierSeconds) (w : AvgWindow) (stores : Bool) :
    (db.insertAvgWindow w stores).tierAt level = (db.tierAt level).insert level w stores := by
  have extended : Noted { db with windows := db.windows ++ [w] } := noted
  have coverage := coverage_noteCoverages extended tierSeconds_nodup member w.startTime
  obtain ⟨noted, set, frame⟩ := noteCoverages_frame w.startTime tierSeconds { db with windows := db.windows ++ [w] }
  unfold insertAvgWindow addToTiers
  rw [frame] at coverage ⊢
  simp only [tierAt, TierLevel.insert, TierAccumulator.add, TierAccumulator.closeBefore] at coverage ⊢
  congr 1
  · cases stores with
    | false => rfl
    | true =>
      rw [if_pos rfl, if_pos rfl, storeTierRows_level, List.filter_filter, List.filter_filter]
      congr 1
      exact List.filter_congr fun r _ => by simp [TierRow.Over, Bool.and_comm]
  · rw [TierAccumulator.addLevels tierSeconds_nodup member, List.filter_filter, List.filter_filter]
    congr 1
    exact List.filter_congr fun r _ => by simp [TierRow.Over, Bool.and_comm]

theorem tierAt_close (stores : Bool) (db : SensorDatabase) :
    (db.close stores).tierAt level = (db.tierAt level).close stores := by
  cases stores with
  | false => rfl
  | true =>
    unfold SensorDatabase.close restarted tierAt TierLevel.close
    simp only [if_true, storeTierRows_level]
    rfl

theorem tierAt_restarted (db : SensorDatabase) :
    db.restarted.tierAt level = { db.tierAt level with openRows := [] } := rfl

end SensorDatabase
end RFObserver
