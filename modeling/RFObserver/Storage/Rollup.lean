import Mathlib.Tactic
import RFObserver.Lib.GroupFold

/-! The per-minute rollup of averaged windows. Times are epoch seconds, and a
minute is the number of its first second over 60, in the order of its text. -/

namespace RFObserver

/-- The light columns of one `avg_windows` row. -/
structure WindowRow where
  startTime : ℚ
  sdrCenterFreqHz : ℚ
  sampleRateHz : Option ℚ
  gainDb : Option ℚ
  pwrMax : Option ℚ
  pwrMedian : Option ℚ
  pwrAvg : Option ℚ
  deriving DecidableEq

/-- One `avg_minutes` row. -/
structure MinuteSummary where
  minuteStart : ℤ
  sdrCenterFreqHz : ℚ
  n : Nat
  sampleRateHz : Option ℚ
  gainDb : Option ℚ
  pwrMax : Option ℚ
  pwrSnr : Option ℚ
  pwrAvg : Option ℚ
  peakMaxTime : Option ℚ
  peakSnrTime : Option ℚ
  peakAvgTime : Option ℚ
  deriving DecidableEq

inductive Metric
  | pwrMax
  | pwrSnr
  | pwrAvg
  deriving DecidableEq, Repr

def minuteKey (startTime : ℚ) : ℤ := ⌊startTime / 60⌋

/-- `pwr_snr` is how far the peak rose above the window's own noise floor. -/
def metricValue (row : WindowRow) : Metric → Option ℚ
  | .pwrMax => row.pwrMax
  | .pwrAvg => row.pwrAvg
  | .pwrSnr =>
    match row.pwrMax, row.pwrMedian with
    | some peak, some floor => some (peak - floor)
    | _, _ => none

/-- The running maxima of one minute and center frequency, each with the start
of the window that has it. -/
structure Acc where
  n : Nat
  sampleRateHz : Option ℚ
  gainDb : Option ℚ
  best : Metric → Option (ℚ × ℚ)

namespace Acc

/-- The tuning is the first window's. -/
def first (row : WindowRow) : Acc := ⟨0, row.sampleRateHz, row.gainDb, fun _ => none⟩

def raised (current : Option (ℚ × ℚ)) (value startTime : ℚ) : Option (ℚ × ℚ) :=
  match current with
  | none => some (value, startTime)
  | some best => if value > best.1 then some (value, startTime) else some best

def add (acc : Acc) (row : WindowRow) : Acc :=
  { acc with
    n := acc.n + 1
    best := fun metric =>
      match metricValue row metric with
      | none => acc.best metric
      | some value => raised (acc.best metric) value row.startTime }

def summary (acc : Acc) (key : ℤ × ℚ) : MinuteSummary where
  minuteStart := key.1
  sdrCenterFreqHz := key.2
  n := acc.n
  sampleRateHz := acc.sampleRateHz
  gainDb := acc.gainDb
  pwrMax := (acc.best .pwrMax).map Prod.fst
  pwrSnr := (acc.best .pwrSnr).map Prod.fst
  pwrAvg := (acc.best .pwrAvg).map Prod.fst
  peakMaxTime := (acc.best .pwrMax).map Prod.snd
  peakSnrTime := (acc.best .pwrSnr).map Prod.snd
  peakAvgTime := (acc.best .pwrAvg).map Prod.snd

end Acc

def WindowRow.minute (row : WindowRow) : ℤ × ℚ := (minuteKey row.startTime, row.sdrCenterFreqHz)

def MinuteSummary.key (m : MinuteSummary) : ℤ × ℚ := (m.minuteStart, m.sdrCenterFreqHz)

/-- One summary a minute and center frequency. -/
def foldWindows (rows : List WindowRow) : List MinuteSummary :=
  (GroupFold.fold WindowRow.minute Acc.first Acc.add rows).map fun e => e.2.summary e.1

/-- INSERT OR REPLACE by the primary key. -/
def upsertAvgMinute (minutes : List MinuteSummary) (m : MinuteSummary) : List MinuteSummary :=
  (minutes.filter fun r => r.key ≠ m.key) ++ [m]

def upsertAvgMinutes (minutes summaries : List MinuteSummary) : List MinuteSummary :=
  summaries.foldl upsertAvgMinute minutes

/-- The row of a key in a table or a batch of summaries. -/
def minuteAt (minutes : List MinuteSummary) (key : ℤ × ℚ) : Option MinuteSummary :=
  minutes.find? fun r => r.key = key

variable {rows : List WindowRow} {minutes summaries : List MinuteSummary} {key : ℤ × ℚ}

@[simp]
theorem Acc.summary_key (acc : Acc) (key : ℤ × ℚ) : (acc.summary key).key = key := rfl

/-- The summary of a key is the fold of the windows of that key. -/
theorem minuteAt_foldWindows (rows : List WindowRow) (key : ℤ × ℚ) :
    minuteAt (foldWindows rows) key =
      (GroupFold.group Acc.first Acc.add (rows.filter fun row => row.minute = key)).map fun acc => acc.summary key := by
  rw [← GroupFold.valueAt_fold, minuteAt, foldWindows, GroupFold.valueAt, List.find?_map, Option.map_map]
  have same : ((fun r : MinuteSummary => decide (r.key = key)) ∘ fun e : (ℤ × ℚ) × Acc => e.2.summary e.1) =
      fun e => decide (e.1 = key) := rfl
  rw [same]
  cases found : List.find? (fun e : (ℤ × ℚ) × Acc => decide (e.1 = key))
      (GroupFold.fold WindowRow.minute Acc.first Acc.add rows) with
  | none => rfl
  | some e =>
    have isKey : e.1 = key := by simpa using List.find?_some found
    simp [isKey]

theorem foldWindows_keys_nodup (rows : List WindowRow) : ((foldWindows rows).map MinuteSummary.key).Nodup := by
  have keys : (foldWindows rows).map MinuteSummary.key =
      (GroupFold.fold WindowRow.minute Acc.first Acc.add rows).map Prod.fst := by
    rw [foldWindows, List.map_map]
    rfl
  rw [keys]
  exact GroupFold.fold_keys_nodup rows

theorem minuteAt_cons (m : MinuteSummary) (minutes : List MinuteSummary) (key : ℤ × ℚ) :
    minuteAt (m :: minutes) key = if m.key = key then some m else minuteAt minutes key := by
  by_cases same : m.key = key
  · simp [minuteAt, same]
  · simp [minuteAt, same]

theorem minuteAt_of_mem (distinct : (minutes.map MinuteSummary.key).Nodup) {m : MinuteSummary}
    (member : m ∈ minutes) : minuteAt minutes m.key = some m := by
  induction minutes with
  | nil => cases member
  | cons r rest ih =>
    rw [List.map_cons, List.nodup_cons] at distinct
    rw [minuteAt_cons]
    rcases List.mem_cons.mp member with rfl | later
    · exact if_pos rfl
    · have other : r.key ≠ m.key := fun same => distinct.1 (by rw [same]; exact List.mem_map_of_mem later)
      rw [if_neg other, ih distinct.2 later]

theorem minuteAt_upsertAvgMinute (minutes : List MinuteSummary) (m : MinuteSummary) (key : ℤ × ℚ) :
    minuteAt (upsertAvgMinute minutes m) key = if m.key = key then some m else minuteAt minutes key := by
  unfold upsertAvgMinute
  induction minutes with
  | nil => exact minuteAt_cons m [] key
  | cons r rest ih =>
    rw [minuteAt_cons]
    by_cases replaced : r.key = m.key
    · rw [List.filter_cons_of_neg (by simpa using replaced), ih]
      by_cases same : m.key = key
      · rw [if_pos same, if_pos same]
      · rw [if_neg same, if_neg same, if_neg fun its => same (replaced.symm.trans its)]
    · rw [List.filter_cons_of_pos (by simpa using replaced), List.cons_append, minuteAt_cons, ih]
      by_cases same : m.key = key
      · rw [if_pos same, if_pos same, if_neg fun its => replaced (its.trans same.symm)]
      · rw [if_neg same, if_neg same]

/-- A batch of summaries of different keys replaces the rows of its keys. -/
theorem minuteAt_upsertAvgMinutes (distinct : (summaries.map MinuteSummary.key).Nodup) (key : ℤ × ℚ) :
    minuteAt (upsertAvgMinutes minutes summaries) key = (minuteAt summaries key).or (minuteAt minutes key) := by
  induction summaries generalizing minutes with
  | nil => rfl
  | cons m rest ih =>
    rw [List.map_cons, List.nodup_cons] at distinct
    rw [upsertAvgMinutes, List.foldl_cons]
    change minuteAt (upsertAvgMinutes (upsertAvgMinute minutes m) rest) key = _
    rw [ih distinct.2, minuteAt_upsertAvgMinute, minuteAt_cons]
    by_cases same : m.key = key
    · have absent : minuteAt rest key = none := by
        rw [minuteAt, List.find?_eq_none]
        intro r member isKey
        refine distinct.1 (List.mem_map.mpr ⟨r, member, ?_⟩)
        exact (of_decide_eq_true isKey).trans same.symm
      rw [if_pos same, if_pos same, absent]
      rfl
    · rw [if_neg same, if_neg same]

end RFObserver
