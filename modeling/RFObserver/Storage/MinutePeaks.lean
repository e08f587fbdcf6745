import RFObserver.Storage.AvgFold
import RFObserver.Storage.Rollup

namespace RFObserver

def MinuteSummary.value (m : MinuteSummary) : Metric → Option ℚ
  | .pwrMax => m.pwrMax
  | .pwrSnr => m.pwrSnr
  | .pwrAvg => m.pwrAvg

def MinuteSummary.peakTime (m : MinuteSummary) : Metric → Option ℚ
  | .pwrMax => m.peakMaxTime
  | .pwrSnr => m.peakSnrTime
  | .pwrAvg => m.peakAvgTime

/-- A row of the answer of `query_avg_minute_peaks`. -/
structure AvgMinutePeak where
  peakTime : ℚ
  value : ℚ
  pwrMax : Option ℚ
  pwrSnr : Option ℚ
  pwrAvg : Option ℚ
  deriving DecidableEq

/-- What a row answers for a metric, if it has a value and a time. -/
def MinuteSummary.peak (m : MinuteSummary) (metric : Metric) : Option AvgMinutePeak :=
  (m.value metric).bind fun value => (m.peakTime metric).map fun peakTime =>
    ⟨peakTime, value, m.pwrMax, m.pwrSnr, m.pwrAvg⟩

/-- The exact-match conditions; a NULL meets none. -/
def TuningFilter.admits (filter : TuningFilter) (center : ℚ) (sampleRate gain : Option ℚ) : Bool :=
  (∀ c ∈ filter.sdrCenterFreq, center = c) ∧ (∀ r ∈ filter.sampleRate, sampleRate = some r) ∧
    ∀ g ∈ filter.gain, gain = some g

def queryAvgMinutePeaks (minutes : List MinuteSummary) (since before : ℚ) (metric : Metric) (filter : TuningFilter)
    (limit : Nat) : List AvgMinutePeak :=
  (((minutes.filter fun m => minuteKey since ≤ m.minuteStart ∧ m.minuteStart ≤ minuteKey before ∧
    filter.admits m.sdrCenterFreqHz m.sampleRateHz m.gainDb = true).filterMap fun m =>
      m.peak metric).insertionSort fun a b => b.value ≤ a.value).take limit

/-- A window is of a tuning that the filter asks for. -/
def WindowRow.Of (filter : TuningFilter) (row : WindowRow) : Prop :=
  filter.admits row.sdrCenterFreqHz row.sampleRateHz row.gainDb = true

/-- Each row of the table is the fold of all stored windows of its key. -/
def IsRollup (windows : List WindowRow) (minutes : List MinuteSummary) : Prop :=
  ∀ m ∈ minutes, minuteAt (foldWindows windows) m.key = some m

/-- A window of the tuning had the peak at its time, and none of the tuning had
more in its minute. -/
def Measured (windows : List WindowRow) (filter : TuningFilter) (metric : Metric) (peak : AvgMinutePeak) : Prop :=
  ∃ w ∈ windows, w.Of filter ∧ metricValue w metric = some peak.value ∧ w.startTime = peak.peakTime ∧
    ∀ w' ∈ windows, w'.minute = w.minute → w'.Of filter → ∀ value ∈ metricValue w' metric, value ≤ peak.value

/-- The window with the highest value so far and that value, the first one of several. -/
def higher (metric : Metric) (best : Option (WindowRow × ℚ)) (row : WindowRow) : Option (WindowRow × ℚ) :=
  match metricValue row metric, best with
  | none, _ => best
  | some value, none => some (row, value)
  | some value, some top => if value > top.2 then some (row, value) else best

def peakWindow (metric : Metric) (rows : List WindowRow) : Option (WindowRow × ℚ) :=
  rows.foldl (higher metric) none

def windowsOf (windows : List WindowRow) (key : ℤ × ℚ) : List WindowRow := windows.filter fun w => w.minute = key

/-- When the first window of the key passes the filter, so does the one that
has the peak, or another window with the same start and value. -/
def Steady (windows : List WindowRow) (filter : TuningFilter) (metric : Metric) (key : ℤ × ℚ) : Prop :=
  ∀ first ∈ (windowsOf windows key).head?, ∀ top ∈ peakWindow metric (windowsOf windows key), first.Of filter →
    ∃ w ∈ windows, w.Of filter ∧ metricValue w metric = some top.2 ∧ w.startTime = top.1.startTime

variable {windows rows : List WindowRow} {minutes : List MinuteSummary} {filter : TuningFilter} {metric : Metric}

/-- What an accumulator keeps of the window with the highest value. -/
def shown (best : Option (WindowRow × ℚ)) : Option (ℚ × ℚ) := best.map fun top => (top.2, top.1.startTime)

theorem add_best (acc : Acc) (best : Option (WindowRow × ℚ)) (row : WindowRow) (same : acc.best metric = shown best) :
    (acc.add row).best metric = shown (higher metric best row) := by
  unfold Acc.add higher
  cases value : metricValue row metric with
  | none =>
    simp only [value]
    exact same
  | some v =>
    simp only [value, same]
    cases best with
    | none => rfl
    | some top =>
      simp only [shown, Acc.raised, Option.map_some]
      split <;> rfl

theorem foldl_best (acc : Acc) (best : Option (WindowRow × ℚ)) (same : acc.best metric = shown best) :
    (rows.foldl Acc.add acc).best metric = shown (rows.foldl (higher metric) best) := by
  induction rows generalizing acc best with
  | nil => exact same
  | cons row rest ih => exact ih (acc.add row) (higher metric best row) (add_best acc best row same)

theorem foldl_tuning (acc : Acc) :
    (rows.foldl Acc.add acc).sampleRateHz = acc.sampleRateHz ∧ (rows.foldl Acc.add acc).gainDb = acc.gainDb := by
  induction rows generalizing acc with
  | nil => exact ⟨rfl, rfl⟩
  | cons row rest ih => exact ih (acc.add row)

/-- The peak window has the highest value of all; without one no window has a value. -/
theorem peakWindow_spec (metric : Metric) (rows : List WindowRow) :
    (∀ top ∈ peakWindow metric rows, top.1 ∈ rows ∧ metricValue top.1 metric = some top.2 ∧
      ∀ row ∈ rows, ∀ value ∈ metricValue row metric, value ≤ top.2) ∧
      (peakWindow metric rows = none → ∀ row ∈ rows, metricValue row metric = none) := by
  induction rows using List.reverseRecOn with
  | nil =>
    exact ⟨fun top isTop => (Option.not_mem_none top isTop).elim, fun _ row member => (List.not_mem_nil member).elim⟩
  | append_singleton rows row ih =>
    obtain ⟨highest, without⟩ := ih
    have next : peakWindow metric (rows ++ [row]) = higher metric (peakWindow metric rows) row := by
      rw [peakWindow, List.foldl_append]
      rfl
    rw [next]
    cases value : metricValue row metric with
    | none =>
      simp only [higher, value]
      refine ⟨fun top isTop => ?_, fun none r member => ?_⟩
      · obtain ⟨member, has, above⟩ := highest top isTop
        refine ⟨List.mem_append_left _ member, has, fun r inRows u its => ?_⟩
        rcases List.mem_append.mp inRows with old | new
        · exact above r old u its
        · rw [List.mem_singleton.mp new, value] at its
          cases its
      · rcases List.mem_append.mp member with old | new
        · exact without none r old
        · rw [List.mem_singleton.mp new, value]
    | some v =>
      have last : ∀ r ∈ rows ++ [row], ∀ u ∈ metricValue r metric, r ∈ rows ∨ u = v := by
        intro r inRows u its
        rcases List.mem_append.mp inRows with old | new
        · exact Or.inl old
        · rw [List.mem_singleton.mp new, value] at its
          exact Or.inr (Option.some.inj its).symm
      have replaced : (∀ r ∈ rows, ∀ u ∈ metricValue r metric, u ≤ v) →
          ∀ r ∈ rows ++ [row], ∀ u ∈ metricValue r metric, u ≤ v := by
        intro below r inRows u its
        rcases last r inRows u its with old | rfl
        · exact below r old u its
        · exact le_rfl
      cases best : peakWindow metric rows with
      | none =>
        simp only [higher, value]
        refine ⟨fun top isTop => ?_, fun none => (Option.some_ne_none _ none).elim⟩
        obtain rfl := Option.some.inj isTop
        refine ⟨List.mem_append_right _ (List.mem_singleton_self row), value, replaced fun r old u its => ?_⟩
        rw [without best r old] at its
        cases its
      | some top =>
        obtain ⟨member, has, above⟩ := highest top best
        simp only [higher, value]
        by_cases raises : v > top.2
        · rw [if_pos raises]
          refine ⟨fun t isTop => ?_, fun none => (Option.some_ne_none _ none).elim⟩
          obtain rfl := Option.some.inj isTop
          refine ⟨List.mem_append_right _ (List.mem_singleton_self row), value, replaced fun r old u its => ?_⟩
          exact (above r old u its).trans raises.le
        · rw [if_neg raises]
          refine ⟨fun t isTop => ?_, fun none => (Option.some_ne_none _ none).elim⟩
          obtain rfl := Option.some.inj isTop
          refine ⟨List.mem_append_left _ member, has, fun r inRows u its => ?_⟩
          rcases last r inRows u its with old | rfl
          · exact above r old u its
          · exact not_lt.mp raises

/-- A rollup row has the tuning of its first window and the peaks of its windows. -/
theorem rollup_row {m : MinuteSummary} (folds : minuteAt (foldWindows windows) m.key = some m) :
    ∃ first ∈ (windowsOf windows m.key).head?, m.sampleRateHz = first.sampleRateHz ∧ m.gainDb = first.gainDb ∧
      ∀ metric, m.value metric = (peakWindow metric (windowsOf windows m.key)).map Prod.snd ∧
        m.peakTime metric = (peakWindow metric (windowsOf windows m.key)).map fun top => top.1.startTime := by
  rw [minuteAt_foldWindows] at folds
  obtain ⟨acc, group, isRow⟩ := Option.map_eq_some_iff.mp folds
  unfold windowsOf
  cases split : windows.filter fun row => row.minute = m.key with
  | nil =>
    rw [split] at group
    cases group
  | cons first rest =>
    rw [split, GroupFold.group] at group
    obtain rfl := Option.some.inj group
    refine ⟨first, rfl, ?_⟩
    have whole : rest.foldl Acc.add ((Acc.first first).add first) =
        (first :: rest).foldl Acc.add (Acc.first first) := rfl
    rw [whole] at isRow
    have tuning := @foldl_tuning (first :: rest) (Acc.first first)
    have best : ∀ metric, ((first :: rest).foldl Acc.add (Acc.first first)).best metric =
        shown (peakWindow metric (first :: rest)) := fun metric => foldl_best _ none rfl
    refine ⟨?_, ?_, fun metric => ?_⟩
    · rw [← isRow]
      exact tuning.1
    · rw [← isRow]
      exact tuning.2
    · rw [← isRow]
      cases metric <;> simp only [MinuteSummary.value, MinuteSummary.peakTime, Acc.summary, best, shown,
        Option.map_map] <;> exact ⟨rfl, rfl⟩

theorem mem_queryAvgMinutePeaks {since before : ℚ} {limit : Nat} {peak : AvgMinutePeak}
    (returned : peak ∈ queryAvgMinutePeaks minutes since before metric filter limit) :
    ∃ m ∈ minutes, filter.admits m.sdrCenterFreqHz m.sampleRateHz m.gainDb = true ∧ m.peak metric = some peak := by
  have listed := (List.perm_insertionSort _ _).mem_iff.mp (List.mem_of_mem_take returned)
  obtain ⟨m, inRange, isPeak⟩ := List.mem_filterMap.mp listed
  obtain ⟨member, bounds⟩ := List.mem_filter.mp inRange
  exact ⟨m, member, (of_decide_eq_true bounds).2.2, isPeak⟩

/-- A row of the table is in the answer for its own minute, with room for all rows. -/
theorem peak_returned {m : MinuteSummary} {peak : AvgMinutePeak} (member : m ∈ minutes)
    (admits : filter.admits m.sdrCenterFreqHz m.sampleRateHz m.gainDb = true) (isPeak : m.peak metric = some peak) :
    peak ∈ queryAvgMinutePeaks minutes (m.minuteStart * 60) (m.minuteStart * 60) metric filter minutes.length := by
  have minute : minuteKey ((m.minuteStart : ℚ) * 60) = m.minuteStart := by
    rw [minuteKey, mul_div_cancel_right₀ _ (by norm_num), Int.floor_intCast]
  have inRange : m ∈ minutes.filter fun r => minuteKey ((m.minuteStart : ℚ) * 60) ≤ r.minuteStart ∧
      r.minuteStart ≤ minuteKey ((m.minuteStart : ℚ) * 60) ∧
        filter.admits r.sdrCenterFreqHz r.sampleRateHz r.gainDb = true :=
    List.mem_filter.mpr ⟨member, decide_eq_true ⟨minute.le, minute.ge, admits⟩⟩
  unfold queryAvgMinutePeaks
  rw [List.take_of_length_le]
  · exact (List.perm_insertionSort _ _).mem_iff.mpr (List.mem_filterMap.mpr ⟨m, inRange, isPeak⟩)
  · rw [List.length_insertionSort]
    exact (List.length_filterMap_le _ _).trans (List.length_filter_le _ _)

/-- The fold of all windows is a rollup of them. -/
theorem foldWindows_isRollup (windows : List WindowRow) : IsRollup windows (foldWindows windows) :=
  fun _ member => minuteAt_of_mem (foldWindows_keys_nodup windows) member

theorem admits_iff {center c : ℚ} {sampleRate gain rate g : Option ℚ} :
    TuningFilter.admits ⟨some center, sampleRate, gain⟩ c rate g = true ↔
      c = center ∧ (∀ r ∈ sampleRate, rate = some r) ∧ ∀ x ∈ gain, g = some x := by
  simp [TuningFilter.admits]

/-- Every answer under a filter is measured exactly when every rolled-up minute
of the center is steady. -/
theorem peaks_measured_iff (rollup : IsRollup windows minutes) (center : ℚ) (sampleRate gain : Option ℚ)
    (metric : Metric) :
    (∀ since before limit,
      ∀ peak ∈ queryAvgMinutePeaks minutes since before metric ⟨some center, sampleRate, gain⟩ limit,
        Measured windows ⟨some center, sampleRate, gain⟩ metric peak) ↔
      ∀ m ∈ minutes, m.sdrCenterFreqHz = center → Steady windows ⟨some center, sampleRate, gain⟩ metric m.key := by
  constructor
  · intro measured m member its first isFirst top isTop passes
    obtain ⟨row, isRow, sameRate, sameGain, peaks⟩ := rollup_row (rollup m member)
    obtain rfl : row = first := Option.some.inj (isRow.symm.trans isFirst)
    obtain ⟨value, peakTime⟩ := peaks metric
    rw [isTop] at value peakTime
    have admits : TuningFilter.admits ⟨some center, sampleRate, gain⟩ m.sdrCenterFreqHz m.sampleRateHz m.gainDb =
        true := by
      rw [sameRate, sameGain]
      exact admits_iff.mpr ⟨its, (admits_iff.mp passes).2⟩
    have isPeak : m.peak metric = some ⟨top.1.startTime, top.2, m.pwrMax, m.pwrSnr, m.pwrAvg⟩ := by
      rw [MinuteSummary.peak, value, peakTime]
      rfl
    obtain ⟨w, stored, ofTuning, hasValue, hasStart, _⟩ := measured _ _ _ _ (peak_returned member admits isPeak)
    exact ⟨w, stored, ofTuning, hasValue, hasStart⟩
  · intro steady since before limit peak returned
    obtain ⟨m, member, admits, isPeak⟩ := mem_queryAvgMinutePeaks returned
    obtain ⟨first, isFirst, sameRate, sameGain, peaks⟩ := rollup_row (rollup m member)
    obtain ⟨value, peakTime⟩ := peaks metric
    obtain ⟨v, isValue, timed⟩ := Option.bind_eq_some_iff.mp isPeak
    obtain ⟨t, isTime, rfl⟩ := Option.map_eq_some_iff.mp timed
    obtain ⟨top, isTop, rfl⟩ := Option.map_eq_some_iff.mp (value.symm.trans isValue)
    rw [isTop] at peakTime
    obtain rfl : top.1.startTime = t := Option.some.inj (peakTime.symm.trans isTime)
    have center_eq : m.sdrCenterFreqHz = center := (admits_iff.mp admits).1
    have inKey : ∀ w ∈ windowsOf windows m.key, w ∈ windows ∧ w.minute = m.key := fun w member =>
      ⟨(List.mem_filter.mp member).1, of_decide_eq_true (List.mem_filter.mp member).2⟩
    have passes : first.Of ⟨some center, sampleRate, gain⟩ := by
      have firstCenter := (Prod.mk.inj (inKey first (List.mem_of_mem_head? isFirst)).2).2
      rw [sameRate, sameGain] at admits
      exact admits_iff.mpr ⟨firstCenter.trans center_eq, (admits_iff.mp admits).2⟩
    obtain ⟨w, stored, ofTuning, hasValue, hasStart⟩ := steady m member center_eq first isFirst top isTop passes
    obtain ⟨topIn, _, highest⟩ := (peakWindow_spec metric (windowsOf windows m.key)).1 top isTop
    refine ⟨w, stored, ofTuning, hasValue, hasStart, fun w' stored' sameMinute _ value its => ?_⟩
    have topMinute := (Prod.mk.inj (inKey top.1 topIn).2).1
    have wKey : w.minute = m.key := by
      refine Prod.ext ?_ ((admits_iff.mp ofTuning).1.trans center_eq.symm)
      exact (congrArg minuteKey hasStart).trans topMinute
    have listed : w' ∈ windowsOf windows m.key :=
      List.mem_filter.mpr ⟨stored', decide_eq_true (sameMinute.trans wKey)⟩
    exact highest w' listed value its

/-- Two windows of one minute and center, of gains 10 and `gain`. -/
def twoGains (gain : ℚ) : List WindowRow :=
  [⟨600, 100, some 20, some 10, some (-50), some (-90), some (-80)⟩,
    ⟨601, 100, some 20, some gain, some (-20), some (-90), some (-70)⟩]

theorem peaks_measured_steady :
    queryAvgMinutePeaks (foldWindows (twoGains 10)) 600 600 .pwrMax ⟨some 100, some 20, some 10⟩ 2000 =
      [⟨601, -20, some (-20), some 70, some (-70)⟩] ∧
    ∀ since before limit,
      ∀ peak ∈ queryAvgMinutePeaks (foldWindows (twoGains 10)) since before .pwrMax ⟨some 100, some 20, some 10⟩ limit,
        Measured (twoGains 10) ⟨some 100, some 20, some 10⟩ .pwrMax peak := by
  have answer : queryAvgMinutePeaks (foldWindows (twoGains 10)) 600 600 .pwrMax ⟨some 100, some 20, some 10⟩ 2000 =
      [⟨601, -20, some (-20), some 70, some (-70)⟩] := by decide +kernel
  refine ⟨answer, (peaks_measured_iff (foldWindows_isRollup (twoGains 10)) 100 (some 20) (some 10) .pwrMax).mpr ?_⟩
  intro m member its first isFirst top isTop passes
  have inWindows := ((peakWindow_spec .pwrMax (windowsOf (twoGains 10) m.key)).1 top isTop)
  have stored : top.1 ∈ twoGains 10 := (List.mem_filter.mp inWindows.1).1
  refine ⟨top.1, stored, ?_, inWindows.2.1, rfl⟩
  have all : ∀ w ∈ twoGains 10, TuningFilter.admits ⟨some 100, some 20, some 10⟩ w.sdrCenterFreqHz w.sampleRateHz
      w.gainDb = true := by decide +kernel
  exact all top.1 stored

/-- The gain goes from 10 to 30 within a minute: the filter for 10 gets the peak
of the window of gain 30. -/
theorem peaks_measured_fails :
    ∃ peak ∈ queryAvgMinutePeaks (foldWindows (twoGains 30)) 600 600 .pwrMax ⟨some 100, some 20, some 10⟩ 2000,
      peak.value = -20 ∧ ¬ Measured (twoGains 30) ⟨some 100, some 20, some 10⟩ .pwrMax peak := by
  have answer : queryAvgMinutePeaks (foldWindows (twoGains 30)) 600 600 .pwrMax ⟨some 100, some 20, some 10⟩ 2000 =
      [⟨601, -20, some (-20), some 70, some (-70)⟩] := by decide +kernel
  refine ⟨_, by rw [answer]; exact List.mem_singleton_self _, rfl, ?_⟩
  rintro ⟨w, stored, ofTuning, hasValue, _⟩
  have none : ∀ w ∈ twoGains 30, metricValue w .pwrMax = some (-20) →
      ¬ TuningFilter.admits ⟨some 100, some 20, some 10⟩ w.sdrCenterFreqHz w.sampleRateHz w.gainDb = true := by
    decide +kernel
  exact none w stored hasValue ofTuning

end RFObserver
