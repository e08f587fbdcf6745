import RFObserver.Storage.RangeQueries

/-! The routes that read a range of times, and when they read the same one. -/

namespace RFObserver
open IsoTime

namespace Ranges

/-- A time of a request, with `Z` for `+00:00`. -/
def optDt (raw : List Char) : Option DateTime :=
  if raw = [] then none
  else fromisoformat
    (if raw.getLast? = some 'Z' ∨ raw.getLast? = some 'z' then raw.dropLast ++ ['+', '0', '0', ':', '0', '0'] else raw)

inductive RangeError
  | badRequest
  | typeError
  | overflow
  deriving DecidableEq

/-- `since >= until`, which raises on a naive time and an aware one. -/
def notBefore (since until_ : DateTime) : Except RangeError Bool :=
  if since.offset.isSome = until_.offset.isSome then .ok (decide (until_.instant ≤ since.instant))
  else .error .typeError

def parseRange (since until_ : List Char) : Except RangeError (DateTime × DateTime) :=
  match optDt since, optDt until_ with
  | some s, some u =>
    match notBefore s u with
    | .ok false => .ok (s, u)
    | .ok true => .error .badRequest
    | .error e => .error e
  | _, _ => .error .badRequest

theorem zone_zero : ∀ o ∈ some (0 : ℤ), -86400 < o ∧ o < 86400 := by
  rintro o ⟨⟩
  omega

def asUtc (t : DateTime) : DateTime :=
  if t.offset = none then { t with offset := some 0, zone := zone_zero } else t

/-- An edge minute can straddle the requested range. -/
def keeps (since until_ : DateTime) (p : AvgMinutePeak) : Bool :=
  ∃ t ∈ fromisoformat (utcText p.peakTime), since.instant ≤ (asUtc t).instant ∧ (asUtc t).instant < until_.instant

section Routes
variable (zone : DateTime → ℤ) (filter : TuningFilter) (since until_ : List Char)

def averagedList (db : SensorDatabase) : List AvgWindow := db.queryAvgWindows filter (optDt since) (optDt until_)

/-- A query's rows; an epoch that the clock of its offset cannot show raises. -/
def answer {α : Type*} (rows : Option (List α)) : Except RangeError (List α) :=
  match rows with
  | some rows => .ok rows
  | none => .error .overflow

def averagedWaterfall (maxRows : Nat) (bucketSec : Option ℚ) (db : SensorDatabase) : Except RangeError (List AvgWindow) :=
  (parseRange since until_).bind fun (s, u) => answer (db.queryAvgWaterfall zone filter s u maxRows bucketSec)

def averagedStats (maxPoints : Nat) (bucketSec : Option ℚ) (db : SensorDatabase) : Except RangeError (List AvgWindow) :=
  (parseRange since until_).bind fun (s, u) => answer (db.queryAvgStats zone filter s u maxPoints bucketSec)

/-- The peaks to choose from. -/
def averagedPeaks (metric : Metric) (minutes : List MinuteSummary) : Except RangeError (List AvgMinutePeak) :=
  (parseRange since until_).map fun (s, u) =>
    (queryMinutePeaks metric filter (asUtc s) (asUtc u) minutes).filter (keeps (asUtc s) (asUtc u))

def iqCaptures (rows : List IqCapture) : Except RangeError (List IqCapture) :=
  (parseRange since until_).map fun (s, u) => queryIqCaptures filter s u rows

/-- A query that raises answers no rows. -/
def detectionsJson (filter : DetectionFilter) (rows : List Detection) : List Detection :=
  (queryDetections filter (optDt since) (optDt until_) rows).getD []

end Routes

/-- The rows that an answer shows. -/
def shown {α : Type*} : Except RangeError (List α) → List α
  | .ok rows => rows
  | .error _ => []

/-- The rollup knows when each of its peaks was. -/
def PeaksStored (metric : Metric) (minutes : List MinuteSummary) : Prop :=
  ∀ m ∈ minutes, ∀ x ∈ m.peakTime metric, Storable x ∧ minuteKey x = m.minuteStart

def CapturesStored (rows : List IqCapture) : Prop :=
  ∀ c ∈ rows, Storable c.startTime ∧ Storable c.stopTime ∧ c.startTime ≤ c.stopTime

/-- Every route shows or folds the rows of the instants in `[s, u)`, whatever
is stored and however else it is filtered. -/
structure Exact (zone : DateTime → ℤ) (since until_ : List Char) (s u : ℚ) : Prop where
  list : ∀ db filter, db.Stored → averagedList filter since until_ db = db.rangeWindows filter s u
  waterfall : ∀ db filter maxRows bucketSec, db.Stored → db.Sound →
    (shown (averagedWaterfall zone filter since until_ maxRows bucketSec db)).Perm (db.rangeWindows filter s u)
  stats : ∀ db filter maxPoints bucketSec, db.Stored → db.Sound →
    (shown (averagedStats zone filter since until_ maxPoints bucketSec db)).Perm (db.rangeWindows filter s u)
  peaks : ∀ metric filter minutes, PeaksStored metric minutes → shown (averagedPeaks filter since until_ metric minutes) =
    ((minutes.filter fun m => filter.admits m.sdrCenterFreqHz m.sampleRateHz m.gainDb).filterMap fun m =>
      m.peak metric).filter fun p => s ≤ p.peakTime ∧ p.peakTime < u
  captures : ∀ filter rows, CapturesStored rows → shown (iqCaptures filter since until_ rows) =
    rows.filter fun c => s < u ∧ c.startTime < u ∧ s < c.stopTime ∧ filter.meets c.sdr = true
  detections : ∀ filter rows, (∀ d ∈ rows, Storable d.startTime) → detectionsJson since until_ filter rows =
    rows.filter fun d => s ≤ d.startTime ∧ d.startTime < u ∧ filter.accepts d = true

/-- Both times at offset zero; or no instant between them and no stored text either. -/
def Aligned (s u : DateTime) : Prop :=
  (s.offset = some 0 ∧ u.offset = some 0) ∨
    u.instant ≤ s.instant ∧ ∀ t : DateTime, t.offset = some 0 → ¬ (s.isoformat ≤ t.isoformat ∧ t.isoformat < u.isoformat)

variable {zone : DateTime → ℤ} {since until_ : List Char} {s u : DateTime} {x : ℚ}

theorem parseRange_ok (isSince : optDt since = some s) (isUntil : optDt until_ = some u)
    (same : s.offset.isSome = u.offset.isSome) (before : s.instant < u.instant) : parseRange since until_ = .ok (s, u) := by
  have later : notBefore s u = .ok false := by simp [notBefore, same, not_le.mpr before]
  simp only [parseRange, isSince, isUntil, later]

theorem parseRange_empty (isSince : optDt since = some s) (isUntil : optDt until_ = some u)
    (after : u.instant ≤ s.instant) : ∃ e, parseRange since until_ = .error e := by
  by_cases same : s.offset.isSome = u.offset.isSome
  · have later : notBefore s u = .ok true := by simp [notBefore, same, after]
    exact ⟨.badRequest, by simp only [parseRange, isSince, isUntil, later]⟩
  · have raised : notBefore s u = .error .typeError := if_neg same
    exact ⟨.typeError, by simp only [parseRange, isSince, isUntil, raised]⟩

theorem parseRange_mixed (isSince : optDt since = some s) (isUntil : optDt until_ = some u)
    (differ : s.offset.isSome ≠ u.offset.isSome) : ∃ e, parseRange since until_ = .error e := by
  have raised : notBefore s u = .error .typeError := if_neg differ
  exact ⟨.typeError, by simp only [parseRange, isSince, isUntil, raised]⟩

/-- A text for comparisons stands for its instant. -/
theorem utcText_lt_utcIso {text : List Char} (compared : utcIso u = some text) (storable : Storable x) :
    utcText x < text ↔ x < u.timestamp := by
  unfold utcIso at compared
  split at compared
  case h_1 naive =>
    cases compared
    obtain ⟨t, its, rfl⟩ := storable
    rw [utcText_timestamp its, DateTime.isoformat_lt_utc its (Or.inr naive), timestamp_lt, instant_utc its,
      instant_naive naive, Nat.cast_lt]
  case h_2 o aware =>
    obtain ⟨positive, compared⟩ := Option.ite_none_right_eq_some.mp compared
    obtain ⟨v, made, rfl⟩ := Option.map_eq_some_iff.mp compared
    obtain ⟨wall, utc⟩ := DateTime.wall_ofWall made
    rw [utcText_lt storable utc, DateTime.timestamp, DateTime.timestamp, instant_utc utc, wall, Int.toNat_of_nonneg positive]

theorem utcIso_utc (utc : u.offset = some 0) : utcIso u = some u.isoformat := by
  have same := u.ofWall_wall
  rw [utc] at same
  simp [utcIso, utc, instant_utc utc, same]

theorem shown_error {α : Type*} {rows : Except RangeError (List α)} {e : RangeError} (raised : rows = .error e) :
    shown rows = [] := by
  rw [raised, shown]

theorem timeline_utc {db : SensorDatabase} {filter : TuningFilter} (isSince : optDt since = some s)
    (isUntil : optDt until_ = some u) (sinceUtc : s.offset = some 0) (untilUtc : u.offset = some 0) (stored : db.Stored)
    (sound : db.Sound) (rows : Nat) (forced : Option ℚ) :
    (shown ((parseRange since until_).bind fun (s, u) => answer (db.timelineWindows zone filter s u rows forced))).Perm
      (db.rangeWindows filter s.timestamp u.timestamp) := by
  by_cases before : s.instant < u.instant
  · obtain ⟨windows, read, perm⟩ := SensorDatabase.timelineWindows_utc zone filter stored sound sinceUtc untilUtc rows
      forced
    rw [parseRange_ok isSince isUntil (by rw [sinceUtc, untilUtc]) before]
    simp only [Except.bind, read, answer, shown]
    exact perm
  · obtain ⟨e, refused⟩ := parseRange_empty isSince isUntil (not_lt.mp before)
    rw [refused]
    refine List.Perm.of_eq (List.filter_eq_nil_iff.mpr fun w _ inside => ?_).symm
    obtain ⟨from_, below, -⟩ := of_decide_eq_true inside
    exact before (timestamp_lt.mp (from_.trans_lt below))

/-- The minute of a peak in the range is among the minutes asked for. -/
theorem minuteText_between (sinceUtc : s.offset = some 0) (untilUtc : u.offset = some 0) (storable : Storable x)
    (from_ : s.timestamp ≤ x) (before : x < u.timestamp) :
    s.isoformat.take 16 ≤ minuteText (minuteKey x) ∧ minuteText (minuteKey x) ≤ u.isoformat.take 16 := by
  rw [minuteText_minuteKey storable]
  refine ⟨DateTime.take_le_take ?_ 16, DateTime.take_le_take ?_ 16⟩
  · exact (le_utcText storable sinceUtc).mpr from_
  · exact ((utcText_lt storable untilUtc).mpr before).le

theorem iqCaptures_shown (isSince : optDt since = some s) (isUntil : optDt until_ = some u)
    (same : s.offset.isSome = u.offset.isSome) (before : s.instant < u.instant) (filter : TuningFilter)
    (rows : List IqCapture) : shown (iqCaptures filter since until_ rows) = queryIqCaptures filter s u rows := by
  rw [iqCaptures, parseRange_ok isSince isUntil same before]
  rfl

/-- The peaks of a range: those of its minutes, checked one by one. -/
theorem averagedPeaks_utc {metric : Metric} {filter : TuningFilter} {minutes : List MinuteSummary}
    (stored : PeaksStored metric minutes) (sinceUtc : s.offset = some 0) (untilUtc : u.offset = some 0) :
    (queryMinutePeaks metric filter (asUtc s) (asUtc u) minutes).filter (keeps (asUtc s) (asUtc u)) =
      ((minutes.filter fun m => filter.admits m.sdrCenterFreqHz m.sampleRateHz m.gainDb).filterMap fun m =>
        m.peak metric).filter fun p => s.timestamp ≤ p.peakTime ∧ p.peakTime < u.timestamp := by
  have same : ∀ t : DateTime, t.offset = some 0 → asUtc t = t := fun t utc => if_neg (by simp [utc])
  rw [same s sinceUtc, same u untilUtc, queryMinutePeaks, List.filter_filterMap, List.filter_filterMap,
    List.filterMap_filter, List.filterMap_filter]
  refine List.filterMap_congr fun m member => ?_
  cases its : m.peak metric with
  | none => simp
  | some p =>
    obtain ⟨value, -, isPeak⟩ := Option.bind_eq_some_iff.mp its
    obtain ⟨peakTime, isTime, rfl⟩ := Option.map_eq_some_iff.mp isPeak
    obtain ⟨storable, minute⟩ := stored m member peakTime isTime
    obtain ⟨t, utc, rfl⟩ := storable
    have inside : keeps s u ⟨t.timestamp, value, m.pwrMax, m.pwrSnr, m.pwrAvg⟩ =
        decide (s.timestamp ≤ t.timestamp ∧ t.timestamp < u.timestamp) := by
      rw [keeps, utcText_timestamp utc, DateTime.fromisoformat_isoformat]
      simp [same t utc, timestamp_le, timestamp_lt]
    by_cases range : s.timestamp ≤ t.timestamp ∧ t.timestamp < u.timestamp
    · obtain ⟨from_, before⟩ := minuteText_between sinceUtc untilUtc ⟨t, utc, rfl⟩ range.1 range.2
      rw [minute] at from_ before
      simp only [from_, before, true_and, decide_eq_true_eq, Option.filter_some, inside, range, and_self, decide_true]
    · simp only [Option.filter_some, inside, range, decide_false, Bool.false_eq_true, if_false, ite_self]

theorem range_empty {α : Type*} {rows : List α} {start : α → ℚ} {more : α → Prop} [DecidablePred more]
    (after : u.instant ≤ s.instant) :
    rows.filter (fun r => s.timestamp ≤ start r ∧ start r < u.timestamp ∧ more r) = [] :=
  List.filter_eq_nil_iff.mpr fun r _ inside => by
    obtain ⟨from_, before, -⟩ := of_decide_eq_true inside
    exact absurd (timestamp_lt.mp (from_.trans_lt before)) (not_lt.mpr after)

/-- Detections are compared in UTC. -/
theorem queryDetections_exact {filter : DetectionFilter} {rows : List Detection}
    (stored : ∀ d ∈ rows, Storable d.startTime) {a b : List Char} (textSince : utcIso s = some a)
    (textUntil : utcIso u = some b) : queryDetections filter (some s) (some u) rows =
      some (rows.filter fun d => s.timestamp ≤ d.startTime ∧ d.startTime < u.timestamp ∧ filter.accepts d = true) := by
  have texts : queryDetections filter (some s) (some u) rows = some (rows.filter fun d =>
      a ≤ utcText d.startTime ∧ utcText d.startTime < b ∧ filter.accepts d = true) := by
    simp [queryDetections, textSince, textUntil]
  rw [texts]
  refine congrArg some (List.filter_congr fun d member => ?_)
  have from_ : a ≤ utcText d.startTime ↔ s.timestamp ≤ d.startTime := by
    rw [← not_lt, utcText_lt_utcIso textSince (stored d member), not_lt]
  simp only [from_, utcText_lt_utcIso textUntil (stored d member)]

theorem detections_exact {filter : DetectionFilter} {rows : List Detection} (isSince : optDt since = some s)
    (isUntil : optDt until_ = some u) (stored : ∀ d ∈ rows, Storable d.startTime) {a b : List Char}
    (textSince : utcIso s = some a) (textUntil : utcIso u = some b) : detectionsJson since until_ filter rows =
      rows.filter fun d => s.timestamp ≤ d.startTime ∧ d.startTime < u.timestamp ∧ filter.accepts d = true := by
  rw [detectionsJson, isSince, isUntil, queryDetections_exact stored textSince textUntil, Option.getD_some]

theorem exact_utc (isSince : optDt since = some s) (isUntil : optDt until_ = some u) (sinceUtc : s.offset = some 0)
    (untilUtc : u.offset = some 0) : Exact zone since until_ s.timestamp u.timestamp where
  list db filter stored := by
    rw [averagedList, isSince, isUntil]
    exact SensorDatabase.queryAvgWindows_utc filter stored sinceUtc untilUtc
  waterfall db filter maxRows bucketSec stored sound :=
    timeline_utc isSince isUntil sinceUtc untilUtc stored sound maxRows bucketSec
  stats db filter maxPoints bucketSec stored sound :=
    timeline_utc isSince isUntil sinceUtc untilUtc stored sound maxPoints bucketSec
  peaks metric filter minutes stored := by
    by_cases before : s.instant < u.instant
    · rw [averagedPeaks, parseRange_ok isSince isUntil (by rw [sinceUtc, untilUtc]) before]
      exact averagedPeaks_utc stored sinceUtc untilUtc
    · obtain ⟨e, refused⟩ := parseRange_empty isSince isUntil (not_lt.mp before)
      rw [averagedPeaks, refused]
      refine (List.filter_eq_nil_iff.mpr fun p _ inside => ?_).symm
      obtain ⟨from_, below⟩ := of_decide_eq_true inside
      exact before (timestamp_lt.mp (from_.trans_lt below))
  captures filter rows stored := by
    by_cases before : s.instant < u.instant
    · rw [iqCaptures_shown isSince isUntil (by rw [sinceUtc, untilUtc]) before]
      refine List.filter_congr fun c member => ?_
      obtain ⟨start, stop, -⟩ := stored c member
      simp only [utcText_lt start untilUtc, lt_utcText stop sinceUtc, timestamp_lt.mpr before, true_and]
    · obtain ⟨e, refused⟩ := parseRange_empty isSince isUntil (not_lt.mp before)
      rw [iqCaptures, refused]
      refine (List.filter_eq_nil_iff.mpr fun c _ inside => ?_).symm
      exact before (timestamp_lt.mp (of_decide_eq_true inside).1)
  detections filter rows stored :=
    detections_exact isSince isUntil stored (utcIso_utc sinceUtc) (utcIso_utc untilUtc)

/-- On an empty range only the list looks at the texts. -/
theorem exact_empty (isSince : optDt since = some s) (isUntil : optDt until_ = some u) (after : u.instant ≤ s.instant)
    (none_between : ∀ t : DateTime, t.offset = some 0 → ¬ (s.isoformat ≤ t.isoformat ∧ t.isoformat < u.isoformat)) :
    Exact zone since until_ s.timestamp u.timestamp := by
  obtain ⟨e, refused⟩ := parseRange_empty isSince isUntil after
  have windows : ∀ (db : SensorDatabase) filter, db.rangeWindows filter s.timestamp u.timestamp = [] := fun db filter =>
    range_empty after
  have never : ¬ s.timestamp < u.timestamp := fun lt => absurd (timestamp_lt.mp lt) (not_lt.mpr after)
  constructor
  case list =>
    intro db filter stored
    rw [windows, averagedList, isSince, isUntil]
    refine List.filter_eq_nil_iff.mpr fun w member inside => ?_
    obtain ⟨from_, before, -⟩ := of_decide_eq_true inside
    obtain ⟨t, utc, its⟩ := stored w member
    have text : utcText w.startTime = t.isoformat := its ▸ utcText_timestamp utc
    exact none_between t utc ⟨text ▸ from_ s rfl, text ▸ before u rfl⟩
  case waterfall =>
    intro db filter maxRows bucketSec _ _
    rw [windows, averagedWaterfall, refused]
    exact List.Perm.nil
  case stats =>
    intro db filter maxPoints bucketSec _ _
    rw [windows, averagedStats, refused]
    exact List.Perm.nil
  case peaks =>
    intro metric filter minutes _
    rw [averagedPeaks, refused]
    refine (List.filter_eq_nil_iff.mpr fun p _ inside => ?_).symm
    obtain ⟨from_, below⟩ := of_decide_eq_true inside
    exact never (from_.trans_lt below)
  case captures =>
    intro filter rows _
    rw [iqCaptures, refused]
    exact (List.filter_eq_nil_iff.mpr fun c _ inside => never (of_decide_eq_true inside).1).symm
  case detections =>
    intro filter rows stored
    cases textSince : utcIso s with
    | none =>
      rw [range_empty after, detectionsJson, isSince]
      simp [queryDetections, textSince]
    | some a =>
      cases textUntil : utcIso u with
      | none =>
        rw [range_empty after, detectionsJson, isSince, isUntil]
        simp [queryDetections, textSince, textUntil]
      | some b => exact detections_exact isSince isUntil stored textSince textUntil

section Converse

open SensorDatabase (anyTuning)

variable {t : DateTime} {a b : ℚ}

/-- A window that starts at a time, with nothing else to it. -/
def windowAt (x : ℚ) : AvgWindow := ⟨x, ⟨0, 0, none, 0, 0, 0⟩, 0, none, 0, 0, 0, none⟩

/-- The list takes a time when its text is between the texts. -/
theorem Exact.text (exact_ : Exact zone since until_ a b) (isSince : optDt since = some s)
    (isUntil : optDt until_ = some u) (utc : t.offset = some 0) :
    s.isoformat ≤ t.isoformat ∧ t.isoformat < u.isoformat ↔ a ≤ t.timestamp ∧ t.timestamp < b := by
  let db : SensorDatabase := { SensorDatabase.create with windows := [windowAt t.timestamp] }
  have stored : db.Stored := by
    intro w member
    cases List.mem_singleton.mp member
    exact ⟨t, utc, rfl⟩
  have same := exact_.list db anyTuning stored
  have accepted : ∀ key, anyTuning.accepts key = true := fun key => rfl
  have taken : windowAt t.timestamp ∈ averagedList anyTuning since until_ db ↔
      s.isoformat ≤ t.isoformat ∧ t.isoformat < u.isoformat := by
    rw [averagedList, isSince, isUntil]
    simp [SensorDatabase.queryAvgWindows, db, accepted, windowAt, utcText_timestamp utc]
  rw [← taken, same]
  simp [SensorDatabase.rangeWindows, db, accepted, windowAt]

/-- A range with a time in it is not refused. -/
theorem Exact.parses (exact_ : Exact zone since until_ a b) (utc : t.offset = some 0) (from_ : a ≤ t.timestamp)
    (before : t.timestamp < b) {e : RangeError} : parseRange since until_ ≠ .error e := by
  intro refused
  let m : MinuteSummary := ⟨minuteKey t.timestamp, 0, 1, none, none, some 0, none, none, some t.timestamp, none, none⟩
  have stored : PeaksStored .pwrMax [m] := by
    intro m' member x isTime
    cases List.mem_singleton.mp member
    cases isTime
    exact ⟨⟨t, utc, rfl⟩, rfl⟩
  have same := exact_.peaks .pwrMax anyTuning [m] stored
  rw [averagedPeaks, refused] at same
  have accepted : anyTuning.admits m.sdrCenterFreqHz m.sampleRateHz m.gainDb = true := rfl
  have there : (⟨t.timestamp, 0, some 0, none, none⟩ : AvgMinutePeak) ∈ (([m].filter fun m =>
      anyTuning.admits m.sdrCenterFreqHz m.sampleRateHz m.gainDb).filterMap fun m =>
        m.peak .pwrMax).filter fun p => a ≤ p.peakTime ∧ p.peakTime < b := by
    simp [accepted, MinuteSummary.peak, MinuteSummary.value, MinuteSummary.peakTime, m, from_, before]
  rw [← same] at there
  cases there

/-- A range with a time in it has times that UTC shows. -/
theorem Exact.shows (exact_ : Exact zone since until_ a b) (isSince : optDt since = some s)
    (isUntil : optDt until_ = some u) (utc : t.offset = some 0) (from_ : a ≤ t.timestamp) (before : t.timestamp < b) :
    (utcIso s).isSome = true ∧ (utcIso u).isSome = true := by
  let d : Detection := ⟨0, t.timestamp, 0, 0, ⟨none, none, none⟩, none, none⟩
  let any : DetectionFilter := ⟨none, none, anyTuning, none, none, none, none, none⟩
  have same := exact_.detections any [d] fun d' member => by
    cases List.mem_singleton.mp member
    exact ⟨t, utc, rfl⟩
  have accepted : ∀ d, any.accepts d = true := fun d => rfl
  rw [detectionsJson, isSince, isUntil] at same
  simp only [accepted, and_true] at same
  cases textSince : utcIso s with
  | none => simp [queryDetections, textSince, d, from_, before] at same
  | some a' =>
    cases textUntil : utcIso u with
    | none => simp [queryDetections, textSince, textUntil, d, from_, before] at same
    | some b' => exact ⟨rfl, rfl⟩

/-- The UTC time of an aware one. -/
theorem utc_of_utcIso {o : ℤ} (aware : u.offset = some o) (some_text : (utcIso u).isSome = true) :
    ∃ v : DateTime, v.offset = some 0 ∧ (v.wall : ℤ) = u.instant := by
  rw [utcIso, aware] at some_text
  simp only at some_text
  split at some_text
  case isTrue positive =>
    obtain ⟨v, made⟩ := Option.isSome_iff_exists.mp (Option.isSome_map ▸ some_text)
    obtain ⟨wall, utc⟩ := DateTime.wall_ofWall made
    exact ⟨v, utc, by rw [wall, Int.toNat_of_nonneg positive]⟩
  case isFalse => cases some_text

/-- A span that ends at a naive `since` is taken. -/
theorem Exact.not_naive (exact_ : Exact zone since until_ s.timestamp u.timestamp) (isSince : optDt since = some s)
    (isUntil : optDt until_ = some u) (before : s.instant < u.instant) (naive : s.offset = none) : u.offset ≠ none := by
  intro naive'
  let v : DateTime := { s with offset := some 0, zone := zone_zero }
  have wall : v.wall = s.wall := by simp only [v, DateTime.wall, DateTime.seconds]
  have same : v.timestamp = s.timestamp := by
    rw [DateTime.timestamp, DateTime.timestamp, instant_utc (t := v) rfl, instant_naive naive, wall]
  let c : IqCapture := ⟨"", v.timestamp, v.timestamp, ⟨none, none, none⟩⟩
  have stored : CapturesStored [c] := by
    intro c' member
    cases List.mem_singleton.mp member
    exact ⟨⟨v, rfl, rfl⟩, ⟨v, rfl, rfl⟩, le_refl _⟩
  have starts : v.isoformat < u.isoformat := by
    rw [DateTime.isoformat_lt_utc rfl (Or.inr naive'), wall]
    rw [instant_naive naive, instant_naive naive'] at before
    exact_mod_cast before
  have stops : s.isoformat < v.isoformat := by
    refine lt_of_le_of_ne (not_lt.mp ?_) fun texts => ?_
    · rw [DateTime.isoformat_lt_utc rfl (Or.inr naive)]
      exact lt_irrefl _
    · have offsets := congrArg DateTime.offset (DateTime.isoformat_injective texts)
      rw [naive] at offsets
      cases offsets
  have text : utcText v.timestamp = v.isoformat := utcText_timestamp rfl
  have taken : c ∈ queryIqCaptures anyTuning s u [c] := by
    refine List.mem_filter.mpr ⟨List.mem_singleton_self c, decide_eq_true ⟨?_, ?_, rfl⟩⟩
    · exact text ▸ starts
    · exact text ▸ stops
  have there : c ∈ shown (iqCaptures anyTuning since until_ [c]) := by
    rw [iqCaptures_shown isSince isUntil (by rw [naive, naive']) before]
    exact taken
  rw [exact_.captures anyTuning [c] stored] at there
  obtain ⟨-, -, after, -⟩ := of_decide_eq_true (List.mem_filter.mp there).2
  have after : s.timestamp < v.timestamp := after
  exact absurd same after.ne'

/-- Some whole seconds from UTC a time's text is out of its place. -/
theorem Exact.utc_since (exact_ : Exact zone since until_ s.timestamp u.timestamp) (isSince : optDt since = some s)
    (isUntil : optDt until_ = some u) (before : s.instant < u.instant) {o : ℤ} (aware : s.offset = some o)
    {v : DateTime} (utc : v.offset = some 0) (its : (v.wall : ℤ) = s.instant) : o = 0 := by
  by_contra moved
  have instants : s.instant = s.wall - o * 10 ^ 6 := by rw [DateTime.instant, aware, Option.getD_some]
  have first : v.timestamp = s.timestamp := by rw [DateTime.timestamp, DateTime.timestamp, instant_utc utc, its]
  obtain ⟨from_, below⟩ := (exact_.text isSince isUntil utc).mpr ⟨first.ge, by rw [first]; exact timestamp_lt.mpr before⟩
  have offset : ∃ o ∈ s.offset, o ≠ 0 := ⟨o, aware, moved⟩
  rw [← not_lt, DateTime.isoformat_lt_iff utc] at from_
  have later : s.wall + 10 ^ 6 ≤ v.wall := by
    have notLess : ¬ v.wall < s.wall := fun less => from_ (Or.inl less)
    have notSame : v.wall ≠ s.wall := fun same => from_ (Or.inr ⟨same, offset⟩)
    omega
  obtain ⟨w, utc', wall⟩ := wall_between (t := s) (u := v) (n := v.wall - 1) (by omega) (by omega)
  have taken := (exact_.text isSince isUntil utc').mp ⟨?_, ?_⟩
  · have earlier := timestamp_le.mp taken.1
    rw [instant_utc utc', wall] at earlier
    omega
  · rw [← not_lt, DateTime.isoformat_lt_iff utc', wall]
    rintro (less | ⟨same, -⟩) <;> omega
  · refine lt_trans ((DateTime.isoformat_lt_utc utc' (Or.inl utc)).mpr ?_) below
    omega

theorem Exact.utc_until (exact_ : Exact zone since until_ s.timestamp u.timestamp) (isSince : optDt since = some s)
    (isUntil : optDt until_ = some u) (before : s.instant < u.instant) (sinceUtc : s.offset = some 0) {o : ℤ}
    (aware : u.offset = some o) {v : DateTime} (utc : v.offset = some 0) (its : (v.wall : ℤ) = u.instant) : o = 0 := by
  by_contra moved
  have instants : u.instant = u.wall - o * 10 ^ 6 := by rw [DateTime.instant, aware, Option.getD_some]
  have last : v.timestamp = u.timestamp := by rw [DateTime.timestamp, DateTime.timestamp, instant_utc utc, its]
  have offset : ∃ o ∈ u.offset, o ≠ 0 := ⟨o, aware, moved⟩
  have order : s.wall < v.wall := by
    rw [instant_utc sinceUtc, ← its] at before
    exact_mod_cast before
  have out : ¬ v.isoformat < u.isoformat := fun below => by
    have from_ : s.isoformat ≤ v.isoformat :=
      ((DateTime.isoformat_lt_utc sinceUtc (Or.inl utc)).mpr order).le
    exact absurd ((exact_.text isSince isUntil utc).mp ⟨from_, below⟩).2 (by rw [last]; exact lt_irrefl _)
  rw [DateTime.isoformat_lt_iff utc] at out
  obtain ⟨w, utc', wall⟩ := wall_between (t := s) (u := v) (n := v.wall - 1) (by omega) (by omega)
  have inside := (exact_.text isSince isUntil utc').mpr ⟨timestamp_le.mpr ?_, timestamp_lt.mpr ?_⟩
  · have below := inside.2
    rw [DateTime.isoformat_lt_iff utc', wall] at below
    have notLess : ¬ v.wall < u.wall := fun less => out (Or.inl less)
    have notSame : v.wall ≠ u.wall := fun same => out (Or.inr ⟨same, offset⟩)
    omega
  · rw [instant_utc sinceUtc, instant_utc utc', wall]
    omega
  · rw [instant_utc utc', wall, ← its]
    omega

/-- Where some time lies in the range both of its ends are at offset zero. -/
theorem Exact.utc (exact_ : Exact zone since until_ s.timestamp u.timestamp) (isSince : optDt since = some s)
    (isUntil : optDt until_ = some u) (utc : t.offset = some 0) (from_ : s.instant ≤ t.instant)
    (below : t.instant < u.instant) : s.offset = some 0 ∧ u.offset = some 0 := by
  have before := from_.trans_lt below
  obtain ⟨sinceShown, untilShown⟩ := exact_.shows isSince isUntil utc (timestamp_le.mpr from_) (timestamp_lt.mpr below)
  have parses : ∀ e, parseRange since until_ ≠ .error e := fun e =>
    exact_.parses utc (timestamp_le.mpr from_) (timestamp_lt.mpr below)
  have alike : s.offset.isSome = u.offset.isSome := by
    by_contra differ
    obtain ⟨e, refused⟩ := parseRange_mixed isSince isUntil differ
    exact parses e refused
  cases aware : s.offset with
  | none =>
    cases aware' : u.offset with
    | none => exact absurd aware' (exact_.not_naive isSince isUntil before aware)
    | some o => rw [aware, aware'] at alike; cases alike
  | some o =>
    cases aware' : u.offset with
    | none => rw [aware, aware'] at alike; cases alike
    | some o' =>
      obtain ⟨v, its, wall⟩ := utc_of_utcIso aware sinceShown
      obtain ⟨v', its', wall'⟩ := utc_of_utcIso aware' untilShown
      cases exact_.utc_since isSince isUntil before aware its wall
      cases exact_.utc_until isSince isUntil before aware aware' its' wall'
      exact ⟨rfl, rfl⟩

end Converse

theorem zone_ahead : ∀ o ∈ some (7200 : ℤ), -86400 < o ∧ o < 86400 := by
  rintro o ⟨⟩
  omega

/-- An hour around noon on January 1, 2026, with its offset given as `text`. -/
def noon (offset : Option ℤ) (zone : ∀ o ∈ offset, -86400 < o ∧ o < 86400) (hour : Nat) (valid : hour < 24) : DateTime :=
  ⟨⟨2026, 1, 1, by decide, by decide, by decide⟩, hour, 0, 0, 0, offset, by omega, zone⟩

/-- Ten in UTC is noon two hours ahead. -/
theorem noon_ahead : (noon (some 0) zone_zero 10 (by decide)).instant = (noon (some 7200) zone_ahead 12 (by decide)).instant ∧
    (noon (some 0) zone_zero 10 (by decide)).instant < (noon (some 7200) zone_ahead 13 (by decide)).instant := by
  decide +kernel

end Ranges
end RFObserver
