import RFObserver.Lib.IsoOrder
import RFObserver.Storage.MinutePeaks
import RFObserver.Storage.TierQueries

/-! The range queries, with the texts that they compare. Stored times are epoch
seconds here and texts in the tables. A query is the rows that its WHERE takes,
before its ORDER BY and LIMIT. -/

namespace RFObserver
open IsoTime

/-- A time that can be stored. -/
def Storable (x : ℚ) : Prop := ∃ t : DateTime, t.offset = some 0 ∧ t.timestamp = x

/-- The text of a stored minute. -/
def minuteText (minute : ℤ) : List Char := (utcText (60 * minute)).take 16

/-- The tuning that a capture or a detection was recorded with. -/
structure SdrContext where
  sdrCenterFreqHz : Option ℚ
  sampleRateHz : Option ℚ
  gainDb : Option ℚ
  deriving DecidableEq

/-- The exact-match conditions; a NULL meets none. -/
def TuningFilter.meets (filter : TuningFilter) (sdr : SdrContext) : Bool :=
  (∀ c ∈ filter.sdrCenterFreq, sdr.sdrCenterFreqHz = some c) ∧ (∀ r ∈ filter.sampleRate, sdr.sampleRateHz = some r) ∧
    ∀ g ∈ filter.gain, sdr.gainDb = some g

structure IqCapture where
  filename : String
  startTime : ℚ
  stopTime : ℚ
  sdr : SdrContext
  deriving DecidableEq

structure Detection where
  id : Nat
  startTime : ℚ
  centerFreqHz : ℚ
  durationMs : ℚ
  sdr : SdrContext
  model : Option String
  attribution : Option String
  deriving DecidableEq

/-- Decoded by rtl_433, tried without a decode, or not tried. -/
def Detection.status (d : Detection) : String :=
  if d.model ≠ none ∧ d.model ≠ some "" then "decoded"
  else if d.attribution ≠ none ∧ d.attribution ≠ some "" then "tried" else "not_tried"

/-- What a query of detections asks for beside its range. -/
structure DetectionFilter where
  minFreq : Option ℚ
  maxFreq : Option ℚ
  tuning : TuningFilter
  minDurationMs : Option ℚ
  maxDurationMs : Option ℚ
  attributed : Option Bool
  status : Option String
  model : Option String

/-- The status condition; any other text is none. -/
def statusCondition (status : Option String) (d : Detection) : Bool :=
  match status with
  | some "decoded" => d.model ≠ none ∧ d.model ≠ some ""
  | some "tried" =>
    (d.model = none ∨ d.model = some "") ∧ d.attribution ≠ none ∧ d.attribution ≠ some ""
  | some "not_tried" => (d.model = none ∨ d.model = some "") ∧ (d.attribution = none ∨ d.attribution = some "")
  | _ => true

def DetectionFilter.accepts (filter : DetectionFilter) (d : Detection) : Bool :=
  (∀ f ∈ filter.minFreq, f ≤ d.centerFreqHz) ∧ (∀ f ∈ filter.maxFreq, d.centerFreqHz ≤ f) ∧
    filter.tuning.meets d.sdr = true ∧ (∀ m ∈ filter.minDurationMs, m ≤ d.durationMs) ∧
    (∀ m ∈ filter.maxDurationMs, d.durationMs < m) ∧
    (∀ a ∈ filter.attributed, if a = true then d.model ≠ none ∧ d.model ≠ some "" else d.model = none ∨ d.model = some "") ∧
    statusCondition filter.status d = true ∧ ∀ m ∈ filter.model, d.model = some m ∧ m ≠ ""

/-- A comparison with a time from the request; a naive one goes as it is, and
an aware one that UTC cannot show raises. -/
def utcIso (t : DateTime) : Option (List Char) :=
  match t.offset with
  | none => some t.isoformat
  | some _ => if 0 ≤ t.instant then (DateTime.ofWall t.instant.toNat (some 0)).map DateTime.isoformat else none

def queryDetections (filter : DetectionFilter) (since until_ : Option DateTime) (rows : List Detection) :
    Option (List Detection) :=
  (since.mapM utcIso).bind fun a => (until_.mapM utcIso).map fun b =>
    rows.filter fun d => (∀ text ∈ a, text ≤ utcText d.startTime) ∧ (∀ text ∈ b, utcText d.startTime < text) ∧
      filter.accepts d = true

def queryIqCaptures (filter : TuningFilter) (since until_ : DateTime) (rows : List IqCapture) : List IqCapture :=
  rows.filter fun c => utcText c.startTime < until_.isoformat ∧ since.isoformat < utcText c.stopTime ∧
    filter.meets c.sdr = true

/-- The rollup rows of the minutes of a range, with the peak of each. -/
def queryMinutePeaks (metric : Metric) (filter : TuningFilter) (since until_ : DateTime) (minutes : List MinuteSummary) :
    List AvgMinutePeak :=
  (minutes.filter fun m => since.isoformat.take 16 ≤ minuteText m.minuteStart ∧
    minuteText m.minuteStart ≤ until_.isoformat.take 16 ∧
    filter.admits m.sdrCenterFreqHz m.sampleRateHz m.gainDb = true).filterMap fun m => m.peak metric

namespace SensorDatabase

def queryAvgWindows (filter : TuningFilter) (since until_ : Option DateTime) (db : SensorDatabase) : List AvgWindow :=
  db.windows.filter fun w => (∀ s ∈ since, s.isoformat ≤ utcText w.startTime) ∧
    (∀ u ∈ until_, utcText w.startTime < u.isoformat) ∧ filter.accepts w.tuning.key = true

/-- The windows with a text in a range of texts. -/
def textWindows (filter : TuningFilter) (a b : List Char) (db : SensorDatabase) : List AvgWindow :=
  db.windows.filter fun w => a ≤ utcText w.startTime ∧ utcText w.startTime < b ∧ filter.accepts w.tuning.key = true

/-- The windows between two epochs, by their texts at an offset. -/
def epochWindows (filter : TuningFilter) (offset : ℤ) (a b : ℚ) (db : SensorDatabase) : Option (List AvgWindow) :=
  if b ≤ a then some []
  else (DateTime.fromtimestamp a offset).bind fun s => (DateTime.fromtimestamp b offset).map fun u =>
    db.textWindows filter s.isoformat u.isoformat

/-- The epoch of a time, a naive one in the zone of the process. -/
def epochOf (zone : DateTime → ℤ) (t : DateTime) : ℚ :=
  if t.offset = none then t.timestamp - zone t else t.timestamp

/-- The windows that the fold of stored periods takes in. -/
def tieredWindows (zone : DateTime → ℤ) (filter : TuningFilter) (since until_ : DateTime) (level : Nat)
    (db : SensorDatabase) : Option (List AvgWindow) :=
  let s := epochOf zone since
  let u := epochOf zone until_
  let offset := since.offset.getD 0
  (db.epochWindows filter offset s (min (lo s level) u)).bind fun first =>
    (db.epochWindows filter offset (max (max (db.coverEnd filter s u level) (lo s level) : ℤ) s) u).map fun last =>
      first ++ (db.tierRange filter s u level).flatMap StoredRow.windows ++ last

/-- The windows that a timeline of at most `rows` rows shows one by one or folds. -/
def timelineWindows (zone : DateTime → ℤ) (filter : TuningFilter) (since until_ : DateTime) (rows : Nat)
    (forced : Option ℚ) (db : SensorDatabase) : Option (List AvgWindow) :=
  let span : ℚ := (until_.instant - since.instant : ℤ) / 10 ^ 6
  if span ≤ 0 then some []
  else
    let found := db.textWindows filter since.isoformat until_.isoformat
    if (forced.filter fun bucket => 0 < bucket) = none ∧ found.length ≤ rows then some found
    else
      match db.coveringTier (epochOf zone since) span rows forced with
      | some (level, _) => db.tieredWindows zone filter since until_ level
      | none => some found

/-- The windows of `query_avg_waterfall`. -/
def queryAvgWaterfall (zone : DateTime → ℤ) (filter : TuningFilter) (since until_ : DateTime) (maxRows : Nat)
    (bucketSec : Option ℚ) (db : SensorDatabase) : Option (List AvgWindow) :=
  db.timelineWindows zone filter since until_ maxRows bucketSec

/-- The windows of `query_avg_stats`. -/
def queryAvgStats (zone : DateTime → ℤ) (filter : TuningFilter) (since until_ : DateTime) (maxPoints : Nat)
    (bucketSec : Option ℚ) (db : SensorDatabase) : Option (List AvgWindow) :=
  db.timelineWindows zone filter since until_ maxPoints bucketSec

end SensorDatabase

section Utc

variable {t u : DateTime} {x : ℚ}

theorem timestamp_lt : t.timestamp < u.timestamp ↔ t.instant < u.instant := by
  unfold DateTime.timestamp
  rw [div_lt_div_iff_of_pos_right (by positivity), Int.cast_lt]
  omega

theorem timestamp_le : t.timestamp ≤ u.timestamp ↔ t.instant ≤ u.instant := by
  rw [← not_lt, timestamp_lt, not_lt]

theorem instant_utc (utc : t.offset = some 0) : t.instant = t.wall := by
  rw [DateTime.instant, utc, Option.getD_some, zero_mul, sub_zero]

theorem instant_naive (naive : t.offset = none) : t.instant = t.wall := by
  rw [DateTime.instant, naive, Option.getD_none, zero_mul, sub_zero]

theorem utcText_timestamp (utc : t.offset = some 0) : utcText t.timestamp = t.isoformat := by
  rw [utcText, DateTime.fromtimestamp_timestamp utc]
  rfl

theorem utcText_lt (storable : Storable x) (utc : u.offset = some 0) : utcText x < u.isoformat ↔ x < u.timestamp := by
  obtain ⟨t, its, rfl⟩ := storable
  rw [utcText_timestamp its, DateTime.isoformat_lt_utc its (Or.inl utc), timestamp_lt, instant_utc its, instant_utc utc,
    Nat.cast_lt]

theorem lt_utcText (storable : Storable x) (utc : u.offset = some 0) : u.isoformat < utcText x ↔ u.timestamp < x := by
  obtain ⟨t, its, rfl⟩ := storable
  rw [utcText_timestamp its, DateTime.isoformat_lt_utc utc (Or.inl its), timestamp_lt, instant_utc its, instant_utc utc,
    Nat.cast_lt]

theorem le_utcText (storable : Storable x) (utc : u.offset = some 0) : u.isoformat ≤ utcText x ↔ u.timestamp ≤ x := by
  rw [← not_lt, utcText_lt storable utc, not_lt]

/-- Between two times that clocks show, UTC clocks show every microsecond. -/
theorem wall_between {n : Nat} (from_ : t.wall ≤ n) (before : n ≤ u.wall) : ∃ v : DateTime, v.offset = some 0 ∧ v.wall = n := by
  have inRange : (1 ≤ n / 10 ^ 6 / 86400 ∧ n / 10 ^ 6 / 86400 ≤ Calendar.maxOrdinal) ∧
      ∀ o ∈ some (0 : ℤ), -86400 < o ∧ o < 86400 := by
    have first := t.date.ordinal_pos
    have last := u.date.ordinal_le
    have time := u.time
    simp only [DateTime.wall, DateTime.seconds] at from_ before
    refine ⟨?_, by simp⟩
    omega
  obtain ⟨shown, utc⟩ := DateTime.wall_ofWall (dif_pos inRange)
  exact ⟨_, utc, shown⟩

/-- A whole second between two UTC times can be stored. -/
theorem storable_between {n : ℤ} (utc : t.offset = some 0) (from_ : t.timestamp ≤ n) (before : (n : ℚ) ≤ u.timestamp)
    (utc' : u.offset = some 0) : Storable n := by
  have low : (t.wall : ℤ) ≤ (n + DateTime.epochSeconds) * 10 ^ 6 := by
    rw [DateTime.timestamp, instant_utc utc, div_le_iff₀ (by positivity)] at from_
    have := (by exact_mod_cast from_ : (t.wall : ℤ) - DateTime.epochSeconds * 10 ^ 6 ≤ n * 10 ^ 6)
    linarith
  have high : (n + DateTime.epochSeconds) * 10 ^ 6 ≤ (u.wall : ℤ) := by
    rw [DateTime.timestamp, instant_utc utc', le_div_iff₀ (by positivity)] at before
    have := (by exact_mod_cast before : n * 10 ^ 6 ≤ (u.wall : ℤ) - DateTime.epochSeconds * 10 ^ 6)
    linarith
  obtain ⟨wall, isWall⟩ := Int.eq_ofNat_of_zero_le (le_trans (Int.natCast_nonneg _) low)
  obtain ⟨v, its, shown⟩ := wall_between (t := t) (u := u) (n := wall) (by omega) (by omega)
  refine ⟨v, its, ?_⟩
  rw [DateTime.timestamp, instant_utc its, shown, ← isWall, div_eq_iff (by positivity)]
  push_cast
  ring

theorem minuteKey_eq {n : ℤ} (from_ : n * (60 * 10 ^ 6) ≤ t.instant - DateTime.epochSeconds * 10 ^ 6)
    (before : t.instant - DateTime.epochSeconds * 10 ^ 6 < (n + 1) * (60 * 10 ^ 6)) : minuteKey t.timestamp = n := by
  have exactly : t.timestamp / 60 = ((t.instant - DateTime.epochSeconds * 10 ^ 6 : ℤ) : ℚ) / (60 * 10 ^ 6) := by
    rw [DateTime.timestamp, div_div, mul_comm (10 ^ 6 : ℚ) 60]
  refine Int.floor_eq_iff.mpr ⟨?_, ?_⟩
  · rw [exactly, le_div_iff₀ (by positivity)]
    exact_mod_cast from_
  · rw [exactly, div_lt_iff₀ (by positivity)]
    exact_mod_cast before

theorem minuteKey_timestamp (utc : t.offset = some 0) : minuteKey t.timestamp = (t.seconds : ℤ) / 60 - 719163 * 1440 := by
  have micro := t.time.2.2.2
  refine minuteKey_eq ?_ ?_
  · rw [instant_utc utc, DateTime.wall, DateTime.epochSeconds]
    omega
  · rw [instant_utc utc, DateTime.wall, DateTime.epochSeconds]
    omega

/-- A stored minute's text is the start of the texts of its times. -/
theorem minuteText_minuteKey (storable : Storable x) : minuteText (minuteKey x) = (utcText x).take 16 := by
  obtain ⟨t, utc, rfl⟩ := storable
  let v : DateTime := { t with second := 0, micro := 0, time := ⟨t.time.1, t.time.2.1, by omega, by omega⟩ }
  have seconds : v.seconds / 60 * 60 = v.seconds ∧ v.seconds / 60 = t.seconds / 60 := by
    have := t.time
    simp only [v, DateTime.seconds]
    omega
  have its : v.timestamp = 60 * minuteKey t.timestamp := by
    have shown : v.instant - DateTime.epochSeconds * 10 ^ 6 = 60 * minuteKey t.timestamp * 10 ^ 6 := by
      rw [instant_utc (t := v) utc, minuteKey_timestamp utc, DateTime.wall, DateTime.epochSeconds]
      have micro : v.micro = 0 := rfl
      omega
    rw [DateTime.timestamp, shown, div_eq_iff (by positivity)]
    push_cast
    ring
  rw [minuteText, ← its, utcText_timestamp (t := v) utc, utcText_timestamp utc, DateTime.take_minute_eq seconds.2]

end Utc

namespace SensorDatabase

variable {db : SensorDatabase} {since until_ : DateTime} {a b : ℚ}

/-- Every window starts at a time that can be stored. -/
def Stored (db : SensorDatabase) : Prop := ∀ w ∈ db.windows, Storable w.startTime

theorem textWindows_utc (filter : TuningFilter) (stored : db.Stored) (sinceUtc : since.offset = some 0) (untilUtc : until_.offset = some 0) :
    db.textWindows filter since.isoformat until_.isoformat = db.rangeWindows filter since.timestamp until_.timestamp :=
  List.filter_congr fun w member => by
    simp only [le_utcText (stored w member) sinceUtc, utcText_lt (stored w member) untilUtc]

theorem queryAvgWindows_utc (filter : TuningFilter) (stored : db.Stored) (sinceUtc : since.offset = some 0) (untilUtc : until_.offset = some 0) :
    db.queryAvgWindows filter (some since) (some until_) = db.rangeWindows filter since.timestamp until_.timestamp := by
  rw [← textWindows_utc filter stored sinceUtc untilUtc]
  simp only [queryAvgWindows, textWindows, Option.mem_some_iff, forall_eq']

theorem epochWindows_utc (filter : TuningFilter) (stored : db.Stored) (storable : a < b → Storable a ∧ Storable b) :
    db.epochWindows filter 0 a b = some (db.rangeWindows filter a b) := by
  unfold epochWindows
  split
  case isTrue empty =>
    refine congrArg some (List.filter_eq_nil_iff.mpr fun w _ inside => ?_).symm
    obtain ⟨from_, before, -⟩ := of_decide_eq_true inside
    exact absurd (from_.trans_lt before) (not_lt.mpr empty)
  case isFalse lt =>
    obtain ⟨⟨t, its, rfl⟩, u, itsToo, rfl⟩ := storable (not_le.mp lt)
    rw [DateTime.fromtimestamp_timestamp its, DateTime.fromtimestamp_timestamp itsToo, Option.bind_some, Option.map_some,
      textWindows_utc filter stored its itsToo]

theorem tieredWindows_utc (zone : DateTime → ℤ) (filter : TuningFilter) (stored : db.Stored) {level : Nat}
    (sinceUtc : since.offset = some 0) (untilUtc : until_.offset = some 0) (covers : db.Covers level since.timestamp) :
    ∃ windows, db.tieredWindows zone filter since until_ level = some windows ∧
      windows.Perm (db.rangeWindows filter since.timestamp until_.timestamp) := by
  have epochSince : epochOf zone since = since.timestamp := if_neg (by simp [sinceUtc])
  have epochUntil : epochOf zone until_ = until_.timestamp := if_neg (by simp [untilUtc])
  have isSince : Storable since.timestamp := ⟨since, sinceUtc, rfl⟩
  have isUntil : Storable until_.timestamp := ⟨until_, untilUtc, rfl⟩
  have first := epochWindows_utc filter (b := min (lo since.timestamp level) until_.timestamp) stored fun lt => by
    refine ⟨isSince, ?_⟩
    rcases min_choice ((lo since.timestamp level : ℤ) : ℚ) until_.timestamp with eq | eq
    · rw [eq] at lt ⊢
      exact storable_between sinceUtc lt.le (eq ▸ min_le_right ..) untilUtc
    · rw [eq]
      exact isUntil
  have last := epochWindows_utc filter (b := until_.timestamp)
    (a := max (max (db.coverEnd filter since.timestamp until_.timestamp level) (lo since.timestamp level) : ℤ)
      since.timestamp) stored fun lt => by
    refine ⟨?_, isUntil⟩
    rcases max_choice ((max (db.coverEnd filter since.timestamp until_.timestamp level) (lo since.timestamp level) : ℤ) : ℚ)
      since.timestamp with eq | eq
    · rw [eq] at lt ⊢
      exact storable_between sinceUtc (eq ▸ le_max_right ..) lt.le untilUtc
    · rw [eq]
      exact isSince
  refine ⟨_, ?_, covers.tiered_windows filter until_.timestamp⟩
  unfold tieredWindows
  rw [epochSince, epochUntil, sinceUtc, Option.getD_some]
  simp only [first, last, Option.bind_some, Option.map_some]

/-- With both times at offset zero a timeline takes in the windows of the range. -/
theorem timelineWindows_utc (zone : DateTime → ℤ) (filter : TuningFilter) (stored : db.Stored) (sound : db.Sound)
    (sinceUtc : since.offset = some 0) (untilUtc : until_.offset = some 0) (rows : Nat) (forced : Option ℚ) :
    ∃ windows, db.timelineWindows zone filter since until_ rows forced = some windows ∧
      windows.Perm (db.rangeWindows filter since.timestamp until_.timestamp) := by
  have found := textWindows_utc filter stored sinceUtc untilUtc
  unfold timelineWindows
  simp only [found]
  split
  case isTrue empty =>
    refine ⟨[], rfl, List.Perm.of_eq (List.filter_eq_nil_iff.mpr fun w _ inside => ?_).symm⟩
    obtain ⟨from_, before, -⟩ := of_decide_eq_true inside
    have lt := timestamp_lt.mp (from_.trans_lt before)
    rw [div_le_iff₀ (by positivity), zero_mul] at empty
    have := (by exact_mod_cast empty : until_.instant - since.instant ≤ 0)
    omega
  case isFalse =>
    split
    case isTrue => exact ⟨_, rfl, List.Perm.refl _⟩
    case isFalse =>
      split
      case h_1 level bucketSec covering =>
        have epochSince : epochOf zone since = since.timestamp := if_neg (by simp [sinceUtc])
        rw [epochSince] at covering
        obtain ⟨tier, -, covered⟩ := coveringTier_spec covering
        exact tieredWindows_utc zone filter stored sinceUtc untilUtc (sound.covers tier covered)
      case h_2 => exact ⟨_, rfl, List.Perm.refl _⟩

end SensorDatabase
end RFObserver
