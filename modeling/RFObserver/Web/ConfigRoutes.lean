import RFObserver.Lib.Runs
import RFObserver.Web.AppSettings

/-! What the routes write into the settings. -/

namespace RFObserver

namespace Settings

/-- What the casts make of a JSON value; `int` and `float` may raise. `empty`
is for None and "". -/
structure FormValue where
  empty : Bool
  int : Option ℤ
  float : Option PyFloat
  str : List Char
  toBool : Bool

inductive Cast
  | int
  | float
  | str
  | toBool
  deriving DecidableEq

def Cast.apply (raw : FormValue) : Cast → Option Value
  | .int => raw.int.map .int
  | .float => raw.float.map .float
  | .str => some (.str raw.str)
  | .toBool => some (.bool raw.toBool)

structure FormField where
  key : String
  attr : String
  cast : Cast

def fieldMap : List FormField :=
  [⟨"frequency_start", "FREQUENCY_START", .int⟩, ⟨"frequency_end", "FREQUENCY_END", .int⟩,
    ⟨"frequency_step", "FREQUENCY_STEP", .int⟩, ⟨"bandwidth", "BANDWIDTH", .int⟩, ⟨"gain", "GAIN", .int⟩,
    ⟨"duration_sec", "DURATION_SEC", .float⟩, ⟨"trigger_threshold_db", "TRIGGER_THRESHOLD_DB", .float⟩,
    ⟨"trigger_hysteresis", "TRIGGER_HYSTERESIS", .int⟩, ⟨"trigger_pre_sec", "TRIGGER_PRE_SEC", .float⟩,
    ⟨"trigger_continuous", "TRIGGER_CONTINUOUS", .toBool⟩, ⟨"recording_max_sec", "RECORDING_MAX_SEC", .float⟩,
    ⟨"recording_mem_fraction", "RECORDING_MEM_FRACTION", .float⟩,
    ⟨"recording_ram_buffer", "RECORDING_RAM_BUFFER", .toBool⟩,
    ⟨"burst_detection_enabled", "BURST_DETECTION_ENABLED", .toBool⟩,
    ⟨"burst_threshold_high_db", "BURST_THRESHOLD_HIGH_DB", .float⟩,
    ⟨"burst_threshold_low_ratio", "BURST_THRESHOLD_LOW_RATIO", .float⟩,
    ⟨"psd_time_resolution_ms", "PSD_TIME_RESOLUTION_MS", .float⟩, ⟨"num_fft_bins", "NUM_FFT_BINS", .int⟩,
    ⟨"psd_backend", "PSD_BACKEND", .str⟩, ⟨"archive_max_gb", "ARCHIVE_MAX_GB", .float⟩,
    ⟨"priority_min_sec", "PRIORITY_MIN_SEC", .float⟩, ⟨"priority_excess_db", "PRIORITY_EXCESS_DB", .float⟩,
    ⟨"priority_span_sec", "PRIORITY_SPAN_SEC", .float⟩, ⟨"priority_share", "PRIORITY_SHARE", .float⟩,
    ⟨"history_days", "DB_RETENTION_DAYS", .int⟩, ⟨"disk_min_free_gb", "DISK_MIN_FREE_GB", .float⟩,
    ⟨"stats_retention_days", "STATS_RETENTION_DAYS", .int⟩, ⟨"storage_check_sec", "STORAGE_CHECK_SEC", .float⟩,
    ⟨"isolation_enabled", "ISOLATION_ENABLED", .toBool⟩, ⟨"attribution_enabled", "ATTRIBUTION_ENABLED", .toBool⟩,
    ⟨"attribution_decoders", "ATTRIBUTION_DECODERS", .str⟩, ⟨"isolation_snr_db", "ISOLATION_SNR_DB", .float⟩,
    ⟨"isolation_max_per_sec", "ISOLATION_MAX_PER_SEC", .int⟩,
    ⟨"isolation_lookback_sec", "ISOLATION_LOOKBACK_SEC", .float⟩,
    ⟨"isolation_max_burst_sec", "ISOLATION_MAX_BURST_SEC", .float⟩,
    ⟨"isolation_ram_fraction", "ISOLATION_RAM_FRACTION", .float⟩,
    ⟨"burst_archive_max_gb", "BURST_ARCHIVE_MAX_GB", .float⟩, ⟨"sensor_name", "SENSOR_NAME", .str⟩,
    ⟨"latitude", "LATITUDE", .float⟩, ⟨"longitude", "LONGITUDE", .float⟩,
    ⟨"cal_offset_db", "CAL_OFFSET_DB", .float⟩, ⟨"psd_scale_min_db", "PSD_SCALE_MIN_DB", .float⟩,
    ⟨"psd_scale_max_db", "PSD_SCALE_MAX_DB", .float⟩, ⟨"zms_zmc_http", "ZMS_ZMC_HTTP", .str⟩,
    ⟨"zms_dst_http", "ZMS_DST_HTTP", .str⟩, ⟨"zms_identity_http", "ZMS_IDENTITY_HTTP", .str⟩,
    ⟨"zms_monitor_id", "ZMS_MONITOR_ID", .str⟩, ⟨"zms_metric_id", "ZMS_METRIC_ID", .str⟩,
    ⟨"zms_monitor_name", "ZMS_MONITOR_NAME", .str⟩,
    ⟨"zms_interference_threshold_db", "ZMS_INTERFERENCE_THRESHOLD_DB", .float⟩]

def nullableAttrs : List String :=
  ["SENSOR_NAME", "LATITUDE", "LONGITUDE", "CAL_OFFSET_DB", "PSD_SCALE_MIN_DB", "PSD_SCALE_MAX_DB",
    "ZMS_INTERFERENCE_THRESHOLD_DB"]

def allDecoders : List (List Char) :=
  ["ssm".toList, "rfid".toList, "silverspring".toList, "ssnmesh".toList, "rtl433".toList]

def psdBackends : List (List Char) := ["cpu".toList, "cuda".toList]

def validBins : List ℤ := [256, 512, 1024, 2048, 4096, 8192]

def strip (t : List Char) : List Char := ((t.dropWhile isSpace).reverse.dropWhile isSpace).reverse

theorem strip_eq {t : List Char} (first : ∀ c ∈ t.head?, isSpace c = false)
    (last : ∀ c ∈ t.getLast?, isSpace c = false) : strip t = t := by
  have front : ∀ u : List Char, (∀ c ∈ u.head?, isSpace c = false) → u.dropWhile isSpace = u := by
    intro u clean
    cases u with
    | nil => rfl
    | cons c rest => rw [List.dropWhile_cons_of_neg (by simp [clean c rfl])]
  rw [strip, front t first, front t.reverse (by rw [List.head?_reverse]; exact last), List.reverse_reverse]

/-- `valid_rate` -/
def rtlsdrValidRate (rate : ℤ) : Bool := (225001 ≤ rate ∧ rate ≤ 300000) ∨ (900001 ≤ rate ∧ rate ≤ 3200000)

/-- `<=` of floats. -/
def PyFloat.le : PyFloat → PyFloat → Bool
  | .nan, _ | _, .nan => false
  | .negInf, _ | _, .inf => true
  | .finite a, .finite b => a ≤ b
  | .inf, _ | _, .negInf => false

/-- `<` of floats. -/
def PyFloat.lt (a b : PyFloat) : Bool := PyFloat.le a b && !(PyFloat.le b a)

/-- The names in an `attribution_decoders` value. A letter beyond ASCII has no
lower-case form that is in a decoder's name. -/
def decoderNames (t : List Char) : List (List Char) :=
  ((t.splitOn ',').map fun n => (strip n).map Char.toLower).filter fun n => n ≠ []

/-- The checks of one cast value: the value to set, or the detail of the 400. -/
def checkValue (settings : AppSettings) (key attr : String) (v : Value) : Except String Value :=
  match attr, v with
  | "ISOLATION_RAM_FRACTION", .float x =>
    if PyFloat.le (.finite 0.05) x && PyFloat.le x (.finite 0.9) then .ok v
    else .error "isolation_ram_fraction must be between 0.05 and 0.9"
  | "BANDWIDTH", .int n =>
    if settings "RECEIVER" = .str "rtlsdr".toList ∧ rtlsdrValidRate n = false then
      .error ("An RTL-SDR cannot sample at " ++ toString n ++
        " Hz: use 225001-300000 or 900001-3200000 Hz (e.g. 250e3, 2.4e6)")
    else if n < 200000 then .error ("Bandwidth is in Hz: " ++ toString n ++ " Hz is too low (e.g. 250e3, 56e6)")
    else .ok v
  | "ATTRIBUTION_DECODERS", .str t =>
    let names := decoderNames t
    let unknown := names.filter fun n => n ∉ allDecoders
    if unknown ≠ [] then
      .error ("Unknown attribution decoder: " ++ String.ofList (List.intercalate ", ".toList unknown) ++ " (known: " ++
        String.ofList (List.intercalate ", ".toList allDecoders) ++ ")")
    else .ok (.str (List.intercalate [','] (allDecoders.filter fun d => d ∈ names)))
  | "NUM_FFT_BINS", .int n =>
    if n ∈ validBins then .ok v else .error "num_fft_bins must be one of [256, 512, 1024, 2048, 4096, 8192]"
  | "PSD_BACKEND", .str t => if t ∈ psdBackends then .ok v else .error "psd_backend must be one of ['cpu', 'cuda']"
  | attr, .float x =>
    if attr.startsWith "PRIORITY_" then
      if attr = "PRIORITY_SHARE" ∧ ¬ (PyFloat.le (.finite 0) x && PyFloat.le x (.finite 1)) then
        .error "priority_share must be between 0 and 1"
      else if PyFloat.lt x (.finite 0) then .error (key ++ " must be 0 or more")
      else .ok v
    else .ok v
  | _, _ => .ok v

/-- The new value of a submitted field, or the detail of the 400. -/
def newValue (settings : AppSettings) (f : FormField) (raw : FormValue) : Except String Value :=
  if f.attr ∈ nullableAttrs ∧ raw.empty = true then .ok .none
  else
    match f.cast.apply raw with
    | none => .error ("Invalid value for " ++ f.key)
    | some v => checkValue settings f.key f.attr v

/-- The loop over the field map: the settings as they are left, with what
changed or with the detail of the 400. -/
def applyFields (body : List (String × FormValue)) :
    List FormField → AppSettings → List String → AppSettings × Except String (List String)
  | [], settings, changed => (settings, .ok changed)
  | f :: rest, settings, changed =>
    match body.lookup f.key with
    | none => applyFields body rest settings changed
    | some raw =>
      match newValue settings f raw with
      | .error detail => (settings, .error detail)
      | .ok v =>
        if settings f.attr = v then applyFields body rest settings changed
        else applyFields body rest (Function.update settings f.attr v) (changed ++ [f.attr])

/-- A bound of the display scale as it would become. -/
def prospectiveScale (body : List (String × FormValue)) (settings : AppSettings) (key attr : String) : Option PyFloat :=
  match body.lookup key with
  | none =>
    match settings attr with
    | .float x => some x
    | _ => none
  | some raw => if raw.empty then none else raw.float

/-- `apply_config` to the end of its updates. -/
def applyConfig (settings : AppSettings) (body : List (String × FormValue)) : AppSettings × Except String (List String) :=
  let scaleMin := prospectiveScale body settings "psd_scale_min_db" "PSD_SCALE_MIN_DB"
  let scaleMax := prospectiveScale body settings "psd_scale_max_db" "PSD_SCALE_MAX_DB"
  if ∃ low ∈ scaleMin, ∃ high ∈ scaleMax, PyFloat.le high low = true then
    (settings, .error "Scale Min must be less than Scale Max")
  else
    match applyFields body fieldMap settings [] with
    | (settings, .error detail) => (settings, .error detail)
    | (settings, .ok changed) =>
      match body.lookup "zms_token" with
      | none => (settings, .ok changed)
      | some raw =>
        if raw.empty then (settings, .ok changed)
        else (Function.update settings "ZMS_TOKEN" (.secret raw.str), .ok (changed ++ ["ZMS_TOKEN"]))

/-- The requests that update the settings, and the zone that `SensorZone` finds
at a new location. `writable` is whether the new storage path can be written. -/
inductive Update
  | apply (body : List (String × FormValue))
  | sensor (active : Bool)
  | arm (armed : Bool)
  | storagePath (path : List Char) (writable : Bool)
  | zms (enabled : Bool)
  | timezone (name : List Char)
  | toneCheck (enabled : Option Bool) (freqHz thresholdDb : Option PyFloat)

def setIf (settings : AppSettings) (attr : String) (v : Option Value) : AppSettings :=
  v.elim settings (Function.update settings attr)

def update (settings : AppSettings) : Update → AppSettings
  | .apply body => (applyConfig settings body).1
  | .sensor active => Function.update settings "SENSOR_ACTIVE" (.bool active)
  | .arm armed => Function.update settings "TRIGGER_CONTINUOUS" (.bool armed)
  | .storagePath path writable =>
    if strip path ≠ [] ∧ writable = true then Function.update settings "STORAGE_PATH" (.str (strip path)) else settings
  | .zms enabled => Function.update settings "ZMS_ENABLED" (.bool enabled)
  | .timezone name => Function.update settings "TIMEZONE" (.str name)
  | .toneCheck enabled freqHz thresholdDb =>
    setIf (setIf (setIf settings "TONE_CHECK_ENABLED" (enabled.map .bool)) "TONE_CHECK_FREQ_HZ" (freqHz.map .float))
      "TONE_CHECK_THRESHOLD_DB" (thresholdDb.map .float)

end Settings

end RFObserver
