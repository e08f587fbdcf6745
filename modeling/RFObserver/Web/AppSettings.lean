import Mathlib.Data.Rat.Defs
import Mathlib.Tactic

/-! The settings, their `.env` and what is read back from it. -/

namespace RFObserver

/-- A float, with 0.0 and -0.0 one value as they are for Python. -/
inductive PyFloat
  | finite (q : ℚ)
  | inf
  | negInf
  | nan
  deriving DecidableEq

namespace Settings

inductive Value
  | none
  | bool (b : Bool)
  | int (n : ℤ)
  | float (x : PyFloat)
  | str (s : List Char)
  | secret (s : List Char)
  deriving DecidableEq

/-- The annotation of a field. -/
inductive Kind
  | bool
  | int
  | float
  | str
  | literal (choices : List (List Char))
  | optStr
  | optFloat
  | optSecret
  deriving DecidableEq

/-- The values of a kind. -/
def Kind.has : Kind → Value → Bool
  | .bool, .bool _ | .int, .int _ | .float, .float _ | .str, .str _ => true
  | .literal choices, .str s => choices.contains s
  | .optStr, .none | .optStr, .str _ | .optFloat, .none | .optFloat, .float _ => true
  | .optSecret, .none | .optSecret, .secret _ => true
  | _, _ => false

structure Field where
  name : String
  kind : Kind
  default : Value

/-- `AppSettings.model_fields`, HOSTNAME with the name of the host. -/
def modelFields (hostname : List Char) : List Field :=
  [⟨"FREQUENCY_START", .int, .int 2437000000⟩, ⟨"FREQUENCY_END", .int, .int 2437000000⟩,
    ⟨"FREQUENCY_STEP", .int, .int 0⟩, ⟨"BANDWIDTH", .int, .int 56000000⟩,
    ⟨"DURATION_SEC", .float, .float (.finite 0.5)⟩, ⟨"GAIN", .int, .int 40⟩, ⟨"SENSOR_ACTIVE", .bool, .bool false⟩,
    ⟨"CYCLES", .int, .int 0⟩, ⟨"RECORDS_PER_STEP", .int, .int 1⟩, ⟨"INTERVAL_SEC", .int, .int 10⟩,
    ⟨"TRIGGER_ENABLED", .bool, .bool false⟩, ⟨"TRIGGER_THRESHOLD_DB", .float, .float (.finite (-40))⟩,
    ⟨"TRIGGER_HYSTERESIS", .int, .int 3⟩, ⟨"TRIGGER_PRE_SEC", .float, .float (.finite 1)⟩,
    ⟨"TRIGGER_DETECT_SEC", .float, .float (.finite 0.5)⟩, ⟨"TRIGGER_CONTINUOUS", .bool, .bool false⟩,
    ⟨"BURST_DETECTION_ENABLED", .bool, .bool true⟩, ⟨"BURST_THRESHOLD_HIGH_DB", .float, .float (.finite 30)⟩,
    ⟨"BURST_THRESHOLD_LOW_RATIO", .float, .float (.finite 0.6)⟩, ⟨"BURST_MERGE_FREQ_BINS", .int, .int 5⟩,
    ⟨"BURST_MERGE_TIME_MS", .float, .float (.finite 3)⟩,
    ⟨"BURST_NOISE_FLOOR_PERCENTILE", .float, .float (.finite 50)⟩, ⟨"HOSTNAME", .str, .str hostname⟩,
    ⟨"SENSOR_NAME", .optStr, .none⟩, ⟨"TIMEZONE", .str, .str "".toList⟩, ⟨"LATITUDE", .optFloat, .none⟩,
    ⟨"LONGITUDE", .optFloat, .none⟩, ⟨"ORGANIZATION", .str, .str "DefaultOrg".toList⟩,
    ⟨"COORDINATES", .str, .str "0.0N,0.0W".toList⟩, ⟨"REPLAY_SOURCE_DIR", .str, .str "".toList⟩,
    ⟨"STORAGE_PATH", .str, .str "/tmp/rfobserver".toList⟩,
    ⟨"DB_PATH", .str, .str "/tmp/rfobserver/rfobserver.db".toList⟩, ⟨"ARCHIVE_MAX_GB", .float, .float (.finite 50)⟩,
    ⟨"PRIORITY_MIN_SEC", .float, .float (.finite 2)⟩, ⟨"PRIORITY_EXCESS_DB", .float, .float (.finite 10)⟩,
    ⟨"PRIORITY_SPAN_SEC", .float, .float (.finite 60)⟩, ⟨"PRIORITY_SHARE", .float, .float (.finite 0.5)⟩,
    ⟨"HISTORY_DAYS", .int, .int 7⟩, ⟨"DB_RETENTION_DAYS", .int, .int 7⟩,
    ⟨"DB_CLEANUP_INTERVAL_SEC", .float, .float (.finite 3600)⟩, ⟨"DISK_MIN_FREE_GB", .float, .float (.finite 0)⟩,
    ⟨"STATS_RETENTION_DAYS", .int, .int 730⟩, ⟨"STORAGE_CHECK_SEC", .float, .float (.finite 10)⟩,
    ⟨"PEAKS_ROLLUP_INTERVAL_SEC", .float, .float (.finite 60)⟩,
    ⟨"DETECTIONS_SIDECAR_GRACE_SEC", .float, .float (.finite 3)⟩, ⟨"WEB_HOST", .str, .str "0.0.0.0".toList⟩,
    ⟨"WEB_PORT", .int, .int 8080⟩, ⟨"MDNS_ENABLED", .bool, .bool true⟩, ⟨"CAL_OFFSET_DB", .optFloat, .none⟩,
    ⟨"PSD_SCALE_MIN_DB", .optFloat, .none⟩, ⟨"PSD_SCALE_MAX_DB", .optFloat, .none⟩,
    ⟨"NUM_FFT_BINS", .int, .int 2048⟩, ⟨"PSD_TIME_RESOLUTION_MS", .float, .float (.finite 0.2)⟩,
    ⟨"PSD_BACKEND", .literal ["cpu".toList, "cuda".toList], .str "cpu".toList⟩,
    ⟨"STREAMING_CHUNK_SLICES", .int, .int 200⟩, ⟨"BURST_WINDOW_ROWS", .int, .int 4096⟩,
    ⟨"BURST_EVAL_INTERVAL_ROWS", .int, .int 2048⟩, ⟨"TONE_CHECK_ENABLED", .bool, .bool false⟩,
    ⟨"TONE_CHECK_FREQ_HZ", .float, .float (.finite 0)⟩, ⟨"TONE_CHECK_THRESHOLD_DB", .float, .float (.finite 10)⟩,
    ⟨"RECORDING_MAX_SEC", .float, .float (.finite 30)⟩, ⟨"RECORDING_RAM_BUFFER", .bool, .bool false⟩,
    ⟨"RECORDING_MEM_FRACTION", .float, .float (.finite 0.5)⟩, ⟨"METRICS_ENABLED", .bool, .bool false⟩,
    ⟨"METRICS_PORT", .int, .int 9090⟩, ⟨"ISOLATION_ENABLED", .bool, .bool false⟩,
    ⟨"ATTRIBUTION_ENABLED", .bool, .bool false⟩, ⟨"ATTRIBUTION_RTL433_PATH", .str, .str "".toList⟩,
    ⟨"ATTRIBUTION_DECODERS", .str, .str "ssm,rfid,silverspring,ssnmesh,rtl433".toList⟩,
    ⟨"ISOLATION_LOOKBACK_SEC", .float, .float (.finite 2)⟩,
    ⟨"ISOLATION_MAX_BURST_SEC", .float, .float (.finite 0.5)⟩,
    ⟨"ISOLATION_RAM_FRACTION", .float, .float (.finite 0.25)⟩, ⟨"ISOLATION_SNR_DB", .float, .float (.finite 13)⟩,
    ⟨"ISOLATION_MAX_PER_SEC", .int, .int 20⟩, ⟨"ISOLATION_QUEUE_MAX", .int, .int 64⟩,
    ⟨"BURST_ARCHIVE_MAX_GB", .float, .float (.finite 2)⟩, ⟨"WATCHDOG_ENABLED", .bool, .bool false⟩,
    ⟨"WATCHDOG_TIMEOUT_SEC", .float, .float (.finite 30)⟩,
    ⟨"WATCHDOG_RESTART_DEADLINE_SEC", .float, .float (.finite 10)⟩,
    ⟨"WATCHDOG_STOP_TIMEOUT_SEC", .float, .float (.finite 5)⟩, ⟨"EXIT_ON_CRASH_GIVE_UP", .bool, .bool true⟩,
    ⟨"RECEIVER", .literal ["uhd".toList, "rtlsdr".toList], .str "uhd".toList⟩,
    ⟨"RTLSDR_DEVICE_INDEX", .int, .int 0⟩, ⟨"RTLSDR_PPM", .int, .int 0⟩, ⟨"MOCK_RECEIVER", .bool, .bool false⟩,
    ⟨"LOG_LEVEL", .str, .str "INFO".toList⟩, ⟨"ZMS_ENABLED", .bool, .bool false⟩, ⟨"ZMS_ZMC_HTTP", .optStr, .none⟩,
    ⟨"ZMS_DST_HTTP", .optStr, .none⟩, ⟨"ZMS_IDENTITY_HTTP", .optStr, .none⟩, ⟨"ZMS_TOKEN", .optSecret, .none⟩,
    ⟨"ZMS_MONITOR_ID", .optStr, .none⟩, ⟨"ZMS_MONITOR_NAME", .optStr, .none⟩,
    ⟨"ZMS_MONITOR_SCHEMA_PATH", .optStr, .none⟩, ⟨"ZMS_METRIC_ID", .optStr, .none⟩,
    ⟨"ZMS_INTERFERENCE_THRESHOLD_DB", .optFloat, .none⟩, ⟨"RFDB_ENABLED", .bool, .bool false⟩,
    ⟨"RFDB_HOST", .optStr, .none⟩, ⟨"RFDB_PORT", .int, .int 5433⟩, ⟨"RFDB_NAME", .str, .str "nrdz".toList⟩,
    ⟨"RFDB_USER", .optStr, .none⟩, ⟨"RFDB_PASSWORD", .optSecret, .none⟩,
    ⟨"RFDB_FLUSH_SEC", .float, .float (.finite 5)⟩]

/-- `str.isspace` of one character. -/
def isSpace (c : Char) : Bool :=
  let n := c.toNat
  (9 ≤ n ∧ n ≤ 13) ∨ (28 ≤ n ∧ n ≤ 32) ∨ n = 0x85 ∨ n = 0xa0 ∨ n = 0x1680 ∨ (0x2000 ≤ n ∧ n ≤ 0x200a) ∨ n = 0x2028 ∨
    n = 0x2029 ∨ n = 0x202f ∨ n = 0x205f ∨ n = 0x3000

/-- A `#` after white space. -/
def hasComment : List Char → Bool
  | c :: d :: rest => (isSpace c && d == '#') || hasComment (d :: rest)
  | _ => false

/-- A `${NAME}`. -/
def hasExpansion : List Char → Bool
  | c :: rest => (c == '$' && rest.head? == some '\x7b' && rest.contains '\x7d') || hasExpansion rest
  | [] => false

/-- A value that stands for itself after `NAME=` in the dotenv format: one line
with no white space around it, no quote before it, no comment and no expansion. -/
structure Plain (t : List Char) : Prop where
  oneLine : '\n' ∉ t ∧ '\r' ∉ t
  first : ∀ c ∈ t.head?, isSpace c = false ∧ c ≠ '\'' ∧ c ≠ '"'
  last : ∀ c ∈ t.getLast?, isSpace c = false
  comment : hasComment t = false
  expansion : hasExpansion t = false

/-- The packages that read an `.env`, and `str` of a float. `envVars` are the
variables in a file, by their names in capitals, and `validate` is the value
that a field of a kind takes from a text. -/
structure EnvReader where
  floatText : PyFloat → List Char
  envVars : List Char → List (String × List Char)
  validate : Kind → List Char → Option Value

/-- The text of a file of `NAME=value` lines. -/
def envText (lines : List (String × List Char)) : List Char :=
  if lines = [] then [] else List.intercalate ['\n'] (lines.map fun l => l.1.toList ++ '=' :: l.2) ++ ['\n']

/-- `str` of a value; a secret is written out, and None is not written. -/
def EnvReader.text (reader : EnvReader) : Value → Option (List Char)
  | .none => none
  | .bool b => some (if b then "True".toList else "False".toList)
  | .int n => some (toString n).toList
  | .float x => some (reader.floatText x)
  | .str s | .secret s => some s

/-- What the packages document: the text of a float has only letters, digits,
signs and points, plain values of the fields' variables are read as they stand,
and a field reads back the text of its own values. -/
structure EnvReader.Documented (reader : EnvReader) : Prop where
  floatText : ∀ x, ∀ c ∈ reader.floatText x, c.isAlphanum = true ∨ c ∈ ['+', '-', '.']
  envVars : ∀ lines, (lines.map Prod.fst).Nodup →
    (∀ l ∈ lines, ∃ f ∈ modelFields [], l.1 = "RFOBS_" ++ f.name) → (∀ l ∈ lines, Plain l.2) →
    reader.envVars (envText lines) = lines
  validate_has : ∀ kind t v, reader.validate kind t = some v → kind.has v = true
  validate_text : ∀ kind v t, kind.has v = true → reader.text v = some t → reader.validate kind t = some v

end Settings

open Settings

abbrev AppSettings := String → Value

namespace AppSettings

variable (reader : EnvReader) (hostname : List Char)

def default (name : String) : Value := ((modelFields hostname).find? fun f => f.name = name).elim .none Field.default

/-- `_carry_legacy_history_days` -/
def carryLegacyHistoryDays (provided : List String) (settings : AppSettings) : AppSettings :=
  if "HISTORY_DAYS" ∈ provided ∧ "DB_RETENTION_DAYS" ∉ provided then
    Function.update settings "DB_RETENTION_DAYS" (settings "HISTORY_DAYS")
  else settings

/-- `AppSettings(...)` of the values provided. -/
def create (provided : List (String × Value)) : AppSettings :=
  carryLegacyHistoryDays (provided.map Prod.fst) fun name => (provided.lookup name).getD (default hostname name)

/-- The values that the variables provide, none if one does not validate. -/
def provide (envVars : List (String × List Char)) : List Field → Option (List (String × Value))
  | [] => some []
  | f :: rest =>
    match envVars.lookup ("RFOBS_" ++ f.name) with
    | none => provide envVars rest
    | some t => (reader.validate f.kind t).bind fun v => (provide envVars rest).map fun provided => (f.name, v) :: provided

/-- `AppSettings()` in a new process with this `.env`. -/
def load (env : List Char) : Option AppSettings :=
  (provide reader (reader.envVars env) (modelFields hostname)).map (create hostname)

/-- The lines of `_persist_settings`: values other than the defaults. -/
def lines (settings : AppSettings) : List (String × List Char) :=
  (modelFields hostname).filterMap fun f =>
    if settings f.name = create hostname [] f.name then none
    else (reader.text (settings f.name)).map fun t => ("RFOBS_" ++ f.name, t)

/-- The `.env` that `_persist_settings` writes. -/
def persist (settings : AppSettings) : List Char := envText (lines reader hostname settings)

end AppSettings

end RFObserver
