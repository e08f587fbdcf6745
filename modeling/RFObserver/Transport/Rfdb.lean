import RFObserver.Lib.Keyset
import RFObserver.Lib.RoundHalfEven
import RFObserver.Lib.Runs

namespace RFObserver

/-- An averaged window as the rf-db writer reads it. A value is none when it is
missing or not finite. -/
structure WindowStatsRow where
  id : Nat
  startTime : ℚ
  sdrCenterFreqHz : Option ℚ
  sampleRateHz : Option ℚ
  gainDb : Option ℚ
  pwrAvg : Option ℚ
  pwrMax : Option ℚ
  pwrMedian : Option ℚ
  pwrStd : Option ℚ
  kurtosis : Option ℚ
  deriving DecidableEq

/-- A capture configuration: one rf-db `metadata` row and its unique key. -/
structure MetadataKey where
  frequency : ℤ
  sampleRate : ℤ
  bandwidth : ℤ
  gain : ℤ
  length : ℚ
  interval : ℚ
  bitDepth : String
  deriving DecidableEq

/-- One rf-db `outputs` row, before its ids are resolved. -/
structure OutputRow where
  metadata : MetadataKey
  createdAt : ℚ
  averageDb : ℚ
  maxDb : ℚ
  medianDb : ℚ
  stdDev : ℚ
  kurtosis : ℚ
  deriving DecidableEq

/-- The rf-db row of a window; `windowSec` is the configured duration. -/
def toOutputRow (window : WindowStatsRow) (windowSec : ℚ) : Option OutputRow := do
  let freq ← window.sdrCenterFreqHz
  let rate ← window.sampleRateHz
  let gain ← window.gainDb
  let avg ← window.pwrAvg
  let peak ← window.pwrMax
  let median ← window.pwrMedian
  let std ← window.pwrStd
  let kurt ← window.kurtosis
  return {
    metadata := {
      frequency := roundHalfEven freq
      sampleRate := roundHalfEven rate
      bandwidth := roundHalfEven rate
      gain := roundHalfEven gain
      length := windowSec
      interval := windowSec
      bitDepth := "16" }
    createdAt := window.startTime
    averageDb := avg
    maxDb := peak
    medianDb := median
    stdDev := std
    kurtosis := kurt }

/-- An `outputs` row as it is stored. -/
structure OutputRecord where
  hardwareId : Nat
  metadataId : Nat
  createdAt : ℚ
  averageDb : ℚ
  maxDb : ℚ
  medianDb : ℚ
  stdDev : ℚ
  kurtosis : ℚ
  deriving DecidableEq

/-- The unique key of `outputs`. -/
def OutputRecord.key (r : OutputRecord) : Nat × Nat × ℚ := (r.hardwareId, r.metadataId, r.createdAt)

def OutputRow.record (row : OutputRow) (hardwareId metadataId : Nat) : OutputRecord :=
  ⟨hardwareId, metadataId, row.createdAt, row.averageDb, row.maxDb, row.medianDb, row.stdDev, row.kurtosis⟩

/-- The tables of rf-db: the sensor's hardware id in `rpi` once it is
registered, the `metadata` rows, whose ids are their places, and the sensor's
`outputs`. -/
structure Rfdb where
  rpi : Option Nat
  metadata : List MetadataKey
  outputs : List OutputRecord
  deriving DecidableEq

namespace Rfdb

variable (db : Rfdb)

/-- `_INSERT_METADATA`: the id, unless the row is there. -/
def insertMetadata (key : MetadataKey) : Rfdb × Option Nat :=
  if key ∈ db.metadata then (db, none) else ({ db with metadata := db.metadata ++ [key] }, some db.metadata.length)

/-- `_SELECT_METADATA`. -/
def selectMetadata (key : MetadataKey) : Option Nat := db.metadata.idxOf? key

/-- `_INSERT_OUTPUT`. -/
def insertOutput (r : OutputRecord) : Rfdb :=
  if ∃ there ∈ db.outputs, there.key = r.key then db else { db with outputs := db.outputs ++ [r] }

def insertOutputs (values : List OutputRecord) : Rfdb := values.foldl insertOutput db

/-- A stored row with its metadata in place of the id. -/
def rowOf (r : OutputRecord) : Option OutputRow :=
  db.metadata[r.metadataId]?.map fun key =>
    ⟨key, r.createdAt, r.averageDb, r.maxDb, r.medianDb, r.stdDev, r.kurtosis⟩

/-- The stored row is the window's, under some duration. -/
def IsOf (r : OutputRecord) (window : WindowStatsRow) : Prop :=
  ∃ row ∈ db.rowOf r, toOutputRow window row.metadata.length = some row

instance IsOf.decidable (r : OutputRecord) (window : WindowStatsRow) : Decidable (db.IsOf r window) :=
  inferInstanceAs (Decidable (∃ row ∈ db.rowOf r, toOutputRow window row.metadata.length = some row))

def recordsOf (window : WindowStatsRow) : List OutputRecord := db.outputs.filter fun r => db.IsOf r window

end Rfdb

/-- A row to send, and the id of its window. -/
structure SendRow where
  window : Nat
  row : OutputRow
  deriving DecidableEq

/-- A call of `insert_outputs`. `values` are those of the first rows, with
their ids; `rest` are the rows still to send one by one after a batch that
rf-db rejected, none while the call is that batch. -/
structure InsertCall where
  rows : List SendRow
  values : List OutputRecord
  rest : Option (List SendRow)
  deriving DecidableEq

/-- The step at which `flush_once` is. -/
inductive RfdbPhase
  | idle
  | loading
  | anchoring
  | savingAnchor (newest : Nat)
  | looking
  | reading
  | inserting (call : InsertCall) (last : Nat)
  | saving
  deriving DecidableEq

/-- The writer with the window table, its saved bookmark and rf-db. `skips`
are the windows counted as skipped in any process, with the row rf-db rejected,
and `anchor` is the first bookmark a process has held; nothing reads these two. -/
structure RfdbWriter where
  windows : List WindowStatsRow
  stored : Option Nat
  db : Rfdb
  bookmark : Option Nat
  hardwareIds : Option Nat
  metadataIds : List (MetadataKey × Nat)
  sent : Nat
  skipped : Nat
  phase : RfdbPhase
  skips : List (Nat × Option OutputRow)
  anchor : Option Nat
  deriving DecidableEq

namespace RfdbWriter

def batchSize : Nat := 1000

def create : RfdbWriter where
  windows := []
  stored := none
  db := ⟨none, [], []⟩
  bookmark := none
  hardwareIds := none
  metadataIds := []
  sent := 0
  skipped := 0
  phase := .idle
  skips := []
  anchor := none

variable (storable : OutputRow → Bool) (s : RfdbWriter)

def newest : Nat := (s.windows.map (·.id)).foldr max 0

/-- The next windows after the bookmark. -/
def batch : List WindowStatsRow := Keyset.page (·.id) batchSize s.bookmark s.windows

/-- The process takes `n` as its bookmark. -/
def hold (n : Nat) : RfdbWriter := { s with bookmark := some n, anchor := s.anchor <|> some n }

def skip (entries : List (Nat × Option OutputRow)) : RfdbWriter :=
  { s with skipped := s.skipped + entries.length, skips := entries ++ s.skips }

/-- Where `_insert` goes on: with the next row of a rejected batch, or to the
bookmark of a finished one. -/
def goOn (last : Nat) : List SendRow → RfdbWriter
  | [] => { s with bookmark := some last, phase := .saving }
  | row :: rest => { s with phase := .inserting ⟨[row], [], some rest⟩ last }

/-- `_metadata_id` after a miss of its cache: rf-db with the row, and its id. -/
def findMetadata (key : MetadataKey) : Rfdb × Option Nat :=
  let (db, found) := s.db.insertMetadata key
  (db, found <|> db.selectMetadata key)

/-- The bookmark is loaded, or there is none and the writer begins at the newest
window. -/
def loadBookmark : RfdbWriter :=
  match s.stored with
  | some n => { s.hold n with phase := .looking }
  | none => { s with phase := .anchoring }

def lookHardware : RfdbWriter :=
  match s.hardwareIds <|> s.db.rpi with
  | some id => { s with hardwareIds := some id, phase := .reading }
  | none => { s with phase := .idle }

/-- The rows of the windows that have one. -/
def buildRows (windows : List WindowStatsRow) (windowSec : ℚ) : List SendRow :=
  windows.filterMap fun w => (toOutputRow w windowSec).map (SendRow.mk w.id)

/-- The windows that have no row. -/
def unstorable (windows : List WindowStatsRow) (windowSec : ℚ) : List (Nat × Option OutputRow) :=
  (windows.filter fun w => toOutputRow w windowSec = none).map fun w => (w.id, none)

def readWindows (windowSec : ℚ) : RfdbWriter :=
  match s.batch.getLast? with
  | none => { s with phase := .idle }
  | some last =>
    match buildRows s.batch windowSec with
    | [] => (s.skip (unstorable s.batch windowSec)).goOn last.id []
    | rows => { s.skip (unstorable s.batch windowSec) with phase := .inserting ⟨rows, [], none⟩ last.id }

/-- One more row of the call gets its metadata id. -/
def resolve (call : InsertCall) (last hardwareId : Nat) (row : OutputRow) : Option RfdbWriter :=
  match s.metadataIds.find? fun e => e.1 = row.metadata with
  | some e =>
    some { s with phase := .inserting { call with values := call.values ++ [row.record hardwareId e.2] } last }
  | none =>
    (s.findMetadata row.metadata).2.map fun id =>
      { s with db := (s.findMetadata row.metadata).1, metadataIds := (row.metadata, id) :: s.metadataIds,
               phase := .inserting { call with values := call.values ++ [row.record hardwareId id] } last }

def Whole (call : InsertCall) : Prop :=
  call.values.length = call.rows.length ∧ ∀ e ∈ call.rows, storable e.row = true

instance Whole.decidable (call : InsertCall) : Decidable (Whole storable call) :=
  inferInstanceAs (Decidable (_ ∧ _))

/-- The transaction of the call commits. -/
def commit (call : InsertCall) : RfdbWriter := { s with db := s.db.insertOutputs call.values }

/-- rf-db and the saved bookmark after a step that fails, `applied` when the
statement in flight took effect all the same. -/
def interrupt (applied : Bool) : RfdbWriter :=
  match applied, s.phase with
  | true, .savingAnchor n => { s with stored := some n }
  | true, .saving => { s with stored := s.bookmark }
  | true, .inserting call _ =>
    match call.rows[call.values.length]? with
    | some e => { s with db := (s.findMetadata e.row.metadata).1 }
    | none => if Whole storable call then s.commit call else s
  | _, _ => s

/-- `stores`, `registers` and `others` are the window writer, the registration
of the sensor and other sensors' metadata. -/
inductive Act
  | stores (window : WindowStatsRow)
  | registers (hardwareId : Nat)
  | others (key : MetadataKey)
  | begins
  | loads
  | anchors
  | saves
  | timesOut (applied : Bool)
  | looks
  | reads (windowSec : ℚ)
  | resolves
  | executes
  | rejects
  | fails (applied : Bool)
  | restarts (applied : Bool)
  deriving DecidableEq

/-- The end of `_save_bookmark`; its timeout only leaves the bookmark in memory. -/
def saved : Option RfdbWriter :=
  match s.phase with
  | .savingAnchor n => some { s.hold n with phase := .looking }
  | .saving => some { s with phase := .idle }
  | _ => none

def step : Act → Option RfdbWriter
  | .stores window => if s.newest < window.id then some { s with windows := s.windows ++ [window] } else none
  | .registers hardwareId =>
    if s.db.rpi = none then some { s with db := { s.db with rpi := some hardwareId } } else none
  | .others key => some { s with db := (s.db.insertMetadata key).1 }
  | .begins =>
    if s.phase = .idle then some { s with phase := if s.bookmark = none then .loading else .looking } else none
  | .loads => if s.phase = .loading then some s.loadBookmark else none
  | .anchors => if s.phase = .anchoring then some { s with phase := .savingAnchor s.newest } else none
  | .saves => (s.interrupt storable true).saved
  | .timesOut applied => (s.interrupt storable applied).saved
  | .looks => if s.phase = .looking then some s.lookHardware else none
  | .reads windowSec => if s.phase = .reading then some (s.readWindows windowSec) else none
  | .resolves =>
    match s.phase, s.hardwareIds with
    | .inserting call last, some hardwareId =>
      call.rows[call.values.length]?.bind fun e => s.resolve call last hardwareId e.row
    | _, _ => none
  | .executes =>
    match s.phase with
    | .inserting call last =>
      if Whole storable call then
        some ({ s.commit call with sent := s.sent + call.rows.length }.goOn last (call.rest.getD []))
      else none
    | _ => none
  | .rejects =>
    match s.phase with
    | .inserting call last =>
      if ∃ e ∈ call.rows, storable e.row = false then
        match call.rest with
        | none => some (s.goOn last call.rows)
        | some rest => some ((s.skip (call.rows.map fun e => (e.window, some e.row))).goOn last rest)
      else none
    | _ => none
  | .fails applied => if s.phase = .idle then none else some { s.interrupt storable applied with phase := .idle }
  | .restarts applied =>
    some { s.interrupt storable applied with
      bookmark := none, hardwareIds := none, metadataIds := [], sent := 0, skipped := 0, phase := .idle }

end RfdbWriter

end RFObserver
