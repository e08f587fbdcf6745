import RFObserver.Lib.Keyset
import RFObserver.Lib.Runs
import RFObserver.Storage.Rollup

namespace RFObserver

/-- An `avg_windows` row with its id. -/
structure StoredWindow where
  id : Nat
  row : WindowRow
  deriving DecidableEq

/-- The key of a scan in (start_time, id) order. -/
def StoredWindow.key (w : StoredWindow) : ℚ ×ₗ ℕ := toLex (w.row.startTime, w.id)

/-- A write on the ordered writer; `row` is the averaged window it still has to
store, none for a tone check and for a window that has landed. -/
structure PendingWrite where
  windowStart : ℚ
  row : Option WindowRow
  deriving DecidableEq

inductive RollupDirection
  | forward (closed : ℤ)
  | backfill (floor : ℤ)
  deriving DecidableEq, Repr

/-- The database step at which the rollup loop is. Marks are minutes. -/
inductive RollupPhase
  | idle
  | forwardKey (closed : ℤ)
  | forwardAnchor (closed : ℤ)
  | backfillOldest
  | backfillKey (floor : ℤ)
  | backfillNewest (floor : ℤ)
  | backfillAnchor (floor key : ℤ)
  | reading (direction : RollupDirection) (since before : ℤ) (read : List StoredWindow)
  | folding (direction : RollupDirection) (since before : ℤ) (rows : List WindowRow)
  | marking (direction : RollupDirection) (since before : ℤ)
  deriving DecidableEq

/-- The rollup loop, the window writer and the database they share. `horizons`
are the times now − lag of the passes begun, `newestMarks` and `oldestMarks`
the marks written, latest first; nothing reads these three. -/
structure RollupLoop where
  windows : List StoredWindow
  queue : List PendingWrite
  minutes : List MinuteSummary
  newest : Option ℤ
  oldest : Option ℤ
  phase : RollupPhase
  horizons : List ℚ
  newestMarks : List ℤ
  oldestMarks : List ℤ

namespace RollupLoop

def rollupSpan : ℤ := 15
def rollupChunk : Nat := 1000

def create : RollupLoop where
  windows := []
  queue := []
  minutes := []
  newest := none
  oldest := none
  phase := .idle
  horizons := []
  newestMarks := []
  oldestMarks := []

variable (s : RollupLoop)

/-- The windows of a span of minutes. -/
def spanWindows (since before : ℤ) : List StoredWindow :=
  s.windows.filter fun w => (since : ℚ) * 60 ≤ w.row.startTime ∧ w.row.startTime < (before : ℚ) * 60

/-- One statement of `iter_rollup_windows`, after the last row read. -/
def page (since before : ℤ) (read : List StoredWindow) : List StoredWindow :=
  Keyset.page StoredWindow.key rollupChunk (read.getLast?.map StoredWindow.key) (s.spanWindows since before)

/-- The minutes below this are closed: by the lag, and by the first unfinished
write of the writer. -/
def closed (now lag : ℚ) : ℤ :=
  match s.queue.head? with
  | none => minuteKey (now - lag)
  | some first => min (minuteKey (now - lag)) (minuteKey first.windowStart)

def setNewest (mark : ℤ) : RollupLoop := { s with newest := some mark, newestMarks := mark :: s.newestMarks }

def setOldest (mark : ℤ) : RollupLoop := { s with oldest := some mark, oldestMarks := mark :: s.oldestMarks }

/-- What the statement at which the loop is writes. -/
def write : RollupLoop :=
  match s.phase with
  | .forwardAnchor closed => s.setNewest closed
  | .backfillAnchor _ key => s.setOldest key
  | .folding _ _ _ rows => { s with minutes := upsertAvgMinutes s.minutes (foldWindows rows) }
  | .marking (.forward _) _ before => s.setNewest before
  | .marking (.backfill _) since _ => s.setOldest since
  | _ => s

/-- The head of the loop of `_rollup_forward`; `inTime` is the budget's answer. -/
def enterForward (closed since : ℤ) (inTime : Bool) : RollupPhase :=
  if since < closed ∧ inTime = true then .reading (.forward closed) since (min (since + rollupSpan) closed) []
  else .backfillOldest

/-- The head of the loop of `_rollup_backfill`. -/
def enterBackfill (floor before : ℤ) (inTime : Bool) : RollupPhase :=
  if before > floor ∧ inTime = true then .reading (.backfill floor) (max (before - rollupSpan) floor) before []
  else .idle

/-- Where the loop goes on after a statement. -/
def next (inTime : Bool) : RollupPhase :=
  match s.phase with
  | .idle => .idle
  | .forwardKey closed => s.newest.elim (.forwardAnchor closed) fun since => enterForward closed since inTime
  | .forwardAnchor _ => .backfillOldest
  | .reading direction since before read =>
    let rows := read ++ s.page since before read
    if (s.page since before read).length < rollupChunk then
      if rows = [] then .marking direction since before else .folding direction since before (rows.map StoredWindow.row)
    else .reading direction since before rows
  | .folding direction since before _ => .marking direction since before
  | .marking (.forward closed) _ before => enterForward closed before inTime
  | .marking (.backfill floor) since _ => enterBackfill floor since inTime
  | .backfillOldest =>
    (s.windows.map fun w => w.row.startTime).min?.elim .idle fun oldest => .backfillKey (minuteKey oldest)
  | .backfillKey floor => s.oldest.elim (.backfillNewest floor) fun before => enterBackfill floor before inTime
  | .backfillNewest floor => s.newest.elim .idle (.backfillAnchor floor)
  | .backfillAnchor floor key => enterBackfill floor key inTime

inductive Act
  | submit (row : WindowRow)
  | submitOther (windowStart : ℚ)
  | lands (id : Nat)
  | pops
  | drained
  | begin (now lag : ℚ)
  | advance (inTime : Bool)
  | fails (applied : Bool)
  | restart
  deriving DecidableEq

/-- One step of the writer or of the loop. A statement that fails may have been
applied; a restart loses what is not in the database. -/
def step : Act → Option RollupLoop
  | .submit row => some { s with queue := s.queue ++ [⟨row.startTime, some row⟩] }
  | .submitOther windowStart => some { s with queue := s.queue ++ [⟨windowStart, none⟩] }
  | .lands id =>
    match s.queue with
    | ⟨windowStart, some row⟩ :: rest =>
      if ∀ w ∈ s.windows, w.id < id then
        some { s with windows := s.windows ++ [⟨id, row⟩], queue := ⟨windowStart, none⟩ :: rest }
      else none
    | _ => none
  | .pops => if s.queue = [] then none else some { s with queue := s.queue.tail }
  | .drained => some { s with queue := [] }
  | .begin now lag =>
    if s.phase = .idle then
      some { s with phase := .forwardKey (s.closed now lag), horizons := (now - lag) :: s.horizons }
    else none
  | .advance inTime => if s.phase = .idle then none else some { s.write with phase := s.next inTime }
  | .fails applied =>
    if s.phase = .idle then none else some { (if applied then s.write else s) with phase := .idle }
  | .restart => some { s with queue := [], phase := .idle }

end RollupLoop

end RFObserver
