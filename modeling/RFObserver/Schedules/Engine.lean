import RFObserver.Lib.Runs
import RFObserver.Schedules.Cutter
import RFObserver.Schedules.Schedule

namespace RFObserver
open LossyStream

variable {α : Type*}

def maxConcurrentRuns : Nat := 2
def runsKept : Nat := 500

/-- What the book is told of a run when it is taken. -/
structure RunReport where
  scheduleId : String
  run : Nat
  status : RunStatus
  startMs : ℤ
  reason : Option String
  deriving DecidableEq

/-- A run in progress; `closing` once its cutter is done and only its PSD rows
are waited for, `refused` the samples the writer refused so far. -/
structure Active where
  cutter : RunCutter
  closing : Bool
  refused : Nat
  deriving DecidableEq

def RunSpec.key (spec : RunSpec) : String × Nat := (spec.scheduleId, spec.run)

def Active.key (act : Active) : String × Nat := act.cutter.spec.key

/-- What the writer is told when a run is closed. -/
structure Closed where
  key : String × Nat
  info : RunCutter.Info
  status : RunStatus
  reason : Option String
  refused : Nat
  deriving DecidableEq

/-- The book and the engine. `last` is the newest run of a schedule with an
outcome, restored or reported since, `known` every id ever used. The engine
has planned the book's version `planned`. What it told the book and the writer
is kept in order; `firstDue`, until when it looked for missed runs, is read by
nothing. -/
structure ScheduleEngine (α : Type*) where
  graceMs : ℤ
  version : Nat
  live : List Schedule
  known : List String
  last : String → Option Nat
  planned : Option Nat
  next : List (Schedule × Option Nat)
  active : List Active
  marked : Bool
  firstDue : ℤ
  reports : List RunReport
  opened : List RunSpec
  written : List (RunSpec × List (Op α))
  closed : List Closed

/-- One call of `on_chunk`, with what it reads from elsewhere: why storage
refuses a run now, how many samples the writer refuses, and whether a done
run's PSD rows are in or waited for long enough. -/
structure ChunkCall (α : Type*) where
  samples : List α
  chunkStart : Nat
  captureTime : ℚ
  gaps : Gaps
  centerFreqHz : ℚ
  rateHz : ℚ
  ring : Option (CircularBuffer α)
  refusal : Option String
  refuses : String × Nat → Nat
  rowsIn : String × Nat → Bool

namespace ChunkCall

/-- `int(capture_time * 1000)`. -/
def nowMs (k : ChunkCall α) : ℤ := if 0 ≤ k.captureTime then ⌊k.captureTime * 1000⌋ else ⌈k.captureTime * 1000⌉

/-- The chunk's end: losses inside it push it out. -/
def chunkEnd (k : ChunkCall α) : ℚ :=
  k.captureTime + (k.samples.length + lostWhere (0 < ·) k.gaps : Nat) / k.rateHz

/-- The time of the oldest sample the ring holds. -/
def oldestTime (k : ChunkCall α) : ℚ :=
  match k.ring with
  | some ring => k.captureTime - ((k.chunkStart : ℚ) - ring.bounds.1) / k.rateHz
  | none => k.captureTime

end ChunkCall

namespace ScheduleEngine

/-- An engine at its start, with the book as loaded. -/
def create (graceMs : ℤ) (live : List Schedule) (known : List String) (last : String → Option Nat) :
    ScheduleEngine α where
  graceMs := graceMs
  version := 1
  live := live
  known := known
  last := last
  planned := none
  next := []
  active := []
  marked := false
  firstDue := 0
  reports := []
  opened := []
  written := []
  closed := []

def addSchedule (s : Schedule) (e : ScheduleEngine α) : ScheduleEngine α :=
  if s.id ∈ e.known then e
  else { e with live := e.live ++ [s], known := s.id :: e.known, version := e.version + 1 }

def deleteSchedule (id : String) (e : ScheduleEngine α) : ScheduleEngine α :=
  if id ∈ e.live.map (·.id) then
    { e with live := e.live.filter fun s => s.id ≠ id, version := e.version + 1 }
  else e

def reportRun (r : RunReport) (e : ScheduleEngine α) : ScheduleEngine α :=
  { e with
    reports := e.reports ++ [r]
    last := Function.update e.last r.scheduleId (max (e.last r.scheduleId) (some r.run)) }

/-- The runs of `s` that were due while nothing was recording. -/
def missedRuns (s : Schedule) (until_ : ℤ) (e : ScheduleEngine α) : List Nat :=
  match e.last s.id with
  | some last =>
    if s.totalRuns ≤ last + 1 then []
    else s.runsBetween (max (s.runStartMs (last + 1)) (s.createdMs - e.graceMs)) until_ runsKept
  | none => s.runsBetween (max s.startMs (s.createdMs - e.graceMs)) until_ runsKept

def missed (s : Schedule) (reason : String) (k : Nat) : RunReport := ⟨s.id, k, .missed, s.runStartMs k, some reason⟩

def markSchedule (until_ : ℤ) (e : ScheduleEngine α) (s : Schedule) : ScheduleEngine α :=
  (e.missedRuns s until_).foldl (fun e k => e.reportRun (missed s "not_running" k)) e

def markMissed (nowMs : ℤ) (e : ScheduleEngine α) : ScheduleEngine α :=
  e.live.foldl (markSchedule (nowMs - e.graceMs)) e

/-- The run a schedule that is new to the plan starts with. -/
def firstRun (s : Schedule) (nowMs : ℤ) (e : ScheduleEngine α) : Option Nat :=
  match s.firstRunFrom (nowMs - e.graceMs), e.last s.id with
  | some k, some last =>
    if k ≤ last then (if last + 1 < s.totalRuns then some (last + 1) else none) else some k
  | k, _ => k

def refresh (nowMs : ℤ) (e : ScheduleEngine α) : ScheduleEngine α :=
  if e.planned = some e.version then e
  else { e with
    planned := some e.version
    next := e.live.map fun s =>
      (e.next.find? fun entry => entry.1.id = s.id).getD (s, e.firstRun s nowMs) }

def specOf (s : Schedule) (k : Nat) (call : ChunkCall α) : RunSpec where
  scheduleId := s.id
  run := k
  startMs := s.runStartMs k
  nSamples := max 1 (roundHalfEven ((s.durationMs : ℚ) * call.rateHz / 1000)).toNat
  rateHz := call.rateHz
  centerFreqHz := call.centerFreqHz
  label := s.label

/-- Take run `k`: open it, or report why it is missed. -/
def startRun (s : Schedule) (k : Nat) (call : ChunkCall α) (e : ScheduleEngine α) : ScheduleEngine α :=
  if ((s.runStartMs k + s.durationMs : ℤ) : ℚ) / 1000 ≤ call.oldestTime then e.reportRun (missed s "not_running" k)
  else if maxConcurrentRuns ≤ e.active.countP (fun act => !act.closing) then e.reportRun (missed s "busy" k)
  else match call.refusal with
    | some _ => e.reportRun (missed s "storage" k)
    | none => reportRun ⟨s.id, k, .recording, s.runStartMs k, none⟩ { e with
        opened := e.opened ++ [specOf s k call]
        active := e.active ++ [⟨RunCutter.create (specOf s k call), false, 0⟩] }

/-- The due runs of one schedule from run `k` on, and the first that is not
due yet. The source's loop has no bound; each turn goes on to a later run. -/
def dueLoop (s : Schedule) (call : ChunkCall α) : Nat → Option Nat → ScheduleEngine α →
    Option Nat × ScheduleEngine α
  | 0, k, e => (k, e)
  | _ + 1, none, e => (none, e)
  | fuel + 1, some k, e =>
    if (s.runStartMs k : ℚ) / 1000 < call.chunkEnd then
      dueLoop s call fuel (s.firstRunFrom (s.runStartMs k + 1)) (e.startRun s k call)
    else (some k, e)

/-- The plan's schedules one after another. -/
def dueEntries (call : ChunkCall α) : List (Schedule × Option Nat) → ScheduleEngine α →
    List (Schedule × Option Nat) × ScheduleEngine α
  | [], e => ([], e)
  | (s, k) :: entries, e =>
    let (k, e) := dueLoop s call (s.totalRuns + 1) k e
    let (entries, e) := dueEntries call entries e
    ((s, k) :: entries, e)

def startDue (call : ChunkCall α) (e : ScheduleEngine α) : ScheduleEngine α :=
  let (next, e) := dueEntries call e.next e
  { e with next := next }

/-- What the writer is told of a run. -/
def closing (act : Active) : Closed where
  key := act.key
  info := act.cutter.info
  status := if act.refused ≠ 0 ∧ act.cutter.status = .recorded then .partialRun else act.cutter.status
  reason := act.cutter.reason
  refused := act.refused

/-- Feed the chunk to one run: the run afterwards, and the operations for the
writer. -/
def feedOne (call : ChunkCall α) (act : Active) : Active × List (Op α) :=
  if act.closing then (act, [])
  else
    let f := act.cutter.feed call.samples call.chunkStart call.captureTime call.gaps call.centerFreqHz call.ring
    ({ cutter := f.1
       closing := f.1.done
       refused := if f.2.isEmpty then act.refused else act.refused + call.refuses act.key }, f.2)

/-- Hand the operations of a run to the writer. -/
def putOps (spec : RunSpec) (ops : List (Op α)) (e : ScheduleEngine α) : ScheduleEngine α :=
  if ops.isEmpty then e else { e with written := e.written ++ [(spec, ops)] }

/-- Feed the runs in order; one that is done and need not wait is closed. -/
def feedActive (call : ChunkCall α) : List Active → ScheduleEngine α → ScheduleEngine α
  | [], e => e
  | act :: rest, e =>
    let (act', ops) := feedOne call act
    let e := e.putOps act.cutter.spec ops
    if act'.closing ∧ call.rowsIn act.key then feedActive call rest { e with closed := e.closed ++ [closing act'] }
    else feedActive call rest { e with active := e.active ++ [act'] }

/-- The engine when the chunk's runs have been opened, before they are fed. -/
def planChunk (call : ChunkCall α) (e : ScheduleEngine α) : ScheduleEngine α :=
  let e := if e.marked then e
    else { e with marked := true, firstDue := call.nowMs - e.graceMs }.markMissed call.nowMs
  (e.refresh call.nowMs).startDue call

def onChunk (call : ChunkCall α) (e : ScheduleEngine α) : ScheduleEngine α :=
  let e := e.planChunk call
  feedActive call e.active { e with active := [] }

/-- End every run in progress. -/
def stop (reason : String) (e : ScheduleEngine α) : ScheduleEngine α :=
  { e with
    active := []
    closed := e.closed ++ e.active.map fun act =>
      closing (if act.closing then act else { act with cutter := act.cutter.endRun reason }) }

inductive Act (α : Type*)
  | add (s : Schedule)
  | delete (id : String)
  | chunk (call : ChunkCall α)
  | stop (reason : String)

def step (e : ScheduleEngine α) : Act α → Option (ScheduleEngine α)
  | .add s => some (e.addSchedule s)
  | .delete id => some (e.deleteSchedule id)
  | .chunk call => some (e.onChunk call)
  | .stop reason => some (e.stop reason)

/-- The engines a run reaches by steps that meet `allowed`. -/
abbrev Reach (first : ScheduleEngine α) (allowed : ScheduleEngine α → Act α → Prop) : ScheduleEngine α → Prop :=
  Runs.Reach step first allowed

end ScheduleEngine
end RFObserver
