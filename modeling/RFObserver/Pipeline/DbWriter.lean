import Mathlib.Logic.Function.Basic
import Mathlib.Tactic
import RFObserver.Lib.Runs

/-! The ordered writer of the streaming processor: `submit`, its worker tasks and `drain`, each await a switch point. -/

namespace RFObserver

/-- A write: its place among the calls of `submit`, and the start of its window. -/
structure DbWrite where
  id : ℕ
  windowStart : ℤ
  deriving DecidableEq, Repr

/-- How a job ends; `cancelled` is what `except Exception` does not catch. -/
inductive JobEnd
  | returned
  | raised
  | cancelled
  deriving DecidableEq, Repr

/-- Where a worker task is; a task that `failed` raised out of its `finally`. -/
inductive WriterPhase
  | created
  | getting
  | running (job : DbWrite)
  | cancelled
  | failed
  deriving DecidableEq, Repr

/-- A worker task; while `cancelling` a cancellation is on its way, or thrown into the job that runs. -/
structure WriterTask where
  phase : WriterPhase
  cancelling : Bool
  deriving DecidableEq, Repr

/-- A call of `drain`. Its number `discarded` stands for the writes in `given`. -/
inductive WriterDrain
  | waiting (joined : Bool)
  | stopping (task discarded : ℕ) (given : List DbWrite)
  | returned (discarded : ℕ) (given : List DbWrite)
  | raised
  deriving DecidableEq, Repr

def WriterTask.done (t : WriterTask) : Bool := t.phase = .cancelled ∨ t.phase = .failed

namespace WriterDrain

/-- Setting `_finished` wakes who joins. -/
def wake : WriterDrain → WriterDrain
  | .waiting _ => .waiting true
  | d => d

/-- The call has not ended. -/
def live : WriterDrain → Bool
  | .waiting _ => true
  | .stopping .. => true
  | _ => false

/-- Its wait is over, the call is not. -/
def pastWait : WriterDrain → Bool
  | .waiting joined => joined
  | .stopping .. => true
  | _ => false

def discarded : WriterDrain → ℕ
  | .stopping _ discarded _ => discarded
  | .returned discarded _ => discarded
  | _ => 0

def given : WriterDrain → List DbWrite
  | .stopping _ _ given => given
  | .returned _ given => given
  | _ => []

@[simp] theorem wake_discarded (d : WriterDrain) : d.wake.discarded = d.discarded := by cases d <;> rfl

@[simp] theorem wake_given (d : WriterDrain) : d.wake.given = d.given := by cases d <;> rfl

@[simp] theorem wake_live (d : WriterDrain) : d.wake.live = d.live := by cases d <;> rfl

theorem wake_eq_raised {d : WriterDrain} : d.wake = .raised ↔ d = .raised := by cases d <;> simp [wake]

theorem wake_eq_stopping {d : WriterDrain} {task discarded : ℕ} {given : List DbWrite} :
    d.wake = .stopping task discarded given ↔ d = .stopping task discarded given := by cases d <;> simp [wake]

end WriterDrain

/-- The job that a task runs. -/
def WriterPhase.jobs : WriterPhase → List DbWrite
  | .running job => [job]
  | _ => []

/-- `_OrderedDbWriter`, its tasks and the calls of `drain`, numbered. `submissions` counts the calls of `submit`;
`accepted`, `refused`, `started`, `inFlight` and `ended` only record what became of their jobs. -/
structure OrderedDbWriter where
  maxsize : ℕ
  q : List DbWrite
  unfinished : ℕ
  pendingStarts : List ℤ
  task : Option ℕ
  busy : Bool
  dropped : ℕ
  warnedAt : Option ℚ
  droppedAtWarn : ℕ
  spawned : ℕ
  tasks : ℕ → WriterTask
  calls : ℕ
  drains : ℕ → WriterDrain
  submissions : ℕ
  accepted : List DbWrite
  refused : List DbWrite
  started : List DbWrite
  inFlight : List DbWrite
  ended : List DbWrite

namespace OrderedDbWriter

def dropLogSec : ℚ := 60

/-- `__init__`. -/
def new (maxsize : ℕ) : OrderedDbWriter where
  maxsize := maxsize
  q := []
  unfinished := 0
  pendingStarts := []
  task := none
  busy := false
  dropped := 0
  warnedAt := none
  droppedAtWarn := 0
  spawned := 0
  tasks _ := { phase := .cancelled, cancelling := false }
  calls := 0
  drains _ := .returned 0 []
  submissions := 0
  accepted := []
  refused := []
  started := []
  inFlight := []
  ended := []

variable (s : OrderedDbWriter)

/-- No worker task is running. -/
def idle : Bool :=
  match s.task with
  | none => true
  | some i => (s.tasks i).done

/-- Window start of the oldest unfinished write. -/
def oldestPendingStart : Option ℤ := s.pendingStarts.head?

/-- `asyncio.Queue.full`: a queue of `maxsize` 0 has no bound. -/
def full : Bool := 0 < s.maxsize ∧ s.maxsize ≤ s.q.length

/-- The warning of a dropped write, at most one in `dropLogSec`. -/
def warn (now : ℚ) : OrderedDbWriter :=
  if s.warnedAt.all fun last => dropLogSec ≤ now - last then { s with warnedAt := some now, droppedAtWarn := s.dropped }
  else s

/-- `create_task(self._run())`. -/
def spawn : OrderedDbWriter :=
  { s with
    task := some s.spawned
    tasks := Function.update s.tasks s.spawned { phase := .created, cancelling := false }
    spawned := s.spawned + 1 }

def submit (windowStart : ℤ) (now : ℚ) : OrderedDbWriter :=
  let job : DbWrite := { id := s.submissions, windowStart := windowStart }
  let s := { s with submissions := s.submissions + 1 }
  if s.full then ({ s with dropped := s.dropped + 1, refused := s.refused ++ [job] } : OrderedDbWriter).warn now
  else
    let s := { s with
      q := s.q ++ [job]
      unfinished := s.unfinished + 1
      pendingStarts := s.pendingStarts ++ [windowStart]
      accepted := s.accepted ++ [job] }
    if s.idle then s.spawn else s

def setTask (i : ℕ) (t : WriterTask) : OrderedDbWriter := { s with tasks := Function.update s.tasks i t }

/-- From the head of the loop of `_run` to its next await. -/
def take (i : ℕ) : OrderedDbWriter :=
  match s.q with
  | [] => s.setTask i { phase := .getting, cancelling := false }
  | job :: rest =>
    { s.setTask i { phase := .running job, cancelling := false } with
      q := rest
      busy := true
      started := s.started ++ [job]
      inFlight := s.inFlight ++ [job] }

/-- A task goes on from its start or from `get`. -/
def wake (i : ℕ) : Option OrderedDbWriter :=
  let t := s.tasks i
  if t.phase = .created ∨ t.phase = .getting then
    if t.cancelling then some (s.setTask i { phase := .cancelled, cancelling := false })
    else if t.phase = .getting ∧ s.q = [] then none
    else some (s.take i)
  else none

/-- `task_done`, of a count that is not zero. -/
def taskDone : OrderedDbWriter :=
  { s with
    unfinished := s.unfinished - 1
    drains := if s.unfinished = 1 then fun d => (s.drains d).wake else s.drains }

/-- The job of a task ends: the `except` and the `finally` of `_run`, then its loop. -/
def endJob (i : ℕ) (how : JobEnd) : Option OrderedDbWriter :=
  match (s.tasks i).phase with
  | .running job =>
    let s := { s with
      busy := false
      inFlight := s.inFlight.erase job
      ended := if how = JobEnd.cancelled then s.ended else s.ended ++ [job] }
    match s.pendingStarts with
    | [] => some (s.setTask i { phase := .failed, cancelling := false })
    | _ :: starts =>
      let s := { s with pendingStarts := starts }
      if s.unfinished = 0 then some (s.setTask i { phase := .failed, cancelling := false })
      else if how = JobEnd.cancelled then some (s.taskDone.setTask i { phase := .cancelled, cancelling := false })
      else some (s.taskDone.take i)
  | _ => none

/-- `get_nowait` and `task_done` until the queue is empty, or `task_done` raises. -/
def emptyQueue : OrderedDbWriter :=
  { s with
    q := if s.q.length ≤ s.unfinished then [] else s.q.drop (s.unfinished + 1)
    unfinished := s.unfinished - s.q.length
    drains := if 0 < s.unfinished ∧ 0 < s.q.length ∧ s.unfinished ≤ s.q.length then fun d => (s.drains d).wake else s.drains }

/-- The end of `drain`, from the emptying of the queue on. -/
def finish (d discarded : ℕ) (given : List DbWrite) : OrderedDbWriter :=
  let emptied := s.emptyQueue
  if s.q.length ≤ s.unfinished then
    { emptied with pendingStarts := [], drains := Function.update emptied.drains d (.returned discarded given) }
  else { emptied with drains := Function.update emptied.drains d .raised }

/-- The `finally` of `drain`, to its await of the task or to its end. -/
def stop (d discarded : ℕ) (given : List DbWrite) : OrderedDbWriter :=
  let s' := { s with task := none }
  if s.idle then s'.finish d discarded given
  else
    match s.task with
    | none => s'.finish d discarded given
    | some i =>
      { s'.setTask i { s.tasks i with cancelling := true } with
        drains := Function.update s.drains d (.stopping i discarded given) }

/-- `drain`, to its first await. -/
def drain : OrderedDbWriter :=
  let d := s.calls
  let s := { s with calls := s.calls + 1 }
  if s.idle then s.stop d 0 [] else { s with drains := Function.update s.drains d (.waiting (s.unfinished == 0)) }

/-- The join is done. -/
def joined (d : ℕ) : Option OrderedDbWriter := if s.drains d = .waiting true then some (s.stop d 0 []) else none

/-- The timeout has passed: the queued writes and the one in flight are discarded. -/
def timedOut (d : ℕ) : Option OrderedDbWriter :=
  match s.drains d with
  | .waiting _ => some (s.stop d (s.q.length + if s.busy then 1 else 0) (s.inFlight ++ s.q))
  | _ => none

/-- The task that `drain` awaits is over; only its cancellation is suppressed. -/
def stopped (d : ℕ) : Option OrderedDbWriter :=
  match s.drains d with
  | .stopping i discarded given =>
    if (s.tasks i).phase = .cancelled then some (s.finish d discarded given)
    else if (s.tasks i).phase = .failed then some { s with drains := Function.update s.drains d .raised }
    else none
  | _ => none

/-- What happens next, between two awaits. -/
inductive Act
  | submit (windowStart : ℤ) (now : ℚ)
  | wake (i : ℕ)
  | endJob (i : ℕ) (how : JobEnd)
  | drain
  | joined (d : ℕ)
  | timedOut (d : ℕ)
  | stopped (d : ℕ)
  deriving DecidableEq, Repr

def step : Act → Option OrderedDbWriter
  | .submit windowStart now => some (s.submit windowStart now)
  | .wake i => s.wake i
  | .endJob i how => s.endJob i how
  | .drain => some s.drain
  | .joined d => s.joined d
  | .timedOut d => s.timedOut d
  | .stopped d => s.stopped d

end OrderedDbWriter

end RFObserver
