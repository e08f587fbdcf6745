import RFObserver.Schedules.Cutter
import RFObserver.Storage.GuardedWrite

namespace RFObserver

/-- One `report_run` call for a run. -/
structure RunEntry where
  status : RunStatus
  reason : Option String
  startMs : ℤ
  filename : Option String
  info : Option String
  deriving DecidableEq

def DbJob.isCommit : DbJob → Bool
  | .commit _ => true
  | _ => false

/-- A connection whose jobs know the report their writer waits for, none for
another user of the database. A statement's place is its report's number. -/
structure RunConnection where
  queue : List (Option Nat × DbJob)
  transaction : List Statement
  deriving DecidableEq

namespace RunConnection

def jobs (connection : RunConnection) : List DbJob := connection.queue.map Prod.snd

/-- The statements it has executed and not committed, and those it still has to execute. -/
def statements (connection : RunConnection) : List Statement :=
  connection.transaction ++ connection.jobs.filterMap DbJob.statement?

/-- What it commits if its jobs succeed. -/
def bound (connection : RunConnection) : List Statement := DbJob.bound connection.jobs connection.transaction

end RunConnection

/-- The reports of one run and their guarded writes, numbered as they are
called, among other users of the same `SensorDatabase`. `latest` is what the
book keeps in memory; `calls` is where each write's coroutine is, `expects` the
connection its wrapper saw first, and `opening` who holds the reconnect lock. -/
structure RunWrites where
  reports : List RunEntry
  latest : Option RunEntry
  connections : Nat → RunConnection
  opened : Nat
  db : Option Nat
  opening : Option (Option Nat)
  calls : Nat → GuardCall
  expects : Nat → Option Nat
  table : List Statement

namespace RunWrites

def create : RunWrites where
  reports := []
  latest := none
  connections := fun _ => ⟨[], []⟩
  opened := 1
  db := some 0
  opening := none
  calls := fun _ => .idle
  expects := fun _ => none
  table := []

variable (s : RunWrites)

/-- `upsert_run` awaits its statement, then its commit. -/
def job (i : Nat) (a : Attempt) : Nat → DbJob
  | 0 => .statement ⟨some a, i⟩
  | _ => .commit (some a)

def setCall (i : Nat) (call : GuardCall) : RunWrites := { s with calls := Function.update s.calls i call }

def queue (c : Nat) (owner : Option Nat) (job : DbJob) : RunWrites :=
  { s with connections :=
      Function.update s.connections c ⟨(s.connections c).queue ++ [(owner, job)], (s.connections c).transaction⟩ }

/-- The coroutine's next await: job `n` on what `self._db` is now. -/
def issue (i : Nat) (a : Attempt) (n : Nat) : RunWrites :=
  match s.db with
  | none => s.setCall i .raised
  | some c => (s.queue c (some i) (job i a n)).setCall i (.waiting a n c)

/-- `_reconnect` up to its first await. -/
def abandon (owner : Option Nat) : RunWrites :=
  match s.db with
  | none => { s with opening := some owner }
  | some c => ({ s with db := none, opening := some owner } : RunWrites).queue c none .close

def connected : RunWrites := { s with db := some s.opened, opened := s.opened + 1, opening := none }

/-- Another connection is in a write transaction, so a statement here is busy. -/
def Locked (c : Nat) : Prop := ∃ d < s.opened, d ≠ c ∧ (s.connections d).transaction ≠ []

instance Locked.decidable (c : Nat) : Decidable (s.Locked c) :=
  inferInstanceAs (Decidable (∃ d < s.opened, d ≠ c ∧ (s.connections d).transaction ≠ []))

/-- The calls after connection `c` has finished a job of `owner`. -/
def answer (c : Nat) (ok : Bool) (owner : Option Nat) (done : DbJob) : Nat → GuardCall :=
  match owner with
  | none => s.calls
  | some i =>
    match s.calls i with
    | .waiting a n d => if d = c ∧ job i a n = done then Function.update s.calls i (.answered a n c ok) else s.calls
    | _ => s.calls

/-- The thread of connection `c` finishes the job at the head of its queue. -/
def finish (c : Nat) (ok : Bool) (owner : Option Nat) (done : DbJob) (rest : List (Option Nat × DbJob)) : RunWrites :=
  let effect := done.effect ok (s.connections c).transaction
  { s with
    connections := Function.update s.connections c ⟨rest, effect.2⟩
    table := s.table ++ effect.1
    calls := s.answer c ok owner done }

/-- `report` is `report_run` and `call` the task it starts entering the wrapper;
the steps of a guarded write and of the other users are as in `GuardedWrite`. -/
inductive Act
  | report (entry : RunEntry)
  | call (i : Nat)
  | begins (i : Nat)
  | work (c : Nat) (ok : Bool)
  | resume (i : Nat)
  | expire (i : Nat)
  | reconnect (i : Nat)
  | connect (i : Nat)
  | reconnectFails (i : Nat)
  | otherStatement (place : Nat)
  | otherCommit
  | otherReconnect
  | otherConnect
  | otherReconnectFails
  deriving DecidableEq

/-- Only the first report of a run is that it is recording. -/
def step : Act → Option RunWrites
  | .report entry =>
    if entry.status ≠ .recording ∨ s.reports = [] then
      some { s with reports := s.reports ++ [entry], latest := some entry }
    else none
  | .call i =>
    if i < s.reports.length ∧ s.calls i = .idle then
      some { s.setCall i (.starting .first) with expects := Function.update s.expects i s.db }
    else none
  | .begins i =>
    match s.calls i with
    | .starting a => some (s.issue i a 0)
    | _ => none
  | .work c ok =>
    match (s.connections c).queue with
    | [] => none
    | (owner, .statement e) :: rest =>
      if ok = true ∧ s.Locked c then none else some (s.finish c ok owner (.statement e) rest)
    | (owner, done) :: rest => some (s.finish c ok owner done rest)
  | .resume i =>
    match s.calls i with
    | .answered _ _ _ false => some (s.setCall i .raised)
    | .answered a 0 _ true => some (s.issue i a 1)
    | .answered a _ _ true => some (s.setCall i (.returned a))
    | _ => none
  | .expire i =>
    match (s.calls i).current with
    | some .first => some (s.setCall i .timedOut)
    | some .second => some (s.setCall i .raised)
    | none => none
  | .reconnect i =>
    if s.calls i = .timedOut ∧ s.opening = none then
      if s.db = s.expects i then some ((s.abandon (some i)).setCall i .connecting)
      else some (s.setCall i (.starting .second))
    else none
  | .connect i =>
    if s.calls i = .connecting ∧ s.opening = some (some i) then some (s.connected.setCall i (.starting .second))
    else none
  | .reconnectFails i =>
    match s.calls i with
    | .timedOut => some (s.setCall i .raised)
    | .connecting => some (({ s with opening := none } : RunWrites).setCall i .raised)
    | _ => none
  | .otherStatement place => s.db.map fun c => s.queue c none (.statement ⟨none, place⟩)
  | .otherCommit => s.db.map fun c => s.queue c none (.commit none)
  | .otherReconnect => if s.opening = none then some (s.abandon none) else none
  | .otherConnect => if s.opening = some none then some s.connected else none
  | .otherReconnectFails => if s.opening = some none then some { s with opening := none } else none

def places (l : List Statement) : List Nat := (l.filter fun e => e.writer.isSome).map Statement.place

/-- The reports whose upsert was committed, in that order. -/
def rows : List Nat := places s.table

/-- The run's row in `schedule_runs`. -/
def row : Option RunEntry := s.rows.getLast?.bind fun i => s.reports[i]?

/-- The reports that were not given up on. -/
def kept : List Nat := (List.range s.reports.length).filter fun i => s.calls i ≠ .raised

/-- No write of a report is pending, nor anything of one left on a connection. -/
def Quiet : Prop :=
  (∀ i < s.reports.length, s.calls i = .raised ∨ ∃ a, s.calls i = .returned a) ∧
    ∀ c < s.opened, ∀ e ∈ (s.connections c).statements, e.writer = none

/-- The statuses the row had. -/
def history : List RunStatus := s.rows.filterMap fun i => s.reports[i]?.map RunEntry.status

/-- The row is the last report not given up on once no write is pending, and it
never went from a final outcome back to recording. -/
def FollowsReports : Prop :=
  (s.Quiet → s.row = s.kept.getLast?.bind fun i => s.reports[i]?) ∧
    s.history.Pairwise fun before after => before ≠ .recording → after ≠ .recording

/-- No upsert of the report is committed, or stands before a commit in a queue. -/
def Revocable (i : Nat) : Prop := i ∉ s.rows ∧ ∀ c < s.opened, i ∉ places (s.connections c).bound

/-- The connection has no upsert of a report that was given up on. -/
def Unburdened (c : Nat) : Prop := ∀ i ∈ places (s.connections c).statements, s.calls i ≠ .raised

/-- The report whose write the step ends with an exception. -/
def raises : Act → Option Nat
  | .begins i => if s.db = none then some i else none
  | .resume i =>
    match s.calls i with
    | .answered _ _ _ false => some i
    | .answered _ 0 _ true => if s.db = none then some i else none
    | _ => none
  | .expire i => if (s.calls i).current = some .second then some i else none
  | .reconnectFails i => some i
  | _ => none

/-- The connection on which the report's upsert was executed, for a write whose
coroutine goes on with the commit. -/
def executedOn (i : Nat) : Option Nat :=
  match s.calls i with
  | .answered _ 0 c true => some c
  | _ => none

/-- The connection on which the step queues a commit. -/
def commits : Act → Option Nat
  | .resume i => (s.executedOn i).bind fun _ => s.db
  | .otherCommit => s.db
  | _ => none

/-- A write's commit goes to the connection of its statement, or its upsert is
committed already. -/
def Steady : Act → Prop
  | .resume i => ∀ c ∈ s.executedOn i, ∀ d ∈ s.db, d = c ∨ i ∈ s.rows
  | _ => True

/-- A commit makes no upsert durable after one of a later report. -/
def Timely : Act → Prop
  | .work c true => ∀ job ∈ (s.connections c).jobs.head?, job.isCommit →
      (s.rows ++ places (s.connections c).transaction).Pairwise (· ≤ ·)
  | _ => True

/-- When the row follows the reports: no upsert is committed after a later
report's, a report is given up on only while its upsert can be taken back and no
commit comes after one left on a connection, and no write changes the
connection halfway. -/
def Orderly (s : RunWrites) (a : Act) : Prop :=
  s.Timely a ∧ (∀ i ∈ s.raises a, s.Revocable i) ∧ (∀ c ∈ s.commits a, s.Unburdened c) ∧ s.Steady a

/-- The runs of one run's reports, all of whose steps meet a condition. -/
def Reach (allowed : RunWrites → Act → Prop) : RunWrites → Prop := Runs.Reach step create allowed

instance decidableRevocable (i : Nat) : Decidable (s.Revocable i) :=
  inferInstanceAs (Decidable (i ∉ s.rows ∧ ∀ c < s.opened, i ∉ places (s.connections c).bound))

instance decidableUnburdened (c : Nat) : Decidable (s.Unburdened c) :=
  inferInstanceAs (Decidable (∀ i ∈ places (s.connections c).statements, s.calls i ≠ .raised))

instance decidableSteady : ∀ a, Decidable (s.Steady a)
  | .resume i => inferInstanceAs (Decidable (∀ c ∈ s.executedOn i, ∀ d ∈ s.db, d = c ∨ i ∈ s.rows))
  | .report _ | .call _ | .begins _ | .work _ _ | .expire _ | .reconnect _ | .connect _ | .reconnectFails _
  | .otherStatement _ | .otherCommit | .otherReconnect | .otherConnect | .otherReconnectFails =>
    inferInstanceAs (Decidable True)

instance decidableTimely : ∀ a, Decidable (s.Timely a)
  | .work c true => inferInstanceAs (Decidable (∀ job ∈ (s.connections c).jobs.head?, job.isCommit →
      (s.rows ++ places (s.connections c).transaction).Pairwise (· ≤ ·)))
  | .work _ false | .report _ | .call _ | .begins _ | .resume _ | .expire _ | .reconnect _ | .connect _
  | .reconnectFails _ | .otherStatement _ | .otherCommit | .otherReconnect | .otherConnect | .otherReconnectFails =>
    inferInstanceAs (Decidable True)

instance decidableOrderly (s : RunWrites) (a : Act) : Decidable (Orderly s a) :=
  inferInstanceAs (Decidable (s.Timely a ∧ (∀ i ∈ s.raises a, s.Revocable i) ∧ (∀ c ∈ s.commits a, s.Unburdened c) ∧
    s.Steady a))

end RunWrites

end RFObserver
