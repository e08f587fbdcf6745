import Mathlib.Tactic
import RFObserver.Lib.Runs

namespace RFObserver

/-- The two calls of the wrapped method: the first one and the retry. -/
inductive Attempt
  | first
  | second
  deriving DecidableEq, Repr

/-- One execute of a transaction, by its place in its write. `writer` is none
for another user of the same database. -/
structure Statement where
  writer : Option Attempt
  place : Nat
  deriving DecidableEq, Repr

/-- What a connection's thread takes from its queue. -/
inductive DbJob
  | statement (statement : Statement)
  | commit (writer : Option Attempt)
  | close
  deriving DecidableEq, Repr

/-- What a finished job commits, and the open transaction it leaves. A failed
statement or commit leaves the transaction as it was, a close rolls it back. -/
def DbJob.effect : DbJob → Bool → List Statement → List Statement × List Statement
  | .statement e, true, transaction => ([], transaction ++ [e])
  | .commit _, true, transaction => (transaction, [])
  | .close, _, _ => ([], [])
  | _, false, transaction => ([], transaction)

/-- What a queue commits on top of an open transaction if its jobs succeed. -/
def DbJob.bound : List DbJob → List Statement → List Statement
  | [], _ => []
  | job :: rest, transaction =>
    (job.effect true transaction).1 ++ bound rest (job.effect true transaction).2

def DbJob.statement? : DbJob → Option Statement
  | .statement e => some e
  | _ => none

def DbJob.writer : DbJob → Option Attempt
  | .statement e => e.writer
  | .commit writer => writer
  | .close => none

/-- An aiosqlite connection: its thread's queue and the statements executed
since the last commit. -/
structure DbConnection where
  queue : List DbJob
  transaction : List Statement
  deriving DecidableEq, Repr

/-- The statements it has executed and not committed, and those it still has to execute. -/
def DbConnection.statements (connection : DbConnection) : List Statement :=
  connection.transaction ++ connection.queue.filterMap DbJob.statement?

/-- Where the coroutine of a guarded write is. Job number `n` of an attempt is
its statement number `n`, and the commit after the last one. -/
inductive GuardCall
  | idle
  | starting (attempt : Attempt)
  | waiting (attempt : Attempt) (n c : Nat)
  | answered (attempt : Attempt) (n c : Nat) (ok : Bool)
  | timedOut
  | connecting
  | returned (attempt : Attempt)
  | raised
  deriving DecidableEq, Repr

/-- The attempt that is under way. -/
def GuardCall.current : GuardCall → Option Attempt
  | .starting a | .waiting a _ _ | .answered a _ _ _ => some a
  | _ => none

/-- The attempt has queued nothing yet. -/
def GuardCall.before : GuardCall → Attempt → Bool
  | .idle, _ => true
  | .starting a, w => w = a || w = .second
  | .waiting a _ _, w | .answered a _ _ _, w | .returned a, w => a = .first && w = .second
  | .timedOut, w | .connecting, w => w = .second
  | .raised, _ => false

/-- The attempt has ended without a result. -/
def GuardCall.ended : GuardCall → Attempt → Bool
  | .idle, _ => false
  | .starting a, w | .waiting a _ _, w | .answered a _ _ _, w | .returned a, w => a = .second && w = .first
  | .timedOut, w | .connecting, w => w = .first
  | .raised, _ => true

/-- One guarded write among other users of the same `SensorDatabase`.
`connections` are numbered as they are opened, `db` is `self._db`, `expect` the
one the wrapper saw first, `opening` tells who holds the reconnect lock (true
for this write), and `table` has the committed statements in order. -/
structure GuardedWrite where
  last : Nat
  connections : Nat → DbConnection
  opened : Nat
  db : Option Nat
  expect : Option Nat
  opening : Option Bool
  table : List Statement
  call : GuardCall

namespace GuardedWrite

/-- Connected, with nothing queued. The write's last statement is number `last`. -/
def create (last : Nat) : GuardedWrite :=
  { last, connections := fun _ => ⟨[], []⟩, opened := 1, db := some 0, expect := none, opening := none,
    table := [], call := .idle }

variable (s : GuardedWrite)

def job (a : Attempt) (n : Nat) : DbJob :=
  if n ≤ s.last then .statement ⟨some a, n⟩ else .commit (some a)

def queue (c : Nat) (job : DbJob) : GuardedWrite :=
  { s with connections :=
      Function.update s.connections c ⟨(s.connections c).queue ++ [job], (s.connections c).transaction⟩ }

/-- The coroutine's next await: job `n` on what `self._db` is now. Without a
connection the assert (or the attribute access) raises. -/
def issue (a : Attempt) (n : Nat) : GuardedWrite :=
  match s.db with
  | none => { s with call := .raised }
  | some c => { s.queue c (s.job a n) with call := .waiting a n c }

/-- `_reconnect` up to its first await: the connection is dropped and its close
queued behind whatever its thread still has to do. -/
def abandon (own : Bool) : GuardedWrite :=
  match s.db with
  | none => { s with opening := some own }
  | some c => { s.queue c .close with db := none, opening := some own }

/-- The fresh connection is open and configured. -/
def connected : GuardedWrite :=
  { s with db := some s.opened, opened := s.opened + 1, opening := none }

/-- Another connection is in a write transaction, so a statement here is busy. -/
def Locked (c : Nat) : Prop :=
  ∃ d < s.opened, d ≠ c ∧ (s.connections d).transaction ≠ []

instance Locked.decidable (c : Nat) : Decidable (s.Locked c) :=
  inferInstanceAs (Decidable (∃ d < s.opened, d ≠ c ∧ (s.connections d).transaction ≠ []))

/-- The thread of connection `c` finishes the job at the head of its queue. -/
def finish (c : Nat) (ok : Bool) (job : DbJob) (rest : List DbJob) : GuardedWrite :=
  let effect := job.effect ok (s.connections c).transaction
  { s with
    connections := Function.update s.connections c ⟨rest, effect.2⟩
    table := s.table ++ effect.1
    call := match s.call with
      | .waiting a n d => if d = c ∧ s.job a n = job then .answered a n c ok else s.call
      | call => call }

/-- One step: `call` enters the wrapper, `begin` starts an attempt's task,
`work` is a connection's thread, `resume` the coroutine after a job, `expire`
wait_for's time-out, `reconnect`, `connect` and `reconnectFails` the steps of
`_reconnect`; the rest is what the other users of the database do. -/
inductive Act
  | call
  | begin
  | work (c : Nat) (ok : Bool)
  | resume
  | expire
  | reconnect
  | connect
  | reconnectFails
  | otherStatement (place : Nat)
  | otherCommit
  | otherReconnect
  | otherConnect
  | otherReconnectFails
  deriving DecidableEq, Repr

def step : Act → Option GuardedWrite
  | .call => if s.call = .idle then some { s with call := .starting .first, expect := s.db } else none
  | .begin =>
    match s.call with
    | .starting a => some (s.issue a 0)
    | _ => none
  | .work c ok =>
    match (s.connections c).queue with
    | [] => none
    | .statement e :: rest =>
      if ok = true ∧ s.Locked c then none else some (s.finish c ok (.statement e) rest)
    | job :: rest => some (s.finish c ok job rest)
  | .resume =>
    match s.call with
    | .answered _ _ _ false => some { s with call := .raised }
    | .answered a n _ true =>
      if n ≤ s.last then some (s.issue a (n + 1)) else some { s with call := .returned a }
    | _ => none
  | .expire =>
    match s.call.current with
    | some .first => some { s with call := .timedOut }
    | some .second => some { s with call := .raised }
    | none => none
  | .reconnect =>
    if s.call = .timedOut ∧ s.opening = none then
      if s.db = s.expect then some { s.abandon true with call := .connecting }
      else some { s with call := .starting .second }
    else none
  | .connect =>
    if s.call = .connecting ∧ s.opening = some true then some { s.connected with call := .starting .second }
    else none
  | .reconnectFails =>
    match s.call with
    | .timedOut => some { s with call := .raised }
    | .connecting => some { s with call := .raised, opening := none }
    | _ => none
  | .otherStatement place => s.db.map fun c => s.queue c (.statement ⟨none, place⟩)
  | .otherCommit => s.db.map fun c => s.queue c (.commit none)
  | .otherReconnect => if s.opening = none ∧ s.db ≠ none then some (s.abandon false) else none
  | .otherConnect => if s.opening = some false then some s.connected else none
  | .otherReconnectFails => if s.opening = some false then some { s with opening := none } else none

/-- The attempt's statements among `l`. -/
def of (a : Attempt) (l : List Statement) : List Statement :=
  l.filter fun e => e.writer = some a

/-- The first `n` statements of the attempt, each once and in order. -/
def written (a : Attempt) (n : Nat) : List Statement :=
  (List.range n).map fun place => ⟨some a, place⟩

/-- The write's committed statements, whichever attempt they are from. -/
def own : List Nat :=
  (s.table.filter fun e => e.writer ≠ none).map Statement.place

/-- The write is in the database exactly once after a return, and not at all
after a raise. -/
def ExactlyOnce (last : Nat) : Prop :=
  (∀ a, s.call = .returned a → s.own = List.range (last + 1)) ∧ (s.call = .raised → s.own = [])

/-- None of the attempt's statements is committed, or stands before a commit in
some connection's queue. -/
def Revocable (a : Attempt) : Prop :=
  (∀ e ∈ s.table, e.writer ≠ some a) ∧ ∀ c < s.opened,
    ∀ e ∈ DbJob.bound (s.connections c).queue (s.connections c).transaction, e.writer ≠ some a

/-- The connection has no statement of an attempt that is over. -/
def Unburdened (c : Nat) : Prop :=
  ∀ e ∈ (s.connections c).statements, ∀ a ∈ e.writer, s.call.ended a = false

/-- Job `n` of the attempt was done on connection `c`: the next one goes to the
same connection, or all statements so far are committed. -/
def Continues (a : Attempt) (n c : Nat) : Option Nat → Prop
  | none => s.Revocable a
  | some d => (d = c ∨ of a s.table = written a (n + 1)) ∧ (n = s.last → s.Unburdened d)

def Resumes : GuardCall → Prop
  | .answered a _ _ false => s.Revocable a
  | .answered a n c true => n ≤ s.last → s.Continues a n c s.db
  | _ => True

/-- When the code keeps its promise: an attempt ends without a result only while
it can still be taken back, it does not change the connection halfway, and
nobody queues a commit on a connection with statements of an attempt that is over. -/
def Orderly (s : GuardedWrite) : Act → Prop
  | .expire => ∀ a ∈ s.call.current, s.Revocable a
  | .resume => s.Resumes s.call
  | .otherCommit => ∀ c ∈ s.db, s.Unburdened c
  | _ => True

/-- The runs of one write of `last + 1` statements, all of whose steps meet a condition. -/
def Reach (allowed : GuardedWrite → Act → Prop) (last : Nat) : GuardedWrite → Prop :=
  Runs.Reach step (create last) allowed

instance decidableRevocable (a : Attempt) : Decidable (s.Revocable a) :=
  inferInstanceAs (Decidable ((∀ e ∈ s.table, e.writer ≠ some a) ∧ ∀ c < s.opened,
    ∀ e ∈ DbJob.bound (s.connections c).queue (s.connections c).transaction, e.writer ≠ some a))

instance decidableUnburdened (c : Nat) : Decidable (s.Unburdened c) :=
  inferInstanceAs (Decidable (∀ e ∈ (s.connections c).statements, ∀ a ∈ e.writer, s.call.ended a = false))

instance decidableContinues (a : Attempt) (n c : Nat) : ∀ db, Decidable (s.Continues a n c db)
  | none => s.decidableRevocable a
  | some d => inferInstanceAs (Decidable
      ((d = c ∨ of a s.table = written a (n + 1)) ∧ (n = s.last → s.Unburdened d)))

instance decidableResumes : ∀ call, Decidable (s.Resumes call)
  | .answered a _ _ false => s.decidableRevocable a
  | .answered a n c true => inferInstanceAs (Decidable (n ≤ s.last → s.Continues a n c s.db))
  | .idle | .starting _ | .waiting _ _ _ | .timedOut | .connecting | .returned _ | .raised =>
    inferInstanceAs (Decidable True)

instance decidableOrderly (s : GuardedWrite) : ∀ a, Decidable (Orderly s a)
  | .expire => inferInstanceAs (Decidable (∀ a ∈ s.call.current, s.Revocable a))
  | .resume => s.decidableResumes s.call
  | .otherCommit => inferInstanceAs (Decidable (∀ c ∈ s.db, s.Unburdened c))
  | .call | .begin | .work _ _ | .reconnect | .connect | .reconnectFails | .otherStatement _
  | .otherReconnect | .otherConnect | .otherReconnectFails => inferInstanceAs (Decidable True)

end GuardedWrite
end RFObserver
