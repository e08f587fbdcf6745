import Mathlib.Tactic
import RFObserver.Lib.Runs

namespace RFObserver

/-- A receiver: one the factory built, or one given to `start_replay`. -/
inductive PipelineReceiver
  | live (n : Nat)
  | replay (n : Nat)
  deriving DecidableEq, Repr

/-- A coroutine outside the lock. `start_replay` waits for it twice, and
`crashed` is a restart after a crash that has not begun yet. -/
inductive SupervisorCall
  | setActive (active : Bool)
  | replayStop (receiver : PipelineReceiver)
  | replayStart (receiver : PipelineReceiver)
  | stopReplay
  | restart
  | crashed (task : Nat)
  | backoff (task : Nat)
  | giveUp (task : Nat)
  deriving DecidableEq, Repr

/-- The task whose crash a coroutine answers. -/
def SupervisorCall.crash : SupervisorCall → Option Nat
  | .backoff task => some task
  | .giveUp task => some task
  | _ => none

/-- A restart that has not begun does not wait for the lock. -/
def SupervisorCall.takesLock : SupervisorCall → Bool
  | .crashed _ => false
  | _ => true

/-- The await at which the coroutine in the lock is. -/
inductive LockStage
  | draining
  | closing
  | initializing (receiver : PipelineReceiver)
  deriving DecidableEq, Repr

/-- What a start or a stop that raised left behind. -/
structure SupervisorMode where
  receiverOverride : Option PipelineReceiver
  replay : Bool
  active : Bool
  deriving DecidableEq, Repr

/-- The supervisor, the coroutines that call it and what it owns. `processor`
names the processor and its task, `opened` are the receivers initialized and
not closed, `running` the tasks that run and `done` the ended ones with their
callback to come, true for an exception. `raises`, `starts` and `replaced`
only record what happened. -/
structure PipelineSupervisor where
  receiver : Option PipelineReceiver
  processor : Option Nat
  active : Bool
  receiverOverride : Option PipelineReceiver
  replay : Bool
  stopping : Bool
  consecutiveCrashes : Nat
  lastCrashTs : ℚ
  gaveUp : Bool
  published : Option Nat
  giveUps : Nat
  waiting : List SupervisorCall
  holder : Option (SupervisorCall × LockStage)
  built : Nat
  created : Nat
  opened : List PipelineReceiver
  running : List Nat
  done : List (Nat × Bool)
  raises : List SupervisorMode
  starts : List (SupervisorCall × PipelineReceiver)
  replaced : List (Nat × Option Nat)
  deriving DecidableEq

namespace PipelineSupervisor

def crashResetWindowSec : ℚ := 120
def maxConsecutiveCrashRestarts : Nat := 5

def create : PipelineSupervisor where
  receiver := none
  processor := none
  active := false
  receiverOverride := none
  replay := false
  stopping := false
  consecutiveCrashes := 0
  lastCrashTs := 0
  gaveUp := false
  published := none
  giveUps := 0
  waiting := []
  holder := none
  built := 0
  created := 0
  opened := []
  running := []
  done := []
  raises := []
  starts := []
  replaced := []

variable (s : PipelineSupervisor)

/-- `_start` to its await of `initialize`. -/
def beginStart (who : SupervisorCall) : PipelineSupervisor :=
  { s with
    built := if s.receiverOverride.isNone then s.built + 1 else s.built
    holder := some (who, .initializing (s.receiverOverride.getD (.live s.built))) }

/-- `_stop` to its await of the task. -/
def beginStop (who : SupervisorCall) : PipelineSupervisor :=
  { s with
    stopping := true
    holder := some (who, .draining)
    replaced := who.crash.toList.map (fun task => (task, s.processor)) ++ s.replaced }

/-- A coroutine has the lock, and goes on to its first await or out again. -/
def enter : SupervisorCall → PipelineSupervisor
  | .setActive true =>
    if s.active then s else { s with consecutiveCrashes := 0, gaveUp := false }.beginStart (.setActive true)
  | .setActive false => if s.active then s.beginStop (.setActive false) else s
  | .replayStop receiver =>
    if s.active then s.beginStop (.replayStop receiver)
    else { s with waiting := .replayStart receiver :: s.waiting }
  | .replayStart receiver =>
    { s with receiverOverride := some receiver, replay := true, gaveUp := false }.beginStart (.replayStart receiver)
  | .stopReplay =>
    if s.active then s.beginStop .stopReplay else { s with receiverOverride := none, replay := false }
  | .restart => if s.active = false ∨ s.replay = true then s else s.beginStop .restart
  | .backoff task => if s.active = false ∨ s.replay = true then s else s.beginStop (.backoff task)
  | .giveUp task => if s.active = false ∨ s.replay = true then s else s.beginStop (.giveUp task)
  | .crashed _ => s

/-- The end of `_stop`. -/
def stopped : PipelineSupervisor :=
  { s with
    opened := s.receiver.elim s.opened s.opened.erase
    processor := none
    receiver := none
    active := false
    receiverOverride := none
    replay := false
    published := none
    stopping := false
    holder := none }

/-- What a coroutine does after its `_stop`. -/
def afterStop (who : SupervisorCall) : PipelineSupervisor :=
  match who with
  | .replayStop receiver => { s.stopped with waiting := .replayStart receiver :: s.waiting }
  | .restart | .backoff _ => s.stopped.beginStart who
  | .giveUp _ => { s.stopped with gaveUp := true, giveUps := s.giveUps + 1 }
  | _ => s.stopped

/-- A start or a stop raises. -/
def raise : PipelineSupervisor :=
  { s with
    stopping := false
    holder := none
    raises := ⟨s.receiverOverride, s.replay, s.active⟩ :: s.raises }

/-- A restart after a crash gives up when its start raises. -/
def startRaises (who : SupervisorCall) : PipelineSupervisor :=
  match who with
  | .backoff _ => { s.raise with gaveUp := true, giveUps := s.giveUps + 1 }
  | _ => s.raise

/-- `_start` from the built processor on. -/
def started (who : SupervisorCall) (receiver : PipelineReceiver) : PipelineSupervisor :=
  { s with
    receiver := some receiver
    processor := some s.created
    created := s.created + 1
    running := s.created :: s.running
    active := true
    published := some s.created
    holder := none
    starts := (who, receiver) :: s.starts }

/-- `initialize` has answered; the processor is built in the same step. -/
def initialized (who : SupervisorCall) (receiver : PipelineReceiver) : Bool → Bool → PipelineSupervisor
  | false, _ => s.startRaises who
  | true, false => { s with opened := receiver :: s.opened }.startRaises who
  | true, true => { s with opened := receiver :: s.opened }.started who receiver

/-- `_on_task_done` -/
def onTaskDone (task : Nat) (failed : Bool) : PipelineSupervisor :=
  if s.stopping = true ∨ failed = false then s
  else if s.active then { s with waiting := .crashed task :: s.waiting } else s

/-- `_restart_after_crash` to its sleep, or to the lock when it gives up. -/
def crashBegins (task : Nat) (now : ℚ) : PipelineSupervisor :=
  let crashes := (if now - s.lastCrashTs > crashResetWindowSec then 0 else s.consecutiveCrashes) + 1
  { s with
    lastCrashTs := now
    consecutiveCrashes := crashes
    waiting :=
      (if crashes > maxConsecutiveCrashRestarts then .giveUp task else .backoff task) ::
        s.waiting.erase (.crashed task) }

inductive Act
  | setActive (active : Bool)
  | startReplay (receiver : PipelineReceiver)
  | stopReplay
  | restart
  | acquire (who : SupervisorCall)
  | drained
  | closed (ok : Bool)
  | initialized (ok built : Bool)
  | taskEnds (task : Nat) (failed : Bool)
  | taskDone (task : Nat) (failed : Bool)
  | crashBegins (task : Nat) (now : ℚ)
  deriving DecidableEq, Repr

/-- One step of a coroutine or of a task. The callback of a task runs before
the receiver of its pipeline is closed. -/
def step : Act → Option PipelineSupervisor
  | .setActive active => some { s with waiting := .setActive active :: s.waiting }
  | .startReplay receiver =>
    some { s with waiting := (if s.active then .replayStop receiver else .replayStart receiver) :: s.waiting }
  | .stopReplay => some { s with waiting := .stopReplay :: s.waiting }
  | .restart => some { s with waiting := .restart :: s.waiting }
  | .acquire who =>
    if s.holder = none ∧ who ∈ s.waiting ∧ who.takesLock = true then
      some ({ s with waiting := s.waiting.erase who }.enter who)
    else none
  | .drained =>
    match s.holder with
    | some (who, .draining) =>
      if ∀ task ∈ s.processor, task ∉ s.running then some { s with holder := some (who, .closing) } else none
    | _ => none
  | .closed ok =>
    match s.holder with
    | some (who, .closing) =>
      if ∀ task ∈ s.processor, ∀ e ∈ s.done, e.1 ≠ task then some (if ok then s.afterStop who else s.raise)
      else none
    | _ => none
  | .initialized ok built =>
    match s.holder with
    | some (who, .initializing receiver) => some (s.initialized who receiver ok built)
    | _ => none
  | .taskEnds task failed =>
    if task ∈ s.running then
      some { s with running := s.running.erase task, done := (task, failed) :: s.done }
    else none
  | .taskDone task failed =>
    if s.done.contains (task, failed) then some ({ s with done := s.done.erase (task, failed) }.onTaskDone task failed)
    else none
  | .crashBegins task now => if .crashed task ∈ s.waiting then some (s.crashBegins task now) else none

end PipelineSupervisor

end RFObserver
