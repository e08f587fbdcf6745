import Mathlib.Data.Int.Notation
import Mathlib.Data.List.Basic
import RFObserver.Lib.Runs

/-! The sweep pipeline: captures are received, processed on a worker thread and
stored and broadcast in a task, each overlapping with the next. -/

namespace RFObserver

structure ProcessResult where
  captureNum : Nat
  centerFreqHz : ℤ
  filename : String
  bursts : List String
  deriving DecidableEq, Repr

/-- What a `ContinuousProcessor` has besides the receiver and the storage. -/
structure SweepConfig where
  freqs : List ℤ
  isolation : Bool
  zmsMonitor : Bool
  broadcast : Bool
  deriving DecidableEq, Repr

/-- The steps of `_store_and_broadcast`, each of which may raise. -/
inductive StoreStep
  | saveCapture (filename : String)
  | insertDetection (burstId : String)
  | submit (bursts : List String)
  | fanoutEnvelope (captureNum : Nat)
  | publish (captureNum : Nat)
  deriving DecidableEq, Repr

def SweepConfig.storeAndBroadcast (config : SweepConfig) (pr : ProcessResult) : List StoreStep :=
  [.saveCapture pr.filename] ++ pr.bursts.map .insertDetection ++
    (if config.isolation ∧ pr.bursts ≠ [] then [.submit pr.bursts] else []) ++
    (if config.zmsMonitor then [.fanoutEnvelope pr.captureNum] else []) ++
    (if config.broadcast then [.publish pr.captureNum] else [])

inductive ProcessState
  | running
  | done (pr : ProcessResult)
  | raised
  deriving DecidableEq

/-- A `_process_capture_blocking` on the worker. Captures are numbered as they
are received. -/
structure Processing where
  capture : Nat
  captureNum : Nat
  centerFreqHz : ℤ
  state : ProcessState
  deriving DecidableEq

/-- A `_store_and_broadcast` call, with the steps still to take. -/
structure StoreCall where
  capture : Nat
  todo : List StoreStep
  raised : Bool
  deriving DecidableEq

def StoreCall.Running (t : StoreCall) : Prop := t.todo ≠ [] ∧ t.raised = false

instance (t : StoreCall) : Decidable t.Running := inferInstanceAs (Decidable (_ ∧ _))

/-- Where the sweep loop is: at the head of the for loop with the frequencies
that remain, at an await of an iteration, or in the drain after the loop. -/
inductive SweepLoop
  | top (remaining : List ℤ)
  | receives (centerFreq : ℤ) (remaining : List ℤ)
  | awaitsProcess (capture : Nat) (centerFreq : ℤ) (remaining : List ℤ)
  | awaitsBroadcast (capture : Nat) (prevResult : ProcessResult) (centerFreq : ℤ) (remaining : List ℤ)
  | sleeps (remaining : List ℤ)
  | drainsProcess
  | drainsStore
  | drainsBroadcast
  | ended (raised : Bool)
  deriving DecidableEq

/-- At the await of the processing, with a capture received. -/
def SweepLoop.atProcess : SweepLoop → Bool
  | .awaitsProcess .. => true
  | _ => false

/-- At the await of the task, with a capture received. -/
def SweepLoop.atBroadcast : SweepLoop → Bool
  | .awaitsBroadcast .. => true
  | _ => false

/-- `broadcastTask` is the task and `drain` the call that the drain awaits
itself. The last five fields record the captures received, submitted and
processed, those of which a step of their own raised, and the steps taken. -/
structure ContinuousProcessor where
  config : SweepConfig
  running : Bool
  captureCount : Nat
  loop : SweepLoop
  processFuture : Option Processing
  broadcastTask : Option StoreCall
  drain : Option StoreCall
  next : Nat
  received : List Nat
  submitted : List Nat
  results : List (Nat × ProcessResult)
  raised : List Nat
  log : List (Nat × StoreStep)
  deriving DecidableEq

namespace ContinuousProcessor

def create (config : SweepConfig) : ContinuousProcessor where
  config := config
  running := true
  captureCount := 0
  loop := .top config.freqs
  processFuture := none
  broadcastTask := none
  drain := none
  next := 0
  received := []
  submitted := []
  results := []
  raised := []
  log := []

/-- `goes` lets the loop go on to its next await. `store` and `storeRaises` are
for the task, or for the drain's own call. -/
inductive Act
  | goes
  | stop
  | receive
  | receiveRaises
  | process (filename : String) (bursts : List String)
  | processRaises
  | store (inDrain : Bool)
  | storeRaises (inDrain : Bool)
  deriving DecidableEq

variable (s : ContinuousProcessor)

def newCall (capture : Nat) (pr : ProcessResult) : StoreCall := ⟨capture, s.config.storeAndBroadcast pr, false⟩

/-- Kick off processing for the capture. -/
def submit (capture : Nat) (centerFreq : ℤ) (remaining : List ℤ) : ContinuousProcessor :=
  { s with
    captureCount := s.captureCount + 1
    processFuture := some ⟨capture, s.captureCount + 1, centerFreq, .running⟩
    submitted := s.submitted ++ [capture]
    loop := .top remaining }

def drains : ContinuousProcessor :=
  { s with loop := if s.processFuture.isSome then .drainsProcess else .drainsBroadcast }

/-- The loop goes on once what it awaits is done. -/
def goes : Option ContinuousProcessor :=
  match s.loop with
  | .top [] => some (if s.running then { s with loop := .top s.config.freqs } else s.drains)
  | .top (centerFreq :: remaining) =>
    some (if s.running then { s with loop := .receives centerFreq remaining } else s.drains)
  | .receives .. => none
  | .awaitsProcess capture centerFreq remaining =>
    match s.processFuture with
    | none => some (s.submit capture centerFreq remaining)
    | some p =>
      match p.state with
      | .running => none
      | .raised => some { s with loop := .sleeps remaining }
      | .done pr => some { s with loop := .awaitsBroadcast capture pr centerFreq remaining }
  | .awaitsBroadcast capture prevResult centerFreq remaining =>
    match s.processFuture, s.broadcastTask with
    | none, _ => none
    | some p, task =>
      if ∃ t ∈ task, t.Running then none
      else if ∃ t ∈ task, t.raised = true then some { s with loop := .sleeps remaining }
      else some ({ s with broadcastTask := some (s.newCall p.capture prevResult) }.submit capture centerFreq remaining)
  | .sleeps remaining => some { s with loop := .top remaining }
  | .drainsProcess =>
    match s.processFuture with
    | none => none
    | some p =>
      match p.state with
      | .running => none
      | .raised => some { s with loop := .ended true }
      -- the future is not read again
      | .done pr => some { s with loop := .drainsStore, drain := some (s.newCall p.capture pr), processFuture := none }
  | .drainsStore =>
    match s.drain with
    | none => none
    | some t =>
      if t.Running then none
      else some { s with loop := if t.raised then .ended true else .drainsBroadcast }
  | .drainsBroadcast =>
    if ∃ t ∈ s.broadcastTask, t.Running then none
    else some { s with loop := .ended (decide (∃ t ∈ s.broadcastTask, t.raised = true)) }
  | .ended _ => none

/-- The next step of a call. -/
def storeStep (t : StoreCall) : Option (StoreCall × (Nat × StoreStep)) :=
  match t.todo with
  | [] => none
  | e :: rest => if t.raised then none else some ({ t with todo := rest }, (t.capture, e))

/-- The next step of a call raises; the fan-out's exceptions are caught. -/
def storeRaise (t : StoreCall) : Option StoreCall :=
  match t.todo with
  | [] | .fanoutEnvelope _ :: _ => none
  | _ => if t.raised then none else some { t with raised := true }

def call (inDrain : Bool) : Option StoreCall := if inDrain then s.drain else s.broadcastTask

def setCall (inDrain : Bool) (t : StoreCall) : ContinuousProcessor :=
  if inDrain then { s with drain := some t } else { s with broadcastTask := some t }

def step : Act → Option ContinuousProcessor
  | .goes => s.goes
  | .stop => some { s with running := false }
  | .receive =>
    match s.loop with
    | .receives centerFreq remaining =>
      some { s with
        loop := .awaitsProcess s.next centerFreq remaining
        next := s.next + 1
        received := s.received ++ [s.next] }
    | _ => none
  | .receiveRaises =>
    match s.loop with
    | .receives _ remaining =>
      some { s with loop := .sleeps remaining, next := s.next + 1, raised := s.raised ++ [s.next] }
    | _ => none
  | .process filename bursts =>
    match s.processFuture with
    | some ⟨capture, captureNum, centerFreqHz, .running⟩ =>
      let pr : ProcessResult := ⟨captureNum, centerFreqHz, filename, bursts⟩
      some { s with
        processFuture := some ⟨capture, captureNum, centerFreqHz, .done pr⟩
        results := s.results ++ [(capture, pr)] }
    | _ => none
  | .processRaises =>
    match s.processFuture with
    | some ⟨capture, captureNum, centerFreqHz, .running⟩ =>
      some { s with
        processFuture := some ⟨capture, captureNum, centerFreqHz, .raised⟩
        raised := s.raised ++ [capture] }
    | _ => none
  | .store inDrain =>
    ((s.call inDrain).bind storeStep).map fun (t, entry) => { s.setCall inDrain t with log := s.log ++ [entry] }
  | .storeRaises inDrain =>
    ((s.call inDrain).bind storeRaise).map fun t => { s.setCall inDrain t with raised := s.raised ++ [t.capture] }

/-- The capture that the loop has received and not submitted yet. -/
def held : Option Nat :=
  match s.loop with
  | .awaitsProcess capture .. | .awaitsBroadcast capture .. => some capture
  | _ => none

/-- A processed capture whose store and broadcast is still to come or not done. -/
def UnderWay (capture : Nat) : Prop :=
  (∃ p ∈ s.processFuture, p.capture = capture) ∨ (∃ t ∈ s.broadcastTask, t.capture = capture ∧ t.Running) ∨
    ∃ t ∈ s.drain, t.capture = capture ∧ t.Running

/-- One failed capture never stops the sweep: every capture received is
submitted, every one submitted is processed unless its processing raises, every
one processed is stored and broadcast once unless a step of its own raises, and
this in capture order. -/
structure EachStored : Prop where
  submitted : ∀ c ∈ s.received, s.held = some c ∨ c ∈ s.submitted
  processed : ∀ c ∈ s.submitted,
    (∃ p ∈ s.processFuture, p.capture = c ∧ p.state = .running) ∨ c ∈ s.raised ∨ ∃ r ∈ s.results, r.1 = c
  stored : ∀ r ∈ s.results, r.1 ∈ s.raised ∨ s.UnderWay r.1 ∨
    s.log.filter (fun e => e.1 = r.1) = (s.config.storeAndBroadcast r.2).map fun step => (r.1, step)
  ordered : (s.log.map Prod.fst).Pairwise (· ≤ ·)

/-- With a capture received, the loop finds that neither the processing nor the
store and broadcast it awaits has raised. -/
def FindsUnraised (a : Act) : Prop :=
  a = .goes → (s.loop.atProcess = true → ∀ p ∈ s.processFuture, p.state ≠ .raised) ∧
    (s.loop.atBroadcast = true → ∀ t ∈ s.broadcastTask, t.raised = false)

/-- When the drain stores the last capture the task before it is done. -/
def DrainsInTurn (a : Act) : Prop :=
  a = .goes → s.loop = .drainsProcess → ∀ p ∈ s.processFuture, p.state ≠ .raised → ∀ t ∈ s.broadcastTask, ¬ t.Running

def Clear (a : Act) : Prop := s.FindsUnraised a ∧ s.DrainsInTurn a

instance (a : Act) : Decidable (s.FindsUnraised a) := inferInstanceAs (Decidable (_ → _))

instance (a : Act) : Decidable (s.DrainsInTurn a) := inferInstanceAs (Decidable (_ → _))

instance (a : Act) : Decidable (s.Clear a) := inferInstanceAs (Decidable (_ ∧ _))

end ContinuousProcessor

end RFObserver
