import RFObserver.Lib.Runs
import Mathlib.Tactic

namespace RFObserver

inductive RecordingState
  | idle | armed | recording | finalizing
  deriving DecidableEq, Repr

/-- The recording-control thread: free, in a job's body, about to write
"idle", or about to set the done event. A job carries the number of the
recording whose flip asked for it. -/
inductive JobPhase
  | free
  | body (recording : Nat)
  | closing (recording : Nat)
  | signalling
  deriving DecidableEq, Repr

/-- The job that has not written "idle" yet. -/
def JobPhase.running : JobPhase → List Nat
  | .body recording | .closing recording => [recording]
  | .free | .signalling => []

/-- What the threads share. `begun` numbers the recordings: the recording
fields are those of number `begun`. `beginning` while a begin holds the
recording lock. `handover` are the jobs of flips that were not put on the
queue yet, with whether a stop call waits for them. The stop calls in
progress are counted by what they do next. -/
structure RecordingControl where
  state : RecordingState
  rearmHold : Bool
  begun : Nat
  beginning : Bool
  endDone : Bool
  handover : List (Nat × Bool)
  recctlQueue : List Nat
  job : JobPhase
  finalized : List Nat
  requesting : Nat
  waiting : Nat
  closing : Nat
  deriving DecidableEq, Repr

namespace RecordingControl

def create : RecordingControl where
  state := .idle
  rearmHold := false
  begun := 0
  beginning := false
  endDone := true
  handover := []
  recctlQueue := []
  job := .free
  finalized := []
  requesting := 0
  waiting := 0
  closing := 0

/-- `_begin_recording` up to its last line: the fields now belong to a new
recording. -/
def beginRecording (c : RecordingControl) : RecordingControl :=
  { c with begun := c.begun + 1, beginning := true }

/-- Its last line. -/
def beginFlip (c : RecordingControl) : RecordingControl :=
  { c with state := .recording, beginning := false }

/-- `refused` also when a replay is not to be recorded. -/
def startRecording (refused : Bool) (c : RecordingControl) : RecordingControl :=
  if refused then c
  else if c.state = .recording ∨ c.state = .finalizing then c
  else c.beginRecording

/-- `refused` also in a replay. -/
def armTrigger (refused : Bool) (c : RecordingControl) : RecordingControl :=
  if refused then c
  else if c.state = .idle then { c with state := .armed }
  else c

def disarmTrigger (c : RecordingControl) : RecordingControl :=
  { c with
    state := if c.state = .armed then .idle else c.state
    rearmHold := false }

/-- The part of a stop before it takes the lock. -/
def stopRecording (c : RecordingControl) : RecordingControl :=
  match c.state with
  | .recording => { c with rearmHold := true, requesting := c.requesting + 1 }
  | .finalizing => { c with waiting := c.waiting + 1 }
  | _ => c

/-- The flip of `_request_end_recording`. -/
def flip (wait : Bool) (c : RecordingControl) : RecordingControl :=
  { c with
    state := .finalizing
    endDone := false
    handover := c.handover ++ [(c.begun, wait)] }

/-- A stop call's `_request_end_recording`: it returns at once when the state
is no longer "recording". -/
def requestEnd (c : RecordingControl) : RecordingControl :=
  let c := { c with requesting := c.requesting - 1 }
  if c.state = .recording then c.flip true else { c with closing := c.closing + 1 }

/-- The receiver's, which does not wait. -/
def autoStop (c : RecordingControl) : RecordingControl :=
  if c.state = .recording then c.flip false else c

def scheduleRecctl (recording : Nat) (wait : Bool) (c : RecordingControl) : RecordingControl :=
  { c with
    handover := c.handover.erase (recording, wait)
    recctlQueue := c.recctlQueue ++ [recording]
    waiting := if wait then c.waiting + 1 else c.waiting }

/-- The last part of a stop, under the lock. -/
def closeStop (canWaitArmed : Bool) (c : RecordingControl) : RecordingControl :=
  { c with
    closing := c.closing - 1
    state := if c.state ≠ .recording then (if canWaitArmed then .armed else .idle) else c.state }

/-- An armed trigger on a chunk: after a manual stop it fires only on a new
crossing. -/
def checkPower (above refused : Bool) (c : RecordingControl) : RecordingControl :=
  if c.state ≠ .armed then c
  else if c.rearmHold then (if above then c else { c with rearmHold := false })
  else if above ∧ ¬ refused then c.beginRecording
  else c

/-- The receiver's chunk step under the lock; when the state is "recording"
the chunk is written and nothing changes here. -/
def checkTrigger (armed above refused : Bool) (c : RecordingControl) : RecordingControl :=
  if c.state = .recording then c
  else if c.state = .idle ∧ armed then { c with state := .armed }.checkPower above refused
  else if c.state = .armed ∧ ¬ armed then { c with state := .idle }
  else c.checkPower above refused

/-- One step of one thread. The values a step reads from elsewhere (the
settings, the chunk's power, the storage) are part of it. -/
inductive Act
  | start (refused : Bool)
  | beginFlip
  | arm (refused : Bool)
  | disarm
  | stop
  | requestEnd
  | wake (timedOut : Bool)
  | closeStop (canWaitArmed : Bool)
  | chunk (armed above refused : Bool)
  | autoStop
  | schedule (recording : Nat) (wait : Bool)
  | takeJob
  | finalize
  | writeIdle
  | setDone
  deriving DecidableEq, Repr

/-- What a step does, none where it cannot be taken: the steps under the lock
wait for a begin, and the job's steps follow each other. -/
def step (c : RecordingControl) : Act → Option RecordingControl
  | .start refused => if c.beginning then none else some (c.startRecording refused)
  | .beginFlip => if c.beginning then some c.beginFlip else none
  | .arm refused => if c.beginning then none else some (c.armTrigger refused)
  | .disarm => if c.beginning then none else some c.disarmTrigger
  | .stop => some c.stopRecording
  | .requestEnd => if c.beginning ∨ c.requesting = 0 then none else some c.requestEnd
  | .wake timedOut =>
    if c.waiting = 0 ∨ ¬ (timedOut ∨ c.endDone) then none
    else some { c with waiting := c.waiting - 1, closing := c.closing + 1 }
  | .closeStop canWaitArmed => if c.beginning ∨ c.closing = 0 then none else some (c.closeStop canWaitArmed)
  | .chunk armed above refused => if c.beginning then none else some (c.checkTrigger armed above refused)
  | .autoStop => if c.beginning then none else some c.autoStop
  | .schedule recording wait =>
    if (recording, wait) ∈ c.handover then some (c.scheduleRecctl recording wait) else none
  | .takeJob =>
    match c.job, c.recctlQueue with
    | .free, recording :: rest => some { c with job := .body recording, recctlQueue := rest }
    | _, _ => none
  | .finalize =>
    match c.job with
    | .body recording => some { c with job := .closing recording, finalized := c.finalized ++ [c.begun] }
    | _ => none
  | .writeIdle =>
    match c.job with
    | .closing _ => some { c with job := .signalling, state := .idle }
    | _ => none
  | .setDone => if c.job = .signalling then some { c with job := .free, endDone := true } else none

/-- The states a run reaches by steps that meet `allowed`. -/
abbrev Reach (allowed : RecordingControl → Act → Prop) : RecordingControl → Prop := Runs.Reach step create allowed

/-- The jobs between a flip and the end of the job, its "idle". -/
def openJobs (c : RecordingControl) : List Nat := c.handover.map Prod.fst ++ c.recctlQueue ++ c.job.running

/-- No begin overlaps a finalize job, the end of a job finds no later
recording, and every recording begun was finalized exactly once, but for the
current one while it begins, records or is being finalized. -/
structure Serial (c : RecordingControl) : Prop where
  apart : c.beginning = true → c.openJobs = []
  own : ∀ recording, c.job = .closing recording → recording = c.begun ∧ c.beginning = false ∧ c.state = .finalizing
  once : ∀ i, 1 ≤ i → i ≤ c.begun → c.finalized.count i = 1 ∨
    i = c.begun ∧ c.finalized.count i = 0 ∧ (c.beginning = true ∨ c.state = .recording ∨ c.openJobs = [i])

def Act.closesStop : Act → Bool
  | .closeStop _ => true
  | _ => false

/-- A stop call comes to its last part with no recording being finalized. -/
def StopsAfterJob (c : RecordingControl) (a : Act) : Prop := a.closesStop = true → c.state ≠ .finalizing

instance (c : RecordingControl) (a : Act) : Decidable (StopsAfterJob c a) :=
  inferInstanceAs (Decidable (_ → _))

end RecordingControl
end RFObserver
