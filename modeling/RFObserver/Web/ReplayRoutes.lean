import RFObserver.Pipeline.Supervisor
import RFObserver.Web.ConfigRoutes

/-! The routes around a replay and the settings they share. -/

namespace RFObserver

namespace Replay

open Settings

abbrev Tuning := List (String × Value)

/-- The settings that a replay replaces. -/
def snapshotFields : List String := ["BANDWIDTH", "FREQUENCY_START", "FREQUENCY_STEP", "FREQUENCY_END", "GAIN"]

def tuning (settings : AppSettings) : Tuning := snapshotFields.map fun k => (k, settings k)

def assign (settings : AppSettings) (fields : List (String × Value)) : AppSettings :=
  fields.foldl (fun settings e => Function.update settings e.1 e.2) settings

/-- A capture to replay, with `int` of its parameters. A center frequency that
is not finite has none. -/
structure Capture where
  receiver : PipelineReceiver
  sampleRate : ℤ
  center : Option ℤ
  gain : ℤ

/-- The settings that `replay_start` gets to write. -/
def Capture.tuning (capture : Capture) : Tuning :=
  match capture.center with
  | none => [("BANDWIDTH", .int capture.sampleRate)]
  | some center =>
    [("BANDWIDTH", .int capture.sampleRate), ("FREQUENCY_START", .int center), ("FREQUENCY_STEP", .int 0),
      ("FREQUENCY_END", .int center), ("GAIN", .int capture.gain)]

/-- A request at the await it is in. `activating` is a replay stop that waits for
the live pipeline, in the session of its ghost. -/
inductive Request
  | sensor (want : Bool)
  | apply (replaying : Bool)
  | starting (receiver : PipelineReceiver)
  | stopping
  | activating (began : Option Bool)
  | storagePath
  deriving DecidableEq

/-- The calls of the supervisor that a request waits for. -/
def Request.awaits : Request → SupervisorCall → Bool
  | .sensor want, .setActive active => want == active
  | .starting receiver, .replayStop given | .starting receiver, .replayStart given => receiver == given
  | .stopping, .stopReplay => true
  | .activating _, .setActive active => active
  | _, _ => false

def Request.isStarting : Request → Bool
  | .starting _ => true
  | _ => false

/-- The state of the app. `env` are the settings that `.env` holds. `live` is the
tuning last set outside a replay and `envLive` what it was when `.env` was
written, `began` is whether the sensor was active when the last replay session
began, and `ends` has that and whether it is active for each replay stop and
failed replay start: these four only record what happened. -/
structure AppState where
  supervisor : PipelineSupervisor
  settings : AppSettings
  env : AppSettings
  snapshot : Option (Tuning × Bool)
  requests : List Request
  live : Tuning
  envLive : Tuning
  began : Option Bool
  ends : List (Option Bool × Bool)

/-- The supervisor after the start of the process. -/
def boot (active : Bool) : PipelineSupervisor :=
  if active then (PipelineSupervisor.create.beginStart (.setActive true)).initialized (.setActive true) (.live 0) true true
  else PipelineSupervisor.create

def first (settings : AppSettings) (active : Bool) : AppState where
  supervisor := boot active
  settings := settings
  env := settings
  snapshot := none
  requests := []
  live := tuning settings
  envLive := tuning settings
  began := none
  ends := []

/-- `replay_status()` is not None. -/
def replayStatus (s : PipelineSupervisor) : Bool := s.replay && s.receiver.isSome

/-- The call that a step of the supervisor ends, and whether it returned. -/
def returned (s : PipelineSupervisor) : PipelineSupervisor.Act → Option (SupervisorCall × Bool)
  | .acquire (.setActive active) => if s.active = active then some (.setActive active, true) else none
  | .acquire .stopReplay => if s.active then none else some (.stopReplay, true)
  | .closed false =>
    match s.holder with
    | some (who, .closing) => some (who, false)
    | _ => none
  | .closed true =>
    match s.holder with
    | some (.setActive active, .closing) => some (.setActive active, true)
    | some (.stopReplay, .closing) => some (.stopReplay, true)
    | _ => none
  | .initialized ok built =>
    match s.holder with
    | some (who, .initializing _) => some (who, ok && built)
    | _ => none
  | _ => none

/-- The supervisor's own calls, which no request waits for. -/
def internal : SupervisorCall → Bool
  | .restart | .crashed _ | .backoff _ | .giveUp _ => true
  | _ => false

namespace AppState

variable (s : AppState)

/-- A replay runs or is being started. -/
def running : Bool := replayStatus s.supervisor || s.requests.any Request.isStarting

def persist : AppState := { s with env := s.settings, envLive := s.live }

def call (who : SupervisorCall) (request : Request) : AppState :=
  { s with
    supervisor := { s.supervisor with waiting := who :: s.supervisor.waiting }
    requests := request :: s.requests }

/-- A replay stop or a failed start is over. -/
def ended (began : Option Bool) : AppState := { s with ends := (began, s.supervisor.active) :: s.ends }

/-- `replay_start` to its await. -/
def replayStart (capture : Capture) : AppState :=
  let taken : AppState :=
    { s with
      snapshot := s.snapshot.or (some (tuning s.settings, s.supervisor.active))
      settings := assign s.settings capture.tuning
      began := if s.running then s.began else some s.supervisor.active }
  if capture.center.isSome then
    taken.call (if s.supervisor.active then .replayStop capture.receiver else .replayStart capture.receiver)
      (.starting capture.receiver)
  else taken

/-- `replay_start` after a `start_replay` that raised. -/
def replayFailed : AppState :=
  match s.snapshot with
  | none => s.ended s.began
  | some (snap, _) => { s with settings := assign s.settings snap, snapshot := none }.ended s.began

/-- `replay_stop` after its `stop_replay`. -/
def replayStopped : AppState :=
  match s.snapshot with
  | none => s.ended s.began
  | some (snap, prior) =>
    let restored := { s with settings := assign s.settings snap, snapshot := none }.persist
    if prior then restored.call (.setActive true) (.activating s.began) else restored.ended s.began

/-- A request goes on after its call of the supervisor. -/
def resume : Request → Bool → AppState
  | .sensor _, true => { s with settings := update s.settings (.sensor s.supervisor.active) }.persist
  | .starting _, false => s.replayFailed
  | .stopping, true => s.replayStopped
  | .activating began, true => s.ended began
  | _, _ => s

/-- `apply_config` from its body on; a body that is not JSON changes nothing. -/
def applyBody (replaying : Bool) (body : Option (List (String × FormValue))) : AppState :=
  match body with
  | none => s
  | some body =>
    let (settings, result) := applyConfig s.settings body
    let applied := { s with settings, live := if s.running then s.live else tuning settings }
    match result with
    | .ok (_ :: _) => if replaying then applied else applied.persist
    | _ => applied

inductive Act
  | sensor (want : Bool)
  | apply
  | applyBody (replaying : Bool) (body : Option (List (String × FormValue)))
  | replayStart (capture : Capture)
  | replayStop
  | storagePath (path : List Char) (writable : Bool)
  | storageMoved (ok : Bool)
  | zms (enabled : Bool)
  | toneCheck (enabled : Option Bool) (freqHz thresholdDb : Option PyFloat) (ok : Bool)
  | arm (armed : Bool)
  | supervisor (act : PipelineSupervisor.Act) (resumes : Option Request)

/-- A step of the supervisor, with the request that its call returns to. -/
def stepSupervisor (act : PipelineSupervisor.Act) (resumes : Option Request) : Option AppState :=
  match act with
  | .setActive _ | .startReplay _ | .stopReplay => none
  | act =>
    (s.supervisor.step act).bind fun supervisor =>
      match returned s.supervisor act, resumes with
      | none, none => some { s with supervisor }
      | some (who, _), none => if internal who then some { s with supervisor } else none
      | some (who, ok), some request =>
        if request ∈ s.requests ∧ request.awaits who = true then
          some ({ s with supervisor, requests := s.requests.erase request }.resume request ok)
        else none
      | none, some _ => none

/-- One step of a request between two awaits, or of the supervisor. A tone check
that is not `ok` raised at a value after those that it has set. -/
def step : Act → Option AppState
  | .sensor true => some (s.call (.setActive true) (.sensor true))
  | .sensor false =>
    some ({ s with settings := update s.settings (.sensor false) }.persist.call (.setActive false) (.sensor false))
  | .apply => some { s with requests := .apply (replayStatus s.supervisor) :: s.requests }
  | .applyBody replaying body =>
    if .apply replaying ∈ s.requests then
      some ({ s with requests := s.requests.erase (.apply replaying) }.applyBody replaying body)
    else none
  | .replayStart capture => some (s.replayStart capture)
  | .replayStop => some (s.call .stopReplay .stopping)
  | .storagePath path writable =>
    if strip path ≠ [] ∧ writable = true then
      some { s with settings := update s.settings (.storagePath path writable), requests := .storagePath :: s.requests }
    else some s
  | .storageMoved ok =>
    if .storagePath ∈ s.requests then
      let moved := { s with requests := s.requests.erase .storagePath }
      some (if ok then moved.persist else moved)
    else none
  | .zms enabled => some { s with settings := update s.settings (.zms enabled) }.persist
  | .toneCheck enabled freqHz thresholdDb ok =>
    let set := { s with settings := update s.settings (.toneCheck enabled freqHz thresholdDb) }
    some (if ok then set.persist else set)
  | .arm armed =>
    let set := { s with settings := update s.settings (.arm armed) }
    some (if replayStatus s.supervisor then set else set.persist)
  | .supervisor act resumes => s.stepSupervisor act resumes

end AppState

end Replay

end RFObserver
