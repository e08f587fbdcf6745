import RFObserver.Lib.Runs
import RFObserver.Web.ReplayRoutes

namespace RFObserver

namespace Replay

open Settings

section Tuning

theorem tuning_keys (settings : AppSettings) : (tuning settings).map Prod.fst = snapshotFields := by
  rw [tuning, List.map_map]
  exact List.map_id _

theorem tuning_assign {settings : AppSettings} {fields : Tuning} (keys : fields.map Prod.fst = snapshotFields) :
    tuning (assign settings fields) = fields := by
  match fields, keys with
  | [(_, bandwidth), (_, start), (_, freqStep), (_, stop), (_, gain)], keys =>
    cases keys
    simp [tuning, assign, snapshotFields, Function.update]

theorem tuning_set {settings : AppSettings} {attr : String} {v : Value} (other : attr ∉ snapshotFields) :
    tuning (Function.update settings attr v) = tuning settings := by
  refine List.map_congr_left fun k member => ?_
  have ne : k ≠ attr := fun same => other (same ▸ member)
  rw [Function.update_of_ne ne]

theorem tuning_setIf {settings : AppSettings} {attr : String} {v : Option Value} (other : attr ∉ snapshotFields) :
    tuning (setIf settings attr v) = tuning settings := by
  cases v with
  | none => rfl
  | some v => exact tuning_set other

/-- The form keys of the fields of a tuning. -/
def tuningKeys : List String := (fieldMap.filter fun f => f.attr ∈ snapshotFields).map FormField.key

theorem applyFields_tuning {body : List (String × FormValue)} {fs : List FormField} {settings : AppSettings}
    {changed : List String} (absent : ∀ f ∈ fs, f.attr ∈ snapshotFields → body.lookup f.key = none) :
    tuning (applyFields body fs settings changed).1 = tuning settings := by
  induction fs generalizing settings changed with
  | nil => rfl
  | cons f rest ih =>
    have later := fun g after => absent g (List.mem_cons_of_mem f after)
    unfold applyFields
    split
    case h_1 => exact ih later
    case h_2 raw given =>
      have other : f.attr ∉ snapshotFields := fun inside =>
        Option.some_ne_none raw (given.symm.trans (absent f (List.mem_cons_self ..) inside))
      split
      case h_1 => rfl
      case h_2 =>
        split
        · exact ih later
        · exact (ih later).trans (tuning_set other)

/-- A body without a field of the tuning leaves it. -/
theorem applyConfig_tuning {body : List (String × FormValue)} {settings : AppSettings}
    (absent : ∀ key ∈ tuningKeys, body.lookup key = none) : tuning (applyConfig settings body).1 = tuning settings := by
  have applied : tuning (applyFields body fieldMap settings []).1 = tuning settings := by
    refine applyFields_tuning fun f member inside => absent f.key ?_
    exact List.mem_map.mpr ⟨f, List.mem_filter.mpr ⟨member, by simpa using inside⟩, rfl⟩
  unfold applyConfig
  simp only
  split
  · rfl
  · split
    case h_1 left _ same => exact same ▸ applied
    case h_2 left changed same =>
      rw [same] at applied
      split
      · exact applied
      · split
        · exact applied
        · exact (tuning_set (by decide)).trans applied

end Tuning

section Supervisor

variable {s s' : PipelineSupervisor} {act : PipelineSupervisor.Act} {who : SupervisorCall}

/-- The stages of a call in the lock. -/
def fits : SupervisorCall → LockStage → Bool
  | .setActive active, .initializing _ => active
  | .setActive active, _ => !active
  | .replayStart _, .initializing _ | .restart, _ | .backoff _, _ => true
  | .replayStart _, _ | .crashed _, _ => false
  | .replayStop _, stage | .stopReplay, stage | .giveUp _, stage =>
    match stage with
    | .initializing _ => false
    | _ => true

/-- What holds of the call in the lock. -/
structure Modes (s : PipelineSupervisor) : Prop where
  stage : ∀ who stage, s.holder = some (who, stage) → fits who stage = true
  live : ∀ who stage, s.holder = some (who, stage) → internal who = true → s.replay = false
  replay : ∀ receiver stage, s.holder = some (.replayStart receiver, stage) → s.replay = true

theorem Modes.of_free (free : s.holder = none) : Modes s :=
  ⟨fun _ _ holds => absurd (free.symm.trans holds) (by simp), fun _ _ holds => absurd (free.symm.trans holds) (by simp),
    fun _ _ holds => absurd (free.symm.trans holds) (by simp)⟩

theorem Modes.beginStart (kind : fits who (.initializing (s.receiverOverride.getD (.live s.built))) = true)
    (live : internal who = true → s.replay = false) (replay : ∀ receiver, who = .replayStart receiver → s.replay = true) :
    Modes (s.beginStart who) where
  stage _ _ holds := by cases holds; exact kind
  live _ _ holds := by cases holds; exact live
  replay receiver _ holds := by cases holds; exact replay receiver rfl

theorem Modes.beginStop (kind : fits who .draining = true) (live : internal who = true → s.replay = false)
    (replay : ∀ receiver, who = .replayStart receiver → s.replay = true) : Modes (s.beginStop who) where
  stage _ _ holds := by cases holds; exact kind
  live _ _ holds := by cases holds; exact live
  replay receiver _ holds := by cases holds; exact replay receiver rfl

theorem Modes.enter (free : s.holder = none) (takes : who.takesLock = true) : Modes (s.enter who) := by
  cases who with
  | setActive active =>
    cases active with
    | true =>
      simp only [PipelineSupervisor.enter]
      split
      · exact Modes.of_free free
      · exact Modes.beginStart rfl (fun kind => by cases kind) fun _ same => by cases same
    | false =>
      simp only [PipelineSupervisor.enter]
      split
      · exact Modes.beginStop rfl (fun kind => by cases kind) fun _ same => by cases same
      · exact Modes.of_free free
  | replayStop receiver =>
    simp only [PipelineSupervisor.enter]
    split
    · exact Modes.beginStop rfl (fun kind => by cases kind) fun _ same => by cases same
    · exact Modes.of_free free
  | replayStart receiver => exact Modes.beginStart rfl (fun kind => by cases kind) fun _ _ => rfl
  | stopReplay =>
    simp only [PipelineSupervisor.enter]
    split
    · exact Modes.beginStop rfl (fun kind => by cases kind) fun _ same => by cases same
    · exact Modes.of_free free
  | restart | backoff | giveUp =>
    simp only [PipelineSupervisor.enter]
    split
    case isTrue => exact Modes.of_free free
    case isFalse live =>
      have live : s.replay = false := by simpa using (not_or.mp live).2
      exact Modes.beginStop rfl (fun _ => live) fun _ same => by cases same
  | crashed task => cases takes

theorem Modes.afterStop : Modes (s.afterStop who) := by
  cases who with
  | restart | backoff => exact Modes.beginStart rfl (fun _ => rfl) fun _ same => by cases same
  | _ => exact Modes.of_free rfl

/-- Each step of the supervisor keeps them. -/
theorem Modes.step (modes : Modes s) (goes : s.step act = some s') : Modes s' := by
  cases act with
  | setActive | startReplay | stopReplay | restart =>
    cases goes
    exact ⟨modes.stage, modes.live, modes.replay⟩
  | acquire who =>
    obtain ⟨⟨free, -, takes⟩, ⟨⟩⟩ := Option.ite_none_right_eq_some.mp goes
    exact Modes.enter free takes
  | drained =>
    simp only [PipelineSupervisor.step] at goes
    split at goes
    case h_1 who holds =>
      obtain ⟨-, ⟨⟩⟩ := Option.ite_none_right_eq_some.mp goes
      refine ⟨fun _ _ same => ?_, fun _ _ same => ?_, fun _ _ same => ?_⟩
      · cases same
        have kind := modes.stage who _ holds
        cases who <;> exact kind
      · cases same
        exact modes.live who _ holds
      · cases same
        exact modes.replay _ _ holds
    case h_2 => cases goes
  | closed ok =>
    simp only [PipelineSupervisor.step] at goes
    split at goes
    case h_1 who holds =>
      obtain ⟨-, ⟨⟩⟩ := Option.ite_none_right_eq_some.mp goes
      cases ok with
      | true => exact Modes.afterStop
      | false => exact Modes.of_free rfl
    case h_2 => cases goes
  | initialized ok built =>
    simp only [PipelineSupervisor.step] at goes
    split at goes
    case h_1 who receiver holds =>
      cases goes
      cases ok with
      | false => cases who <;> exact Modes.of_free rfl
      | true =>
        cases built with
        | false => cases who <;> exact Modes.of_free rfl
        | true => exact Modes.of_free rfl
    case h_2 => cases goes
  | taskEnds task failed =>
    obtain ⟨-, ⟨⟩⟩ := Option.ite_none_right_eq_some.mp goes
    exact ⟨modes.stage, modes.live, modes.replay⟩
  | taskDone task failed =>
    obtain ⟨-, ⟨⟩⟩ := Option.ite_none_right_eq_some.mp goes
    unfold PipelineSupervisor.onTaskDone
    split
    · exact ⟨modes.stage, modes.live, modes.replay⟩
    · split <;> exact ⟨modes.stage, modes.live, modes.replay⟩
  | crashBegins task now =>
    obtain ⟨-, ⟨⟩⟩ := Option.ite_none_right_eq_some.mp goes
    exact ⟨modes.stage, modes.live, modes.replay⟩

/-- A call of `start_replay`. -/
def startCall : SupervisorCall → Bool
  | .replayStop _ | .replayStart _ => true
  | _ => false

/-- The calls of `start_replay` that wait or are in the lock. -/
def startCalls (s : PipelineSupervisor) : Nat := (s.holder.toList.map Prod.fst ++ s.waiting).countP startCall

/-- The calls of `start_replay` that a step ends. -/
def endedStarts (s : PipelineSupervisor) (act : PipelineSupervisor.Act) : Nat :=
  ((returned s act).toList.map Prod.fst).countP startCall

theorem startCalls_free (free : s.holder = none) : startCalls s = s.waiting.countP startCall := by
  rw [startCalls, free]
  rfl

theorem startCalls_holds {stage : LockStage} (holds : s.holder = some (who, stage)) :
    startCalls s = (startCall who).toNat + s.waiting.countP startCall := by
  rw [startCalls, holds]
  cases kind : startCall who <;> simp [kind, Nat.add_comm]

/-- No call of `start_replay` ends at the lock. -/
theorem endedStarts_acquire : endedStarts s (.acquire who) = 0 := by
  cases who with
  | setActive active =>
    simp only [endedStarts, returned]
    split <;> rfl
  | stopReplay =>
    simp only [endedStarts, returned]
    split <;> rfl
  | _ => rfl

theorem startCalls_enter (free : s.holder = none) (takes : who.takesLock = true) :
    startCalls (s.enter who) = (startCall who).toNat + s.waiting.countP startCall := by
  have none : startCall who = false → startCalls s = (startCall who).toNat + s.waiting.countP startCall := by
    intro other
    rw [startCalls_free free, other, Bool.toNat_false, Nat.zero_add]
  cases who with
  | setActive active =>
    cases active <;> simp only [PipelineSupervisor.enter] <;> split
    · exact startCalls_holds rfl
    · exact none rfl
    · exact none rfl
    · exact startCalls_holds rfl
  | replayStop receiver =>
    simp only [PipelineSupervisor.enter]
    split
    · exact startCalls_holds rfl
    · have one : startCalls { s with waiting := .replayStart receiver :: s.waiting } = _ := startCalls_free free
      exact one.trans ((List.countP_cons_of_pos rfl).trans (Nat.add_comm _ 1))
  | replayStart receiver => exact startCalls_holds rfl
  | stopReplay =>
    simp only [PipelineSupervisor.enter]
    split
    · exact startCalls_holds rfl
    · exact none rfl
  | restart | backoff | giveUp =>
    simp only [PipelineSupervisor.enter]
    split
    · exact none rfl
    · exact startCalls_holds rfl
  | crashed task => cases takes

theorem startCalls_afterStop (kind : fits who .closing = true) :
    startCalls (s.afterStop who) = (startCall who).toNat + s.waiting.countP startCall := by
  have none : startCalls s.stopped = s.waiting.countP startCall := startCalls_free rfl
  cases who with
  | replayStop receiver =>
    have one : startCalls (s.afterStop (.replayStop receiver)) = _ := startCalls_free rfl
    exact one.trans ((List.countP_cons_of_pos rfl).trans (Nat.add_comm _ 1))
  | restart | backoff => exact startCalls_holds rfl
  | replayStart | crashed => cases kind
  | setActive | stopReplay | giveUp => exact none.trans (Nat.zero_add _).symm

theorem startCalls_startRaises : startCalls (s.startRaises who) = s.waiting.countP startCall := by
  cases who <;> exact startCalls_free rfl

theorem startCalls_initialized {receiver : PipelineReceiver} {ok built : Bool} :
    startCalls (s.initialized who receiver ok built) = s.waiting.countP startCall := by
  cases ok with
  | false => exact startCalls_startRaises
  | true =>
    cases built with
    | false => exact startCalls_startRaises
    | true => exact startCalls_free rfl

/-- A step of the supervisor ends the calls of `start_replay` that return or
raise, and no other goes. -/
theorem startCalls_step (modes : Modes s) (goes : s.step act = some s')
    (own : ∀ receiver, act ≠ .startReplay receiver) : startCalls s' + endedStarts s act = startCalls s := by
  cases act with
  | startReplay receiver => exact absurd rfl (own receiver)
  | setActive | stopReplay | restart =>
    cases goes
    simp [startCalls, endedStarts, returned, startCall]
  | acquire who =>
    obtain ⟨⟨free, member, takes⟩, ⟨⟩⟩ := Option.ite_none_right_eq_some.mp goes
    have rest : s.waiting.countP startCall = (startCall who).toNat + (s.waiting.erase who).countP startCall := by
      rw [(List.perm_cons_erase member).countP_eq, List.countP_cons]
      cases startCall who <;> simp [Nat.add_comm]
    have entered := startCalls_enter (s := { s with waiting := s.waiting.erase who }) free takes
    rw [endedStarts_acquire, Nat.add_zero, startCalls_free free, rest]
    exact entered
  | drained =>
    simp only [PipelineSupervisor.step] at goes
    split at goes
    case h_1 who holds =>
      obtain ⟨-, ⟨⟩⟩ := Option.ite_none_right_eq_some.mp goes
      exact (startCalls_holds rfl).trans (startCalls_holds holds).symm
    case h_2 => cases goes
  | closed ok =>
    simp only [PipelineSupervisor.step] at goes
    split at goes
    case h_1 who holds =>
      obtain ⟨-, ⟨⟩⟩ := Option.ite_none_right_eq_some.mp goes
      have kind := modes.stage who _ holds
      rw [startCalls_holds holds]
      cases ok with
      | true =>
        have none : endedStarts s (.closed true) = 0 := by
          simp only [endedStarts, returned, holds]
          cases who <;> rfl
        rw [none]
        exact startCalls_afterStop kind
      | false =>
        have one : endedStarts s (.closed false) = (startCall who).toNat := by
          simp only [endedStarts, returned, holds]
          cases who <;> rfl
        rw [one, Nat.add_comm]
        exact congrArg _ (startCalls_free rfl)
    case h_2 => cases goes
  | initialized ok built =>
    simp only [PipelineSupervisor.step] at goes
    split at goes
    case h_1 who receiver holds =>
      cases goes
      have one : endedStarts s (.initialized ok built) = (startCall who).toNat := by
        simp only [endedStarts, returned, holds]
        cases who <;> rfl
      rw [startCalls_holds holds, one, Nat.add_comm, startCalls_initialized]
    case h_2 => cases goes
  | taskEnds task failed =>
    obtain ⟨-, ⟨⟩⟩ := Option.ite_none_right_eq_some.mp goes
    rfl
  | taskDone task failed =>
    obtain ⟨-, ⟨⟩⟩ := Option.ite_none_right_eq_some.mp goes
    unfold PipelineSupervisor.onTaskDone
    split
    · rfl
    · split
      · simp [startCalls, endedStarts, returned, startCall]
      · rfl
  | crashBegins task now =>
    obtain ⟨member, ⟨⟩⟩ := Option.ite_none_right_eq_some.mp goes
    have rest : s.waiting.countP startCall = (s.waiting.erase (.crashed task)).countP startCall := by
      rw [(List.perm_cons_erase member).countP_eq]
      exact List.countP_cons_of_neg Bool.false_ne_true
    have kept : ∀ holder : Option (SupervisorCall × LockStage), ∀ who, startCall who = false →
        (holder.toList.map Prod.fst ++ who :: s.waiting.erase (.crashed task)).countP startCall =
          (holder.toList.map Prod.fst ++ s.waiting).countP startCall := by
      intro holder who other
      rw [List.countP_append, List.countP_append, List.countP_cons_of_neg (by simp [other]), rest]
    exact kept s.holder _ ((apply_ite startCall _ _ _).trans (ite_self _))

/-- A replay in the supervisor goes on, unless a call that stops it is at its end
or another replay is to start. -/
theorem replayStatus_step (modes : Modes s) (goes : s.step act = some s') (status : replayStatus s = true) :
    replayStatus s' = true ∨ returned s act = some (.setActive false, true) ∨
      returned s act = some (.stopReplay, true) ∨ 0 < startCalls s' := by
  have same : ∀ {s' : PipelineSupervisor}, s'.replay = s.replay → s'.receiver = s.receiver → replayStatus s' = true := by
    intro s' mode given
    rw [replayStatus, mode, given]
    exact status
  obtain ⟨replaying, given⟩ := Bool.and_eq_true_iff.mp status
  cases act with
  | setActive | startReplay | stopReplay | restart =>
    cases goes
    exact Or.inl status
  | acquire who =>
    obtain ⟨-, ⟨⟩⟩ := Option.ite_none_right_eq_some.mp goes
    cases who with
    | setActive active =>
      left
      cases active <;> simp only [PipelineSupervisor.enter] <;> split <;> exact status
    | stopReplay =>
      simp only [PipelineSupervisor.enter]
      by_cases active : s.active = true
      · rw [if_pos active]
        exact Or.inl status
      · refine Or.inr (Or.inr (Or.inl ?_))
        rw [returned, if_neg active]
    | replayStart receiver => exact Or.inl given
    | replayStop | restart | backoff | giveUp =>
      left
      simp only [PipelineSupervisor.enter]
      split <;> exact status
    | crashed => exact Or.inl status
  | drained =>
    simp only [PipelineSupervisor.step] at goes
    split at goes
    case h_1 who holds =>
      obtain ⟨-, ⟨⟩⟩ := Option.ite_none_right_eq_some.mp goes
      exact Or.inl status
    case h_2 => cases goes
  | closed ok =>
    simp only [PipelineSupervisor.step] at goes
    split at goes
    case h_1 who holds =>
      obtain ⟨-, ⟨⟩⟩ := Option.ite_none_right_eq_some.mp goes
      cases ok with
      | false => exact Or.inl status
      | true =>
        have kind := modes.stage who _ holds
        have live := modes.live who _ holds
        cases who with
        | setActive active =>
          cases active with
          | true => cases kind
          | false => exact Or.inr (Or.inl (by simp only [returned, holds]))
        | stopReplay => exact Or.inr (Or.inr (Or.inl (by simp only [returned, holds])))
        | replayStop receiver =>
          have counts := startCalls_afterStop (s := s) kind
          refine Or.inr (Or.inr (Or.inr ?_))
          rw [if_pos rfl, counts, startCall, Bool.toNat_true]
          omega
        | replayStart | crashed => cases kind
        | restart | backoff | giveUp => exact absurd replaying (by rw [live rfl]; decide)
    case h_2 => cases goes
  | initialized ok built =>
    simp only [PipelineSupervisor.step] at goes
    split at goes
    case h_1 who receiver holds =>
      cases goes
      left
      cases ok with
      | false => cases who <;> exact status
      | true =>
        cases built with
        | false => cases who <;> exact status
        | true => exact Bool.and_eq_true_iff.mpr ⟨replaying, rfl⟩
    case h_2 => cases goes
  | taskEnds task failed =>
    obtain ⟨-, ⟨⟩⟩ := Option.ite_none_right_eq_some.mp goes
    exact Or.inl status
  | taskDone task failed =>
    obtain ⟨-, ⟨⟩⟩ := Option.ite_none_right_eq_some.mp goes
    unfold PipelineSupervisor.onTaskDone
    left
    split
    · exact status
    · split <;> exact status
  | crashBegins task now =>
    obtain ⟨-, ⟨⟩⟩ := Option.ite_none_right_eq_some.mp goes
    exact Or.inl status

/-- What a step leaves that ends a call. -/
structure Ended (s s' : PipelineSupervisor) (who : SupervisorCall) (ok : Bool) : Prop where
  active : ∀ active, who = .setActive active → ok = true → s'.active = active
  stopped : who = .stopReplay → ok = true → s'.active = false
  raised : ok = false → s'.active = s.active
  started : startCall who = true → ok = true → replayStatus s' = true

theorem Ended.raise (same : s'.active = s.active) : Ended s s' who false :=
  ⟨fun _ _ => nofun, fun _ => nofun, fun _ => same, fun _ => nofun⟩

theorem Ended.set {active : Bool} (set : s'.active = active) : Ended s s' (.setActive active) true where
  active _ same _ := by cases same; exact set
  stopped := nofun
  raised := nofun
  started := nofun

theorem Ended.stop (off : s'.active = false) : Ended s s' .stopReplay true where
  active := nofun
  stopped _ _ := off
  raised := nofun
  started := nofun

theorem Ended.of_step {ok : Bool} (modes : Modes s) (goes : s.step act = some s')
    (ends : returned s act = some (who, ok)) : Ended s s' who ok := by
  cases act with
  | setActive | startReplay | stopReplay | restart | drained | taskEnds | taskDone | crashBegins => cases ends
  | acquire call =>
    obtain ⟨-, ⟨⟩⟩ := Option.ite_none_right_eq_some.mp goes
    cases call with
    | setActive active =>
      obtain ⟨here, ⟨⟩⟩ := Option.ite_none_right_eq_some.mp ends
      refine Ended.set ?_
      cases active <;> simp [PipelineSupervisor.enter, here]
    | stopReplay =>
      obtain ⟨off, ⟨⟩⟩ := Option.ite_none_left_eq_some.mp ends
      refine Ended.stop ?_
      simp [PipelineSupervisor.enter, off]
    | replayStop | replayStart | restart | crashed | backoff | giveUp => cases ends
  | closed done =>
    simp only [PipelineSupervisor.step] at goes
    split at goes
    case h_1 call holds =>
      obtain ⟨-, ⟨⟩⟩ := Option.ite_none_right_eq_some.mp goes
      have kind := modes.stage call _ holds
      cases done with
      | false =>
        simp only [returned, holds] at ends
        cases ends
        exact Ended.raise rfl
      | true =>
        simp only [returned, holds] at ends
        cases call with
        | setActive active =>
          cases ends
          cases active with
          | true => cases kind
          | false => exact Ended.set rfl
        | stopReplay =>
          cases ends
          exact Ended.stop rfl
        | replayStop | replayStart | restart | crashed | backoff | giveUp => cases ends
    case h_2 => cases goes
  | initialized done built =>
    simp only [PipelineSupervisor.step] at goes
    split at goes
    case h_1 call receiver holds =>
      cases goes
      have kind := modes.stage call _ holds
      simp only [returned, holds] at ends
      cases ends
      have raises : ∀ t : PipelineSupervisor, t.active = s.active → Ended s (t.startRaises who) who false := by
        intro t same
        exact Ended.raise (by cases who <;> exact same)
      cases done with
      | false => exact raises s rfl
      | true =>
        cases built with
        | false => exact raises _ rfl
        | true =>
          cases who with
          | setActive active =>
            cases active with
            | true => exact Ended.set rfl
            | false => cases kind
          | replayStart given =>
            have status : replayStatus ({ s with opened := receiver :: s.opened }.started (.replayStart given) receiver)
                = true := Bool.and_eq_true_iff.mpr ⟨modes.replay given _ holds, rfl⟩
            exact ⟨nofun, nofun, nofun, fun _ _ => status⟩
          | restart | backoff => exact ⟨nofun, nofun, nofun, nofun⟩
          | replayStop | stopReplay | giveUp | crashed => cases kind
    case h_2 => cases goes

end Supervisor

section Routes

variable {s s' : AppState}

/-- No trace of a replay. `.env` has the tuning that was live when it was
written, the settings have the live one while no replay runs, and replay stops
and failed starts leave the sensor as it was when their session began. -/
structure AppState.NoTrace (s : AppState) : Prop where
  env : tuning s.env = s.envLive
  settings : s.running = false → tuning s.settings = s.live
  ends : ∀ e ∈ s.ends, ∀ began ∈ e.1, e.2 = began

/-- `apply_config` goes on to persist. -/
def changes : Except String (List String) → Bool
  | .ok (_ :: _) => true
  | _ => false

/-- How a request may find its call ended: a sensor request and a replay stop
that returned, or a replay start that raised. -/
def AppState.ClearEnd (s : AppState) : Request → Bool → Prop
  | .sensor _, true => s.snapshot = none
  | .starting _, false => s.began = some s.supervisor.active
  | .stopping, true => s.snapshot = none → s.began ≠ some true
  | _, _ => True

instance AppState.ClearEnd.decidable (s : AppState) : ∀ request ok, Decidable (s.ClearEnd request ok)
  | .sensor _, true => inferInstanceAs (Decidable (s.snapshot = none))
  | .starting _, false => inferInstanceAs (Decidable (s.began = some s.supervisor.active))
  | .stopping, true => inferInstanceAs (Decidable (s.snapshot = none → s.began ≠ some true))
  | .sensor _, false | .starting _, true | .stopping, false | .apply _, _ | .activating _, _ | .storagePath, _ =>
    isTrue trivial

/-- The steps that leave none: `.env` is not written while a snapshot is held, a
replay start fails with the sensor as its session began and has a finite center,
a replay stop without a snapshot follows a session that began inactive, and no
replay goes on without a snapshot when another starts or a tuning is applied. -/
def AppState.Clear (s : AppState) : AppState.Act → Prop
  | .sensor want => want = false → s.snapshot = none
  | .applyBody replaying body => ∀ fields ∈ body,
    (changes (applyConfig s.settings fields).2 = true → replaying = false → s.snapshot = none) ∧
      (s.running = true → s.snapshot = none → ∀ key ∈ tuningKeys, fields.lookup key = none)
  | .replayStart capture => capture.center.isSome = true ∧ (s.running = true → s.snapshot ≠ none)
  | .storageMoved ok => ok = true → s.snapshot = none
  | .zms _ => s.snapshot = none
  | .toneCheck _ _ _ ok => ok = true → s.snapshot = none
  | .arm _ => replayStatus s.supervisor = true ∨ s.snapshot = none
  | .supervisor act (some request) => ∀ call ∈ returned s.supervisor act, s.ClearEnd request call.2
  | .apply | .replayStop | .storagePath _ _ | .supervisor _ none => True

instance AppState.Clear.decidable (s : AppState) : ∀ act, Decidable (s.Clear act)
  | .sensor want => inferInstanceAs (Decidable (want = false → s.snapshot = none))
  | .applyBody replaying body => inferInstanceAs (Decidable (∀ fields ∈ body,
    (changes (applyConfig s.settings fields).2 = true → replaying = false → s.snapshot = none) ∧
      (s.running = true → s.snapshot = none → ∀ key ∈ tuningKeys, fields.lookup key = none)))
  | .replayStart capture => inferInstanceAs (Decidable (capture.center.isSome = true ∧ (s.running = true → s.snapshot ≠ none)))
  | .storageMoved ok => inferInstanceAs (Decidable (ok = true → s.snapshot = none))
  | .zms _ => inferInstanceAs (Decidable (s.snapshot = none))
  | .toneCheck _ _ _ ok => inferInstanceAs (Decidable (ok = true → s.snapshot = none))
  | .arm _ => inferInstanceAs (Decidable (replayStatus s.supervisor = true ∨ s.snapshot = none))
  | .supervisor act (some request) =>
    inferInstanceAs (Decidable (∀ call ∈ returned s.supervisor act, s.ClearEnd request call.2))
  | .apply | .replayStop | .storagePath _ _ | .supervisor _ none => isTrue trivial

/-- What clear steps keep. -/
structure AppState.Kept (s : AppState) : Prop where
  env : tuning s.env = s.envLive
  keys : s.live.map Prod.fst = snapshotFields
  free : s.snapshot = none → tuning s.settings = s.live
  held : ∀ snap prior, s.snapshot = some (snap, prior) → snap = s.live ∧ s.began = some prior
  session : s.snapshot ≠ none → replayStatus s.supervisor = true ∨ 0 < startCalls s.supervisor
  activating : ∀ began, .activating began ∈ s.requests → began = some true
  ends : ∀ e ∈ s.ends, ∀ began ∈ e.1, e.2 = began
  starts : startCalls s.supervisor = s.requests.countP Request.isStarting
  modes : Modes s.supervisor

namespace AppState

theorem Kept.running_iff (kept : s.Kept) :
    s.running = true ↔ replayStatus s.supervisor = true ∨ 0 < startCalls s.supervisor := by
  rw [running, Bool.or_eq_true, kept.starts, List.countP_pos_iff, List.any_eq_true]

theorem Kept.noTrace (kept : s.Kept) : s.NoTrace where
  env := kept.env
  settings stopped := by
    refine kept.free (by_contra fun held => ?_)
    rw [kept.running_iff.mpr (kept.session held)] at stopped
    cases stopped
  ends := kept.ends

theorem Kept.set (kept : s.Kept) {settings : AppSettings} (same : tuning settings = tuning s.settings) :
    { s with settings }.Kept :=
  { kept with free := fun none => same.trans (kept.free none) }

theorem Kept.persist (kept : s.Kept) (none : s.snapshot = none) : s.persist.Kept :=
  { kept with env := kept.free none }

/-- Other requests come and go. -/
theorem Kept.requests (kept : s.Kept) {requests : List Request}
    (starts : requests.countP Request.isStarting = s.requests.countP Request.isStarting)
    (activating : ∀ began, .activating began ∈ requests → .activating began ∈ s.requests) : { s with requests }.Kept :=
  { kept with
    starts := kept.starts.trans starts.symm
    activating := fun began member => kept.activating began (activating began member) }

theorem Kept.erase (kept : s.Kept) {request : Request} (other : request.isStarting = false) :
    { s with requests := s.requests.erase request }.Kept := by
  refine kept.requests ?_ fun began member => List.mem_of_mem_erase member
  by_cases member : request ∈ s.requests
  · rw [(List.perm_cons_erase member).countP_eq, List.countP_cons_of_neg (by simp [other])]
  · rw [List.erase_of_not_mem member]

theorem Kept.call (kept : s.Kept) {who : SupervisorCall} {request : Request}
    (kind : startCall who = request.isStarting) (activating : ∀ began, request = .activating began → began = some true) :
    (s.call who request).Kept := by
  have one : startCalls (s.call who request).supervisor = (startCall who).toNat + startCalls s.supervisor := by
    simp only [AppState.call, startCalls, List.countP_append, List.countP_cons]
    cases startCall who
    · simp
    · simp
      omega
  refine { kept with session := fun held => ?_, activating := ?_, starts := ?_, modes := ?_ }
  · rcases kept.session held with status | calls
    · exact Or.inl status
    · exact Or.inr (by omega)
  · rintro began (_ | ⟨_, member⟩)
    · exact activating began rfl
    · exact kept.activating began member
  · rw [one, kept.starts, kind, AppState.call, List.countP_cons]
    cases request.isStarting <;> simp [Nat.add_comm]
  · exact ⟨kept.modes.stage, kept.modes.live, kept.modes.replay⟩

theorem Kept.ended (kept : s.Kept) {began : Option Bool} (same : ∀ b ∈ began, s.supervisor.active = b) :
    (s.ended began).Kept := by
  refine { kept with ends := ?_ }
  rintro e (_ | ⟨_, member⟩)
  · exact same
  · exact kept.ends e member

theorem Kept.replayStart (kept : s.Kept) {capture : Capture} (finite : capture.center.isSome = true)
    (held : s.running = true → s.snapshot ≠ none) : (s.replayStart capture).Kept := by
  have kind : startCall (if s.supervisor.active then .replayStop capture.receiver else .replayStart capture.receiver) =
      true := by
    split <;> rfl
  have called : (s.call _ (.starting capture.receiver)).Kept := kept.call kind nofun
  have one := called.starts
  rw [AppState.call, List.countP_cons_of_pos rfl] at one
  unfold AppState.replayStart
  simp only
  rw [if_pos finite]
  refine { called with free := fun none => ?_, held := fun snap prior its => ?_, session := fun _ => Or.inr ?_ }
  · cases before : s.snapshot <;> simp [AppState.call, before] at none
  · by_cases running : s.running = true
    · obtain ⟨⟨old, was⟩, before⟩ := Option.ne_none_iff_exists'.mp (held running)
      simp only [AppState.call, before, Option.some_or, Option.some.injEq, Prod.mk.injEq] at its
      obtain ⟨rfl, rfl⟩ := its
      obtain ⟨live, began⟩ := kept.held old was before
      exact ⟨live, (if_pos running).trans began⟩
    · have before : s.snapshot = none := by_contra fun held => running (kept.running_iff.mpr (kept.session held))
      simp only [AppState.call, before, Option.none_or, Option.some.injEq, Prod.mk.injEq] at its
      obtain ⟨rfl, rfl⟩ := its
      exact ⟨kept.free before, if_neg running⟩
  · exact one ▸ Nat.succ_pos _

theorem Kept.applyBody (kept : s.Kept) {replaying : Bool} {body : Option (List (String × FormValue))}
    (clear : s.Clear (.applyBody replaying body)) : (s.applyBody replaying body).Kept := by
  cases body with
  | none => exact kept
  | some fields =>
    obtain ⟨writes, edits⟩ := clear fields rfl
    have applied : { s with
        settings := (applyConfig s.settings fields).1
        live := if s.running then s.live else tuning (applyConfig s.settings fields).1 }.Kept := by
      by_cases running : s.running = true
      · rw [if_pos running]
        refine { kept with free := fun none => ?_ }
        exact (applyConfig_tuning (edits running none)).trans (kept.free none)
      · have none : s.snapshot = none := by_contra fun held => running (kept.running_iff.mpr (kept.session held))
        rw [if_neg running]
        refine { kept with keys := tuning_keys _, free := fun _ => rfl, held := fun snap prior held => ?_ }
        exact absurd (none.symm.trans held) (by simp)
    simp only [AppState.applyBody]
    split
    case h_1 attr changed result =>
      cases replaying with
      | true => exact applied
      | false => exact applied.persist (writes (by rw [result]; rfl) rfl)
    case h_2 => exact applied

/-- The step of a call that returned or raised, with what is left to show of the request. -/
theorem stepSupervisor_cases {act : PipelineSupervisor.Act} {resumes : Option Request}
    (goes : s.stepSupervisor act resumes = some s') :
    (∀ receiver, act ≠ .startReplay receiver) ∧ ∃ supervisor, s.supervisor.step act = some supervisor ∧
      ((resumes = none ∧ (∀ who ok, returned s.supervisor act = some (who, ok) → internal who = true) ∧
          s' = { s with supervisor }) ∨
        ∃ who ok request, resumes = some request ∧ returned s.supervisor act = some (who, ok) ∧ request ∈ s.requests ∧
          request.awaits who = true ∧
          s' = { s with supervisor, requests := s.requests.erase request }.resume request ok) := by
  unfold AppState.stepSupervisor at goes
  split at goes
  case h_1 => cases goes
  case h_2 => cases goes
  case h_3 => cases goes
  case h_4 noSet own noStop =>
    refine ⟨own, ?_⟩
    obtain ⟨supervisor, taken, goes⟩ := Option.bind_eq_some_iff.mp goes
    refine ⟨supervisor, taken, ?_⟩
    cases ends : returned s.supervisor act with
    | none =>
      rw [ends] at goes
      cases resumes with
      | none =>
        cases goes
        exact Or.inl ⟨rfl, nofun, rfl⟩
      | some request => cases goes
    | some call =>
      obtain ⟨who, ok⟩ := call
      rw [ends] at goes
      cases resumes with
      | none =>
        obtain ⟨own, ⟨⟩⟩ := Option.ite_none_right_eq_some.mp goes
        exact Or.inl ⟨rfl, fun who' ok' same => by cases same; exact own, rfl⟩
      | some request =>
        obtain ⟨⟨member, awaits⟩, ⟨⟩⟩ := Option.ite_none_right_eq_some.mp goes
        exact Or.inr ⟨who, ok, request, rfl, rfl, member, awaits, rfl⟩

/-- The part of the invariant that the end of a call leaves. -/
theorem Kept.endedCall (kept : s.Kept) {act : PipelineSupervisor.Act} {supervisor : PipelineSupervisor}
    (taken : s.supervisor.step act = some supervisor) (own : ∀ receiver, act ≠ .startReplay receiver)
    {who : SupervisorCall} {ok : Bool} (ends : returned s.supervisor act = some (who, ok)) {request : Request}
    (member : request ∈ s.requests) (kind : startCall who = request.isStarting)
    (session : s.snapshot ≠ none → (who = .setActive false → ok = false) ∧ (who = .stopReplay → ok = false) ∧
      (startCall who = true → ok = true)) :
    { s with supervisor, requests := s.requests.erase request }.Kept := by
  have counted := startCalls_step kept.modes taken own
  have one : endedStarts s.supervisor act = (startCall who).toNat := by
    rw [endedStarts, ends]
    cases its : startCall who <;> simp [its]
  have others : s.requests.countP Request.isStarting =
      (startCall who).toNat + (s.requests.erase request).countP Request.isStarting := by
    rw [(List.perm_cons_erase member).countP_eq, List.countP_cons, kind]
    cases request.isStarting <;> simp [Nat.add_comm]
  have starts := kept.starts
  refine { kept with session := fun held => ?_, activating := ?_, starts := ?_, modes := kept.modes.step taken }
  · obtain ⟨off, stop, started⟩ := session held
    rcases kept.session held with status | calls
    · rcases replayStatus_step kept.modes taken status with status | its | its | calls
      · exact Or.inl status
      · cases ends.symm.trans its
        cases off rfl
      · cases ends.symm.trans its
        cases stop rfl
      · exact Or.inr calls
    · cases its : startCall who with
      | true => exact Or.inl ((Ended.of_step kept.modes taken ends).started its (started its))
      | false =>
        rw [its, Bool.toNat_false] at one
        exact Or.inr (by simp only; omega)
  · exact fun began inside => kept.activating began (List.mem_of_mem_erase inside)
  · simp only
    omega

/-- A step that ends no call of a request. -/
theorem Kept.internal (kept : s.Kept) {act : PipelineSupervisor.Act} {supervisor : PipelineSupervisor}
    (taken : s.supervisor.step act = some supervisor) (own : ∀ receiver, act ≠ .startReplay receiver)
    (internals : ∀ who ok, returned s.supervisor act = some (who, ok) → internal who = true) :
    { s with supervisor }.Kept := by
  have counted := startCalls_step kept.modes taken own
  have none : endedStarts s.supervisor act = 0 := by
    cases ends : returned s.supervisor act with
    | none => rw [endedStarts, ends]; rfl
    | some call =>
      obtain ⟨who, ok⟩ := call
      have its := internals who ok ends
      rw [endedStarts, ends]
      cases who <;> first | rfl | cases its
  rw [none, Nat.add_zero] at counted
  refine { kept with session := fun held => ?_, starts := counted.trans kept.starts, modes := kept.modes.step taken }
  rcases kept.session held with status | calls
  · rcases replayStatus_step kept.modes taken status with status | its | its | calls
    · exact Or.inl status
    · cases internals _ _ its
    · cases internals _ _ its
    · exact Or.inr calls
  · exact Or.inr (counted ▸ calls)

/-- The settings of the snapshot again. -/
theorem Kept.restore (kept : s.Kept) {snap : Tuning} {prior : Bool} (held : s.snapshot = some (snap, prior)) :
    { s with settings := assign s.settings snap, snapshot := none }.Kept := by
  obtain ⟨rfl, -⟩ := kept.held snap prior held
  exact { kept with free := fun _ => tuning_assign kept.keys, held := nofun, session := fun none => absurd rfl none }

/-- A request goes on after the end of its call. -/
theorem Kept.resume (kept : s.Kept) {act : PipelineSupervisor.Act} {supervisor : PipelineSupervisor}
    (taken : s.supervisor.step act = some supervisor) (own : ∀ receiver, act ≠ .startReplay receiver)
    {who : SupervisorCall} {ok : Bool} (ends : returned s.supervisor act = some (who, ok)) {request : Request}
    (member : request ∈ s.requests) (awaits : request.awaits who = true) (clear : s.Clear (.supervisor act (some request))) :
    ({ s with supervisor, requests := s.requests.erase request }.resume request ok).Kept := by
  have clear := clear (who, ok) ends
  have left := Ended.of_step kept.modes taken ends
  cases request with
  | apply | storagePath => cases who <;> cases awaits
  | sensor want =>
    obtain ⟨active, rfl⟩ : ∃ active, who = .setActive active := by cases who <;> first | exact ⟨_, rfl⟩ | cases awaits
    cases ok with
    | true =>
      have free : s.snapshot = none := clear
      have back := kept.endedCall taken own ends member rfl fun held => absurd free held
      have set : { s with
          supervisor
          requests := s.requests.erase (.sensor want)
          settings := update s.settings (.sensor supervisor.active) }.Kept := back.set (tuning_set (by decide))
      exact set.persist free
    | false => exact kept.endedCall taken own ends member rfl fun _ => ⟨fun _ => rfl, nofun, nofun⟩
  | starting receiver =>
    have call : startCall who = true := by cases who <;> first | rfl | cases awaits
    cases ok with
    | true =>
      refine kept.endedCall taken own ends member call fun _ => ⟨fun same => ?_, fun same => ?_, fun _ => rfl⟩
      · cases same
        cases call
      · cases same
        cases call
    | false =>
      have same : ∀ b ∈ s.began, supervisor.active = b := by
        intro b began
        cases (show s.began = some s.supervisor.active from clear).symm.trans began
        exact left.raised rfl
      simp only [AppState.resume, AppState.replayFailed]
      split
      case h_1 free =>
        exact (kept.endedCall taken own ends member call fun held => absurd free held).ended same
      case h_2 snap prior held =>
        exact ((kept.restore held).endedCall taken own ends member call fun none => absurd rfl none).ended same
  | stopping =>
    obtain rfl : who = .stopReplay := by cases who <;> first | rfl | cases awaits
    cases ok with
    | false => exact kept.endedCall taken own ends member rfl fun _ => ⟨nofun, fun _ => rfl, nofun⟩
    | true =>
      have off := left.stopped rfl rfl
      simp only [AppState.resume, AppState.replayStopped]
      split
      case h_1 free =>
        refine (kept.endedCall taken own ends member rfl fun held => absurd free held).ended fun b began => ?_
        cases b with
        | true => exact absurd began (clear free)
        | false => exact off
      case h_2 snap prior held =>
        obtain ⟨-, began⟩ := kept.held snap prior held
        have restored := ((kept.restore held).endedCall taken own ends member rfl fun none => absurd rfl none).persist rfl
        cases prior with
        | true => exact restored.call rfl fun _ same => by cases same; exact began
        | false =>
          refine restored.ended fun b its => ?_
          cases began.symm.trans its
          exact off
  | activating began =>
    obtain rfl : who = .setActive true := by
      cases who with
      | setActive active => cases active <;> first | rfl | cases awaits
      | _ => cases awaits
    have back := kept.endedCall taken own ends member rfl fun _ => ⟨nofun, nofun, nofun⟩
    cases ok with
    | false => exact back
    | true =>
      refine back.ended fun b its => ?_
      cases (kept.activating began member).symm.trans its
      exact left.active true rfl rfl

/-- Clear steps keep it. -/
theorem Kept.step (kept : s.Kept) {act : Act} (clear : s.Clear act) (goes : s.step act = some s') : s'.Kept := by
  cases act with
  | sensor want =>
    cases want with
    | true =>
      cases goes
      exact kept.call rfl nofun
    | false =>
      cases goes
      exact ((kept.set (tuning_set (by decide))).persist (clear rfl)).call rfl nofun
  | apply =>
    cases goes
    refine kept.requests (List.countP_cons_of_neg Bool.false_ne_true) ?_
    rintro began (_ | ⟨_, member⟩)
    exact member
  | applyBody replaying body =>
    obtain ⟨-, ⟨⟩⟩ := Option.ite_none_right_eq_some.mp goes
    have erased : { s with requests := s.requests.erase (.apply replaying) }.Kept := kept.erase rfl
    refine erased.applyBody fun fields given => ?_
    obtain ⟨writes, edits⟩ := clear fields given
    exact ⟨writes, fun running => edits (kept.running_iff.mpr (erased.running_iff.mp running))⟩
  | replayStart capture =>
    cases goes
    exact kept.replayStart clear.1 clear.2
  | replayStop =>
    cases goes
    exact kept.call rfl nofun
  | storagePath path writable =>
    have set : { s with settings := update s.settings (.storagePath path writable) }.Kept := by
      refine kept.set ?_
      simp only [update]
      split
      · exact tuning_set (by decide)
      · rfl
    simp only [AppState.step] at goes
    split at goes
    · cases goes
      refine set.requests (List.countP_cons_of_neg Bool.false_ne_true) ?_
      rintro began (_ | ⟨_, member⟩)
      exact member
    · cases goes
      exact kept
  | storageMoved ok =>
    obtain ⟨-, ⟨⟩⟩ := Option.ite_none_right_eq_some.mp goes
    have erased : { s with requests := s.requests.erase .storagePath }.Kept := kept.erase rfl
    cases ok with
    | true => exact erased.persist (clear rfl)
    | false => exact erased
  | zms enabled =>
    cases goes
    exact (kept.set (tuning_set (by decide))).persist clear
  | toneCheck enabled freqHz thresholdDb ok =>
    cases goes
    have set : { s with settings := update s.settings (.toneCheck enabled freqHz thresholdDb) }.Kept :=
      kept.set ((tuning_setIf (by decide)).trans ((tuning_setIf (by decide)).trans (tuning_setIf (by decide))))
    cases ok with
    | true => exact set.persist (clear rfl)
    | false => exact set
  | arm armed =>
    cases goes
    have set : { s with settings := update s.settings (.arm armed) }.Kept := kept.set (tuning_set (by decide))
    by_cases status : replayStatus s.supervisor = true
    · simp only [status, if_true]
      exact set
    · simp only [status, Bool.false_eq_true, if_false]
      exact set.persist (clear.resolve_left status)
  | supervisor act resumes =>
    obtain ⟨own, supervisor, taken, ⟨rfl, internals, rfl⟩ | ⟨who, ok, request, rfl, ends, member, awaits, rfl⟩⟩ :=
      stepSupervisor_cases goes
    · exact kept.internal taken own internals
    · exact kept.resume taken own ends member awaits clear

/-- The runs of the routes from a start of the process, with the sensor active or
not, whose steps all meet a condition. -/
def Reach (settings : AppSettings) (active : Bool) (allowed : AppState → Act → Prop) : AppState → Prop :=
  Runs.Reach step (first settings active) allowed

theorem first_kept (settings : AppSettings) (active : Bool) : (first settings active).Kept where
  env := rfl
  keys := tuning_keys settings
  free _ := rfl
  held := nofun
  session held := absurd rfl held
  activating := nofun
  ends := nofun
  starts := by cases active <;> rfl
  modes := by cases active <;> exact Modes.of_free rfl

/-- Clear runs leave no trace of a replay. -/
theorem Reach.leaves_no_trace {settings : AppSettings} {active : Bool} (reach : Reach settings active Clear s) :
    s.NoTrace :=
  (Runs.Reach.invariant (first_kept settings active) (fun _ _ _ kept clear goes => kept.step clear goes) reach).noTrace

def captureAt (center : ℤ) : Capture := ⟨.replay 0, 1000000, some center, 30⟩

def defaults : AppSettings := AppSettings.create "pi".toList []

/-- An active sensor, a replay in which the trigger is armed, and its stop. -/
def replayed : List Act :=
  [.replayStart (captureAt 915000000), .supervisor (.acquire (.replayStop (.replay 0))) none,
    .supervisor (.taskEnds 0 false) none, .supervisor (.taskDone 0 false) none, .supervisor .drained none,
    .supervisor (.closed true) none, .supervisor (.acquire (.replayStart (.replay 0))) none,
    .supervisor (.initialized true true) (some (.starting (.replay 0))), .arm true, .replayStop,
    .supervisor (.acquire .stopReplay) none, .supervisor (.taskEnds 1 false) none,
    .supervisor (.taskDone 1 false) none, .supervisor .drained none, .supervisor (.closed true) (some .stopping),
    .supervisor (.acquire (.setActive true)) none,
    .supervisor (.initialized true true) (some (.activating (some true)))]

theorem Reach.leaves_no_trace_replayed :
    ∃ s, Reach defaults true Clear s ∧ s.ends = [(some true, true)] ∧ s.env "TRIGGER_CONTINUOUS" = .bool true ∧
      s.NoTrace := by
  have goes : (Runs.follow step (first defaults true) replayed).map (fun s => (s.ends, s.env "TRIGGER_CONTINUOUS")) =
      some ([(some true, true)], .bool true) := by
    decide +kernel
  obtain ⟨s, taken, same⟩ := Option.map_eq_some_iff.mp goes
  obtain ⟨ends, env⟩ := Prod.mk.inj same
  have reach : Reach defaults true Clear s := Runs.Reach.start.follow (by decide +kernel) taken
  exact ⟨s, reach, ends, env, Reach.leaves_no_trace reach⟩

/-- A replay starts in standby. -/
def playing : List Act :=
  [.replayStart (captureAt 915000000), .supervisor (.acquire (.replayStart (.replay 0))) none,
    .supervisor (.initialized true true) (some (.starting (.replay 0)))]

/-- The sensor is switched off while task 0 runs. -/
def switchedOff : List Act :=
  [.sensor false, .supervisor (.acquire (.setActive false)) none, .supervisor (.taskEnds 0 false) none,
    .supervisor (.taskDone 0 false) none, .supervisor .drained none,
    .supervisor (.closed true) (some (.sensor false))]

/-- ZMS is enabled in a replay, the sensor is switched off in one, and a capture
does not open. -/
theorem leaves_no_trace_fails :
    (∃ s, Reach defaults false (fun _ _ => True) s ∧ tuning s.env ≠ s.envLive) ∧
      (∃ s, Reach defaults false (fun _ _ => True) s ∧ s.running = false ∧ tuning s.settings ≠ s.live) ∧
      ∃ s, Reach defaults true (fun _ _ => True) s ∧ (some true, false) ∈ s.ends := by
  refine ⟨?_, ?_, ?_⟩
  · have goes : (Runs.follow step (first defaults false) (playing ++ [.zms true])).map
        (fun s => decide (tuning s.env ≠ s.envLive)) = some true := by
      decide +kernel
    obtain ⟨s, taken, other⟩ := Option.map_eq_some_iff.mp goes
    exact ⟨s, Runs.Reach.of_follow taken, of_decide_eq_true other⟩
  · have goes : (Runs.follow step (first defaults false) (playing ++ switchedOff)).map
        (fun s => decide (s.running = false ∧ tuning s.settings ≠ s.live)) = some true := by
      decide +kernel
    obtain ⟨s, taken, other⟩ := Option.map_eq_some_iff.mp goes
    obtain ⟨stopped, kept⟩ := of_decide_eq_true other
    exact ⟨s, Runs.Reach.of_follow taken, stopped, kept⟩
  · have goes : (Runs.follow step (first defaults true) ((replayed.take 7) ++
        [.supervisor (.initialized false false) (some (.starting (.replay 0)))])).map
          (fun s => decide ((some true, false) ∈ s.ends)) = some true := by
      decide +kernel
    obtain ⟨s, taken, other⟩ := Option.map_eq_some_iff.mp goes
    exact ⟨s, Runs.Reach.of_follow taken, of_decide_eq_true other⟩

end AppState

end Routes

end Replay

end RFObserver
