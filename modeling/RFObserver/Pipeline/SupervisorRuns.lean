import RFObserver.Pipeline.Supervisor

namespace RFObserver
namespace PipelineSupervisor

/-- One pipeline at a time, no mode left behind by a start or a stop that
raised, and no restart of another pipeline than the one that crashed. -/
structure Single (s : PipelineSupervisor) : Prop where
  receivers : s.opened.length ≤ 1
  tasks : s.running.length ≤ 1
  raises : ∀ mode ∈ s.raises, mode = ⟨none, false, false⟩
  live : ∀ e ∈ s.starts, (∀ receiver, e.1 ≠ .replayStart receiver) → ∃ n, e.2 = .live n
  replaced : ∀ e ∈ s.replaced, e.2 = some e.1

variable (s : PipelineSupervisor)

/-- `start_replay` gets the lock with no pipeline active, a restart after a
crash with no other live pipeline than the crashed one, no receiver fails to
close, no processor fails to build, and `initialize` fails only out of replay. -/
def Orderly : Act → Prop
  | .acquire (.replayStart _) => s.active = false
  | .acquire (.backoff task) => s.active = true → s.replay = false → s.processor = some task
  | .acquire (.giveUp task) => s.active = true → s.replay = false → s.processor = some task
  | .closed ok => ok = true
  | .initialized true built => built = true
  | .initialized false _ => s.replay = false
  | _ => True

instance Orderly.decidable : ∀ act, Decidable (s.Orderly act)
  | .acquire who =>
    match who with
    | .replayStart _ => inferInstanceAs (Decidable (s.active = false))
    | .backoff task => inferInstanceAs (Decidable (s.active = true → s.replay = false → s.processor = some task))
    | .giveUp task => inferInstanceAs (Decidable (s.active = true → s.replay = false → s.processor = some task))
    | .setActive _ | .replayStop _ | .stopReplay | .restart | .crashed _ => isTrue trivial
  | .closed ok => inferInstanceAs (Decidable (ok = true))
  | .initialized true built => inferInstanceAs (Decidable (built = true))
  | .initialized false _ => inferInstanceAs (Decidable (s.replay = false))
  | .setActive _ | .startReplay _ | .stopReplay | .restart | .drained | .taskEnds _ _ | .taskDone _ _
  | .crashBegins _ _ => isTrue trivial

def Reach (allowed : PipelineSupervisor → Act → Prop) : PipelineSupervisor → Prop :=
  Runs.Reach step create allowed

variable {s} {who : SupervisorCall}

/-- What holds at each await in the lock. -/
def Inside (s : PipelineSupervisor) (who : SupervisorCall) : LockStage → Prop
  | .draining => s.active = true
  | .closing => s.active = true ∧ s.running = []
  | .initializing receiver =>
    s.active = false ∧ (s.replay = false → ∃ n, receiver = .live n) ∧
      (s.replay = true → ∃ given, who = .replayStart given)

/-- What the steps of an orderly run keep. -/
structure Kept (s : PipelineSupervisor) : Prop where
  owned : s.active = true → ∃ receiver task, s.receiver = some receiver ∧ s.processor = some task ∧
    s.opened = [receiver] ∧ (s.running = [] ∨ s.running = [task])
  bare : s.active = false → s.opened = [] ∧ s.running = []
  mode : s.replay = s.receiverOverride.isSome
  plain : s.active = false → s.holder = none → s.replay = false
  inside : ∀ who stage, s.holder = some (who, stage) → s.Inside who stage
  raises : ∀ mode ∈ s.raises, mode = ⟨none, false, false⟩
  live : ∀ e ∈ s.starts, (∀ receiver, e.1 ≠ .replayStart receiver) → ∃ n, e.2 = .live n
  replaced : ∀ e ∈ s.replaced, e.2 = some e.1

theorem Kept.single (kept : s.Kept) : s.Single := by
  cases active : s.active with
  | false =>
    obtain ⟨opened, running⟩ := kept.bare active
    exact ⟨by simp [opened], by simp [running], kept.raises, kept.live, kept.replaced⟩
  | true =>
    obtain ⟨_, _, _, _, opened, running⟩ := kept.owned active
    refine ⟨by simp [opened], ?_, kept.raises, kept.live, kept.replaced⟩
    rcases running with running | running <;> simp [running]

/-- What Kept reads is not touched. -/
theorem Kept.waits (kept : s.Kept) (waiting : List SupervisorCall) : { s with waiting }.Kept :=
  ⟨kept.owned, kept.bare, kept.mode, kept.plain, kept.inside, kept.raises, kept.live, kept.replaced⟩

/-- The override is set in replay mode only. -/
theorem Kept.override_none (kept : s.Kept) (live : s.replay = false) : s.receiverOverride = none := by
  have mode := kept.mode
  rw [live] at mode
  exact Option.isNone_iff_eq_none.mp (by rw [← Option.not_isSome, ← mode]; rfl)

theorem Kept.beginStart_live (kept : s.Kept) (active : s.active = false) (live : s.replay = false) :
    (s.beginStart who).Kept := by
  refine ⟨kept.owned, kept.bare, kept.mode, fun _ free => (nomatch free), fun w stage holds => ?_, kept.raises,
    kept.live, kept.replaced⟩
  obtain ⟨rfl, rfl⟩ := Prod.mk.inj (Option.some.inj holds)
  refine ⟨active, fun _ => ⟨s.built, ?_⟩, fun replay => ?_⟩
  · rw [kept.override_none live]
    rfl
  · exact absurd (live.symm.trans replay) nofun

theorem Kept.beginStart_replay (kept : s.Kept) (active : s.active = false) (given : PipelineReceiver) :
    ({ s with receiverOverride := some given, replay := true, gaveUp := false }.beginStart
      (.replayStart given)).Kept := by
  refine ⟨kept.owned, kept.bare, rfl, fun _ free => (nomatch free), fun w stage holds => ?_, kept.raises, kept.live,
    kept.replaced⟩
  obtain ⟨rfl, rfl⟩ := Prod.mk.inj (Option.some.inj holds)
  exact ⟨active, nofun, fun _ => ⟨given, rfl⟩⟩

theorem Kept.beginStop (kept : s.Kept) (active : s.active = true)
    (own : ∀ task, who.crash = some task → s.processor = some task) : (s.beginStop who).Kept := by
  refine ⟨kept.owned, kept.bare, kept.mode, fun _ free => (nomatch free), fun w stage holds => ?_, kept.raises,
    kept.live, fun e member => ?_⟩
  · obtain ⟨rfl, rfl⟩ := Prod.mk.inj (Option.some.inj holds)
    exact active
  · rcases List.mem_append.mp member with new | old
    · obtain ⟨task, crashed, rfl⟩ := List.mem_map.mp new
      exact own task (Option.mem_toList.mp crashed)
    · exact kept.replaced e old

/-- A coroutine whose stop follows the rule for restarts, or does nothing. -/
theorem Kept.beginStop_live (kept : s.Kept)
    (own : s.active = true → s.replay = false → ∀ task, who.crash = some task → s.processor = some task) :
    (if s.active = false ∨ s.replay = true then s else s.beginStop who).Kept := by
  by_cases skips : s.active = false ∨ s.replay = true
  · rw [if_pos skips]
    exact kept
  · rw [if_neg skips]
    obtain ⟨active, live⟩ := not_or.mp skips
    have active : s.active = true := by simpa using active
    exact kept.beginStop active (own active (by simpa using live))

theorem Kept.enter (kept : s.Kept) (free : s.holder = none) (orderly : s.Orderly (.acquire who)) :
    (s.enter who).Kept := by
  have idle : s.active = false → s.replay = false := fun inactive => kept.plain inactive free
  cases who with
  | setActive on =>
    cases on with
    | true =>
      simp only [PipelineSupervisor.enter]
      split
      case isTrue => exact kept
      case isFalse inactive =>
        have inactive : s.active = false := by simpa using inactive
        have reset : { s with consecutiveCrashes := 0, gaveUp := false }.Kept :=
          ⟨kept.owned, kept.bare, kept.mode, kept.plain, kept.inside, kept.raises, kept.live, kept.replaced⟩
        exact reset.beginStart_live inactive (idle inactive)
    | false =>
      simp only [PipelineSupervisor.enter]
      split
      case isTrue active => exact kept.beginStop active nofun
      case isFalse => exact kept
  | replayStop given =>
    simp only [PipelineSupervisor.enter]
    split
    case isTrue active => exact kept.beginStop active nofun
    case isFalse => exact kept.waits _
  | replayStart given => exact kept.beginStart_replay orderly given
  | stopReplay =>
    simp only [PipelineSupervisor.enter]
    split
    case isTrue active => exact kept.beginStop active nofun
    case isFalse =>
      refine ⟨kept.owned, kept.bare, rfl, fun _ _ => rfl, fun w stage holds => ?_, kept.raises, kept.live,
        kept.replaced⟩
      exact absurd (free.symm.trans holds) nofun
  | restart => exact kept.beginStop_live fun _ _ => nofun
  | crashed task => exact kept
  | backoff task =>
    refine kept.beginStop_live fun active live crashed same => ?_
    obtain rfl := Option.some.inj same
    exact orderly active live
  | giveUp task =>
    refine kept.beginStop_live fun active live crashed same => ?_
    obtain rfl := Option.some.inj same
    exact orderly active live

/-- After a stop nothing is owned. -/
theorem Kept.stopped (kept : s.Kept) (inside : s.Inside who .closing) : s.stopped.Kept := by
  obtain ⟨receiver, task, own, _, opened, _⟩ := kept.owned inside.1
  refine ⟨nofun, fun _ => ⟨?_, inside.2⟩, rfl, fun _ _ => rfl, nofun, kept.raises, kept.live, kept.replaced⟩
  simp [PipelineSupervisor.stopped, own, opened]

theorem Kept.afterStop (kept : s.Kept) (inside : s.Inside who .closing) : (s.afterStop who).Kept := by
  have stopped := kept.stopped inside
  cases who with
  | replayStop given => exact stopped.waits _
  | restart => exact stopped.beginStart_live rfl rfl
  | backoff task => exact stopped.beginStart_live rfl rfl
  | giveUp task =>
    exact ⟨stopped.owned, stopped.bare, stopped.mode, stopped.plain, stopped.inside, stopped.raises, stopped.live,
      stopped.replaced⟩
  | _ => exact stopped

/-- A start that raises out of replay leaves a plain supervisor. -/
theorem Kept.startRaises (kept : s.Kept) {receiver : PipelineReceiver}
    (inside : s.Inside who (.initializing receiver)) (live : s.replay = false) : (s.startRaises who).Kept := by
  have raised : s.raise.Kept := by
    refine ⟨kept.owned, kept.bare, kept.mode, fun _ _ => live, nofun, fun mode member => ?_, kept.live,
      kept.replaced⟩
    rcases List.mem_cons.mp member with rfl | old
    · rw [kept.override_none live, live, inside.1]
    · exact kept.raises mode old
  cases who with
  | backoff task =>
    exact ⟨raised.owned, raised.bare, raised.mode, raised.plain, raised.inside, raised.raises, raised.live,
      raised.replaced⟩
  | _ => exact raised

theorem Kept.started (kept : s.Kept) {receiver : PipelineReceiver} (inside : s.Inside who (.initializing receiver)) :
    ({ s with opened := receiver :: s.opened }.started who receiver).Kept := by
  obtain ⟨opened, running⟩ := kept.bare inside.1
  refine ⟨fun _ => ⟨receiver, s.created, rfl, rfl, ?_, Or.inr ?_⟩, nofun, kept.mode, nofun, nofun, kept.raises,
    fun e member notReplay => ?_, kept.replaced⟩
  · exact congrArg (receiver :: ·) opened
  · exact congrArg (s.created :: ·) running
  · rcases List.mem_cons.mp member with rfl | old
    · cases replay : s.replay with
      | false => exact inside.2.1 replay
      | true =>
        obtain ⟨given, rfl⟩ := inside.2.2 replay
        exact absurd rfl (notReplay given)
    · exact kept.live e old notReplay

theorem Kept.initialized (kept : s.Kept) {receiver : PipelineReceiver} {ok built : Bool}
    (inside : s.Inside who (.initializing receiver)) (orderly : s.Orderly (.initialized ok built)) :
    (s.initialized who receiver ok built).Kept := by
  cases ok with
  | false => exact kept.startRaises inside orderly
  | true =>
    obtain rfl : built = true := orderly
    exact kept.started inside

/-- A running task that has ended. -/
theorem Kept.taskEnds (kept : s.Kept) {task : Nat} {done : List (Nat × Bool)} :
    { s with running := s.running.erase task, done }.Kept := by
  refine ⟨fun active => ?_, fun inactive => ?_, kept.mode, kept.plain, fun w stage holds => ?_, kept.raises,
    kept.live, kept.replaced⟩
  · obtain ⟨receiver, own, hasReceiver, hasProcessor, opened, running⟩ := kept.owned active
    refine ⟨receiver, own, hasReceiver, hasProcessor, opened, ?_⟩
    rcases running with running | running
    · exact Or.inl (by simp [running])
    · by_cases same : own = task
      · exact Or.inl (by simp [running, same])
      · exact Or.inr (by simp [running, same])
  · obtain ⟨opened, running⟩ := kept.bare inactive
    exact ⟨opened, by simp [running]⟩
  · have inside := kept.inside w stage holds
    cases stage with
    | draining => exact inside
    | closing => exact ⟨inside.1, by simp [inside.2]⟩
    | initializing receiver => exact inside

/-- A drained pipeline has no task that runs. -/
theorem Kept.drained (kept : s.Kept) (holds : s.holder = some (who, .draining))
    (ended : ∀ task ∈ s.processor, task ∉ s.running) : { s with holder := some (who, .closing) }.Kept := by
  have active : s.active = true := kept.inside who .draining holds
  obtain ⟨_, task, _, own, _, running⟩ := kept.owned active
  have none : s.running = [] := by
    rcases running with running | running
    · exact running
    · exact absurd (by simp [running]) (ended task own)
  refine ⟨kept.owned, kept.bare, kept.mode, fun _ free => (nomatch free), fun w stage holds => ?_, kept.raises,
    kept.live, kept.replaced⟩
  obtain ⟨rfl, rfl⟩ := Prod.mk.inj (Option.some.inj holds)
  exact ⟨active, none⟩

theorem Kept.onTaskDone (kept : s.Kept) (task : Nat) (failed : Bool) : (s.onTaskDone task failed).Kept := by
  unfold PipelineSupervisor.onTaskDone
  split
  case isTrue => exact kept
  case isFalse =>
    split
    case isTrue => exact kept.waits _
    case isFalse => exact kept

theorem Kept.step (kept : s.Kept) {act : Act} {s' : PipelineSupervisor} (orderly : s.Orderly act)
    (goes : s.step act = some s') : s'.Kept := by
  cases act <;> simp only [PipelineSupervisor.step] at goes
  case setActive | startReplay | stopReplay | restart =>
    obtain rfl := Option.some.inj goes
    exact kept.waits _
  case acquire who =>
    obtain ⟨⟨free, _⟩, same⟩ := Option.ite_none_right_eq_some.mp goes
    obtain rfl := Option.some.inj same
    exact (kept.waits _).enter free orderly
  case drained =>
    split at goes
    case h_1 who holds =>
      obtain ⟨ended, same⟩ := Option.ite_none_right_eq_some.mp goes
      obtain rfl := Option.some.inj same
      exact kept.drained holds ended
    case h_2 => cases goes
  case closed ok =>
    obtain rfl : ok = true := orderly
    split at goes
    case h_1 who holds =>
      obtain ⟨_, same⟩ := Option.ite_none_right_eq_some.mp goes
      obtain rfl := Option.some.inj same
      exact kept.afterStop (kept.inside who .closing holds)
    case h_2 => cases goes
  case initialized ok built =>
    split at goes
    case h_1 who receiver holds =>
      obtain rfl := Option.some.inj goes
      exact kept.initialized (kept.inside who _ holds) orderly
    case h_2 => cases goes
  case taskEnds task failed =>
    obtain ⟨_, same⟩ := Option.ite_none_right_eq_some.mp goes
    obtain rfl := Option.some.inj same
    exact kept.taskEnds
  case taskDone task failed =>
    obtain ⟨_, same⟩ := Option.ite_none_right_eq_some.mp goes
    obtain rfl := Option.some.inj same
    have popped : { s with done := s.done.erase (task, failed) }.Kept :=
      ⟨kept.owned, kept.bare, kept.mode, kept.plain, kept.inside, kept.raises, kept.live, kept.replaced⟩
    exact popped.onTaskDone task failed
  case crashBegins task now =>
    obtain ⟨_, same⟩ := Option.ite_none_right_eq_some.mp goes
    obtain rfl := Option.some.inj same
    exact ⟨kept.owned, kept.bare, kept.mode, kept.plain, kept.inside, kept.raises, kept.live, kept.replaced⟩

/-- In every orderly run there is one pipeline. -/
theorem Reach.one_pipeline (reach : Reach Orderly s) : s.Single := by
  have kept : s.Kept := by
    refine Runs.Reach.invariant ?_ (fun s act s' kept orderly goes => Kept.step kept orderly goes) reach
    exact ⟨nofun, fun _ => ⟨rfl, rfl⟩, rfl, fun _ _ => rfl, nofun, nofun, nofun, nofun⟩
  exact kept.single

/-- The live pipeline starts, crashes and is restarted, and a replay follows it. -/
def restartThenReplay : List Act :=
  [.setActive true, .acquire (.setActive true), .initialized true true, .taskEnds 0 true, .taskDone 0 true,
    .crashBegins 0 1000, .acquire (.backoff 0), .drained, .closed true, .initialized true true,
    .startReplay (.replay 0), .acquire (.replayStop (.replay 0)), .taskEnds 1 false, .taskDone 1 false, .drained,
    .closed true, .acquire (.replayStart (.replay 0)), .initialized true true]

theorem Reach.one_pipeline_replayed : ∃ s, Reach Orderly s ∧ s.opened = [.replay 0] ∧ s.Single := by
  have meets : Runs.Meets step Orderly create restartThenReplay := by decide +kernel
  have final : (Runs.follow step create restartThenReplay).map (fun s => s.opened) = some [.replay 0] := by
    decide +kernel
  obtain ⟨s, goes, opened⟩ := Option.map_eq_some_iff.mp final
  have reach : Reach Orderly s := Runs.Reach.start.follow meets goes
  exact ⟨s, reach, opened, Reach.one_pipeline reach⟩

/-- A second caller activates the sensor between the stop and the start of `start_replay`. -/
def activatedBetween : List Act :=
  [.setActive true, .acquire (.setActive true), .initialized true true, .startReplay (.replay 0), .setActive true,
    .acquire (.replayStop (.replay 0)), .taskEnds 0 false, .taskDone 0 false, .drained, .closed true,
    .acquire (.setActive true), .initialized true true, .acquire (.replayStart (.replay 0)), .initialized true true]

/-- The receiver of a replay fails to initialize, and the sensor is activated. -/
def replayFails : List Act :=
  [.startReplay (.replay 0), .acquire (.replayStart (.replay 0)), .initialized false true, .setActive true,
    .acquire (.setActive true), .initialized true true]

/-- The sensor is stopped and started while the restart after a crash sleeps. -/
def restartedMeanwhile : List Act :=
  [.setActive true, .acquire (.setActive true), .initialized true true, .taskEnds 0 true, .taskDone 0 true,
    .crashBegins 0 1000, .setActive false, .acquire (.setActive false), .drained, .closed true, .setActive true,
    .acquire (.setActive true), .initialized true true, .acquire (.backoff 0)]

theorem one_pipeline_fails :
    (∃ s, Reach (fun _ _ => True) s ∧ s.opened.length = 2 ∧ s.running.length = 2 ∧ ¬ s.Single) ∧
      (∃ s, Reach (fun _ _ => True) s ∧ s.starts = [(.setActive true, .replay 0)] ∧ ¬ s.Single) ∧
        ∃ s, Reach (fun _ _ => True) s ∧ s.replaced = [(0, some 1)] ∧ ¬ s.Single := by
  refine ⟨?_, ?_, ?_⟩
  · have final : (Runs.follow step create activatedBetween).map (fun s => (s.opened.length, s.running.length)) =
        some (2, 2) := by decide +kernel
    obtain ⟨s, goes, counts⟩ := Option.map_eq_some_iff.mp final
    obtain ⟨opened, running⟩ := Prod.mk.inj counts
    refine ⟨s, Runs.Reach.of_follow goes, opened, running, fun single => ?_⟩
    have one := single.receivers
    omega
  · have final : (Runs.follow step create replayFails).map (fun s => s.starts) =
        some [(.setActive true, .replay 0)] := by decide +kernel
    obtain ⟨s, goes, starts⟩ := Option.map_eq_some_iff.mp final
    refine ⟨s, Runs.Reach.of_follow goes, starts, fun single => ?_⟩
    obtain ⟨n, live⟩ := single.live _ (by rw [starts]; exact List.mem_singleton_self _) fun _ same => by cases same
    cases live
  · have final : (Runs.follow step create restartedMeanwhile).map (fun s => s.replaced) = some [(0, some 1)] := by
      decide +kernel
    obtain ⟨s, goes, replaced⟩ := Option.map_eq_some_iff.mp final
    refine ⟨s, Runs.Reach.of_follow goes, replaced, fun single => ?_⟩
    have own := single.replaced _ (by rw [replaced]; exact List.mem_singleton_self _)
    cases own

end PipelineSupervisor
end RFObserver
